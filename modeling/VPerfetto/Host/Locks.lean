/-
# Locks

The two kinds of locks of `vperfetto.cpp`: `mContextsLock` of the storage and
the spin flag `mTracingLock` of each context. A call holds its own tracing
lock and, when the buffer has to be refilled, takes the contexts lock inside
it; `saveTracesToDisk` holds the contexts lock and takes each context's
tracing lock inside that.

`no_deadlock` says that this is the only way to a cycle of waiting threads:
there is none as long as no thread asks for a refill while its context is
still to be saved, and saving does not begin while a refill waits.

Key definitions: `Lock`, `LockPhase`, `Locks`, `Locks.step`, `Deadlocked`, `RefillsApart`.
-/
import Mathlib.Data.Nat.Notation
import Mathlib.Logic.Function.Basic
import VPerfetto.Lib.Runs

namespace VPerfetto
namespace Host

open Runs

inductive Lock where
  | contexts
  | tracing (context : ℕ)
deriving DecidableEq, Repr

/-- Where a thread is between its acquires and releases. A flag tells whether
the lock that the phase is about is held yet or waited for. -/
inductive LockPhase where
  | idle
  | adding (held : Bool)
  | calling
  | writing
  | refilling (held : Bool)
  | disabling
  | saving (rest : List ℕ)
  | savingContext (context : ℕ) (held : Bool) (rest : List ℕ)
  | removing (held : Bool)
  | flushing (held : Bool)
  | storing (held : Bool)
  | exited
deriving DecidableEq, Repr

/-- The lock a thread waits for. Thread `t` owns context `t`. -/
def LockPhase.wants (t : ℕ) : LockPhase → Option Lock
  | .adding false | .refilling false | .disabling | .removing false | .storing false => some .contexts
  | .calling | .flushing false => some (.tracing t)
  | .savingContext c false _ => some (.tracing c)
  | _ => none

def LockPhase.held (t : ℕ) : LockPhase → List Lock
  | .adding true | .removing true | .storing true => [.contexts]
  | .writing | .flushing true | .refilling false => [.tracing t]
  | .refilling true => [.tracing t, .contexts]
  | .saving _ | .savingContext _ false _ => [.contexts]
  | .savingContext c true _ => [.contexts, .tracing c]
  | _ => []

/-- The contexts that `saveTracesToDisk` has still to lock. -/
def LockPhase.remaining : LockPhase → List ℕ
  | .saving rest => rest
  | .savingContext c false rest => c :: rest
  | .savingContext _ true rest => rest
  | _ => []

/-- Who has each lock, where each thread is, and `mContexts`. -/
structure Locks where
  owner : Lock → Option ℕ := fun _ => none
  phase : ℕ → LockPhase := fun _ => .idle
  contexts : List ℕ := []

inductive LockEvent where
  /-- `beginTrace`, `endTrace` or `traceCounter`; the first constructs the context -/
  | call (t : ℕ)
  /-- take the lock that is waited for; `order` is the order in which contexts will be saved -/
  | acquire (t : ℕ) (order : List ℕ)
  /-- `finishAndRefresh` in the middle of a call -/
  | refill (t : ℕ)
  | disable (t : ℕ)
  /-- the loop of `saveTracesToDisk` goes to its next context -/
  | next (t : ℕ)
  /-- let go of the lock taken last; `buffer` tells whether an exiting thread has a buffer to save -/
  | release (t : ℕ) (buffer : Bool)
  | exit (t : ℕ)

namespace Locks

def setPhase (t : ℕ) (p : LockPhase) (s : Locks) : Locks :=
  { s with phase := Function.update s.phase t p }

def setOwner (l : Lock) (o : Option ℕ) (s : Locks) : Locks :=
  { s with owner := Function.update s.owner l o }

/-- The phase of a thread that has got the lock it waited for. -/
def acquired (contexts order : List ℕ) : LockPhase → Option LockPhase
  | .adding false => some (.adding true)
  | .calling => some .writing
  | .refilling false => some (.refilling true)
  | .disabling => if order.isPerm contexts then some (.saving order) else none
  | .savingContext c false rest => some (.savingContext c true rest)
  | .removing false => some (.removing true)
  | .flushing false => some (.flushing true)
  | .storing false => some (.storing true)
  | _ => none

/-- The lock a thread lets go of, where it is then, and `mContexts` afterwards. -/
def released (t : ℕ) (buffer : Bool) (contexts : List ℕ) : LockPhase → Option (Lock × LockPhase × List ℕ)
  | .adding true => some (.contexts, .idle, contexts ++ [t])
  | .writing => some (.tracing t, .idle, contexts)
  | .refilling true => some (.contexts, .writing, contexts)
  | .saving [] => some (.contexts, .idle, contexts)
  | .savingContext c true rest => some (.tracing c, .saving rest, contexts)
  | .removing true => some (.contexts, if buffer then .flushing false else .exited, contexts.erase t)
  | .flushing true => some (.tracing t, .storing false, contexts)
  | .storing true => some (.contexts, .exited, contexts)
  | _ => none

def step (s : Locks) : LockEvent → Option Locks
  | .call t =>
    if s.phase t = .idle then some (s.setPhase t (if t ∈ s.contexts then .calling else .adding false))
    else none
  | .acquire t order => do
    let l ← (s.phase t).wants t
    let p ← acquired s.contexts order (s.phase t)
    if (s.owner l).isNone then return (s.setOwner l (some t)).setPhase t p else none
  | .refill t => if s.phase t = .writing then some (s.setPhase t (.refilling false)) else none
  | .disable t => if s.phase t = .idle then some (s.setPhase t .disabling) else none
  | .next t =>
    match s.phase t with
    | .saving (c :: rest) => some (s.setPhase t (.savingContext c false rest))
    | _ => none
  | .release t buffer => do
    let (l, p, contexts) ← released t buffer s.contexts (s.phase t)
    return { (s.setOwner l none).setPhase t p with contexts := contexts }
  | .exit t =>
    if s.phase t = .idle ∧ t ∈ s.contexts then some (s.setPhase t (.removing false)) else none

def WaitsOn (s : Locks) (t u : ℕ) : Prop :=
  ∃ l, (s.phase t).wants t = some l ∧ l ∈ (s.phase u).held u

end Locks

/-- A cycle of threads, each waiting for a lock the next one holds. -/
def Deadlocked (s : Locks) : Prop := ∃ t, Relation.TransGen s.WaitsOn t t

/-- A refill begins only when no `saveTracesToDisk` in progress has still to
lock the thread's context, and `saveTracesToDisk` gets the contexts lock only
when no refill waits for it. -/
def RefillsApart (s : Locks) : LockEvent → Prop
  | .refill t => ∀ u, t ∉ (s.phase u).remaining
  | .acquire t _ => s.phase t = .disabling → ∀ u, s.phase u ≠ .refilling false
  | _ => True

/-- Locks and phases agree, and no context still to be saved is in a refill
that waits. -/
structure LocksInv (s : Locks) : Prop where
  owner : ∀ l t, s.owner l = some t ↔ l ∈ (s.phase t).held t
  apart : ∀ u, ∀ t ∈ (s.phase u).remaining, s.phase t ≠ .refilling false

section

variable {s s' : Locks} {t u v w : ℕ} {p ph : LockPhase} {l : Lock} {contexts contexts' order : List ℕ} {buffer : Bool}

/-! ## What one step does to a thread -/

/-- The only phase whose next one depends on more than the lock. -/
theorem Locks.acquired_disabling (ha : Locks.acquired contexts order .disabling = some p) :
    p = .saving order := by
  simp only [Locks.acquired, Option.ite_none_right_eq_some] at ha
  exact (Option.some.inj ha.2).symm

/-- A thread that gets a lock holds it after those it held before. -/
theorem LockPhase.acquired_held (ha : Locks.acquired contexts order ph = some p) (hw : ph.wants t = some l) :
    p.held t = ph.held t ++ [l] := by
  rcases eq_or_ne ph .disabling with rfl | hne
  · obtain rfl := Locks.acquired_disabling ha
    obtain rfl := Option.some.inj hw
    rfl
  · unfold Locks.acquired at ha
    split at ha <;> try contradiction
    all_goals
      obtain rfl := Option.some.inj ha
      obtain rfl := Option.some.inj hw
      rfl

/-- Saving begins with the contexts in some order; else nothing is added to
what has to be saved, and no refill begins to wait. -/
theorem LockPhase.acquired_remaining (ha : Locks.acquired contexts order ph = some p) :
    (ph = .disabling ∨ ∀ c ∈ p.remaining, c ∈ ph.remaining) ∧ p ≠ .refilling false := by
  rcases eq_or_ne ph .disabling with rfl | hne
  · obtain rfl := Locks.acquired_disabling ha
    exact ⟨Or.inl rfl, LockPhase.noConfusion⟩
  · unfold Locks.acquired at ha
    split at ha <;> try contradiction
    all_goals
      obtain rfl := Option.some.inj ha
      exact ⟨Or.inr (by simp +contextual [remaining]), by simp⟩

theorem LockPhase.held_nodup (t : ℕ) (ph : LockPhase) : (ph.held t).Nodup := by
  unfold held
  split <;> simp

/-- A thread lets go of the last lock it took. -/
theorem LockPhase.released_held (hr : Locks.released t buffer contexts ph = some (l, p, contexts')) :
    ph.held t = p.held t ++ [l] := by
  unfold Locks.released at hr
  split at hr <;> try contradiction
  all_goals
    obtain ⟨rfl, h⟩ := Prod.mk.inj (Option.some.inj hr)
    obtain ⟨rfl, -⟩ := Prod.mk.inj h
  all_goals first | rfl | (cases buffer <;> rfl)

theorem LockPhase.released_remaining (hr : Locks.released t buffer contexts ph = some (l, p, contexts')) :
    (∀ c ∈ p.remaining, c ∈ ph.remaining) ∧ p ≠ .refilling false := by
  unfold Locks.released at hr
  split at hr <;> try contradiction
  all_goals
    obtain ⟨-, h⟩ := Prod.mk.inj (Option.some.inj hr)
    obtain ⟨rfl, -⟩ := Prod.mk.inj h
  all_goals first | simp [remaining]; done | (cases buffer <;> simp [remaining])

/-! ## The invariant -/

/-- What has to be saved next and who waits for a refill, after thread `t` has moved. -/
theorem LocksInv.apart_update (h : LocksInv s) (hr : ∀ c ∈ p.remaining, s.phase c ≠ .refilling false)
    (hp : p = .refilling false → ∀ u, t ∉ (s.phase u).remaining) (u c : ℕ)
    (hc : c ∈ (Function.update s.phase t p u).remaining) :
    Function.update s.phase t p c ≠ .refilling false := by
  have hold : c ∈ p.remaining ∨ c ∈ (s.phase u).remaining := by
    rcases eq_or_ne u t with rfl | hu
    · exact Or.inl (by simpa using hc)
    · exact Or.inr (by simpa [hu] using hc)
  rcases eq_or_ne c t with rfl | hct
  · rw [Function.update_self]
    rintro rfl
    rcases hold with h1 | h1
    · exact List.not_mem_nil h1
    · exact hp rfl u h1
  · rw [Function.update_of_ne hct]
    exact hold.elim (hr c) (h.apart u c)

/-- A thread moves and no lock changes hands. -/
theorem LocksInv.setPhase (h : LocksInv s) (hheld : p.held t = (s.phase t).held t)
    (hr : ∀ c ∈ p.remaining, c ∈ (s.phase t).remaining)
    (hp : p = .refilling false → ∀ u, t ∉ (s.phase u).remaining) : LocksInv (s.setPhase t p) := by
  refine ⟨fun l u => ?_, h.apart_update (fun c hc => h.apart t c (hr c hc)) hp⟩
  show s.owner l = some u ↔ l ∈ (Function.update s.phase t p u).held u
  rw [h.owner l u]
  rcases eq_or_ne u t with rfl | hu
  · rw [Function.update_self, hheld]
  · rw [Function.update_of_ne hu]

theorem LocksInv.take (h : LocksInv s) (hfree : s.owner l = none) (hheld : p.held t = (s.phase t).held t ++ [l])
    (hr : ∀ c ∈ p.remaining, s.phase c ≠ .refilling false) (hp : p ≠ .refilling false) :
    LocksInv ((s.setOwner l (some t)).setPhase t p) := by
  refine ⟨fun l' u => ?_, h.apart_update hr fun he => absurd he hp⟩
  show Function.update s.owner l (some t) l' = some u ↔ l' ∈ (Function.update s.phase t p u).held u
  have hfree' (u : ℕ) : l ∉ (s.phase u).held u := by
    rw [← h.owner, hfree]
    exact (Option.some_ne_none _).symm
  rcases eq_or_ne u t with rfl | hu
  · rw [Function.update_self, hheld]
    rcases eq_or_ne l' l with rfl | hl
    · simp
    · simp [hl, h.owner]
  · rw [Function.update_of_ne hu]
    rcases eq_or_ne l' l with rfl | hl
    · simp [hfree', Ne.symm hu]
    · simp [hl, h.owner]

theorem LocksInv.drop (h : LocksInv s) (hheld : (s.phase t).held t = p.held t ++ [l])
    (hr : ∀ c ∈ p.remaining, c ∈ (s.phase t).remaining) (hp : p ≠ .refilling false) :
    LocksInv { (s.setOwner l none).setPhase t p with contexts := contexts } := by
  refine ⟨fun l' u => ?_, h.apart_update (fun c hc => h.apart t c (hr c hc)) fun he => absurd he hp⟩
  show Function.update s.owner l none l' = some u ↔ l' ∈ (Function.update s.phase t p u).held u
  have hmine : s.owner l = some t := by
    rw [h.owner, hheld]
    exact List.mem_append_right _ List.mem_cons_self
  have hlast : l ∉ p.held t := by
    have hnodup := (s.phase t).held_nodup t
    rw [hheld, List.nodup_append] at hnodup
    exact fun hl => hnodup.2.2 l hl l List.mem_cons_self rfl
  rcases eq_or_ne u t with rfl | hu
  · rw [Function.update_self]
    rcases eq_or_ne l' l with rfl | hl
    · simpa using hlast
    · simp [hl, h.owner, hheld]
  · rw [Function.update_of_ne hu]
    rcases eq_or_ne l' l with rfl | hl
    · simp [← h.owner, hmine, Ne.symm hu]
    · simp [hl, h.owner]

/-- **Every step keeps the invariant** if refills and saving stay apart. -/
theorem locksInv_step (h : LocksInv s) {e : LockEvent} (hok : RefillsApart s e) (hs : s.step e = some s') :
    LocksInv s' := by
  cases e with
  | call t =>
    obtain ⟨hidle, hs⟩ := Option.ite_none_right_eq_some.mp hs
    obtain rfl := Option.some.inj hs
    refine h.setPhase ?_ ?_ ?_
    · rw [hidle]
      split <;> rfl
    · split <;> simp [LockPhase.remaining]
    · split <;> simp
  | acquire t order =>
    simp only [Locks.step, Option.bind_eq_bind, Option.bind_eq_some_iff, Option.pure_def] at hs
    obtain ⟨l, hw, p, ha, hs⟩ := hs
    obtain ⟨hfree, hs⟩ := Option.ite_none_right_eq_some.mp hs
    obtain rfl := Option.some.inj hs
    obtain ⟨hr, hp⟩ := LockPhase.acquired_remaining ha
    refine h.take (Option.isNone_iff_eq_none.mp hfree) (LockPhase.acquired_held ha hw) (fun c hc => ?_) hp
    rcases hr with hd | hr
    · exact hok hd c
    · exact h.apart t c (hr c hc)
  | refill t =>
    obtain ⟨hw, hs⟩ := Option.ite_none_right_eq_some.mp hs
    obtain rfl := Option.some.inj hs
    exact h.setPhase (by rw [hw]; rfl) (by simp [LockPhase.remaining]) fun _ => hok
  | disable t =>
    obtain ⟨hidle, hs⟩ := Option.ite_none_right_eq_some.mp hs
    obtain rfl := Option.some.inj hs
    exact h.setPhase (by rw [hidle]; rfl) (by simp [LockPhase.remaining]) (by simp)
  | next t =>
    simp only [Locks.step] at hs
    split at hs
    · rename_i c rest hph
      obtain rfl := Option.some.inj hs
      exact h.setPhase (by rw [hph]; rfl) (by rw [hph]; exact fun _ hc => hc) (by simp)
    · exact absurd hs.symm (Option.some_ne_none _)
  | release t buffer =>
    simp only [Locks.step, Option.bind_eq_bind, Option.bind_eq_some_iff, Option.pure_def] at hs
    obtain ⟨⟨l, p, contexts⟩, hr, hs⟩ := hs
    obtain rfl := Option.some.inj hs
    obtain ⟨hrem, hp⟩ := LockPhase.released_remaining hr
    exact h.drop (LockPhase.released_held hr) hrem hp
  | exit t =>
    obtain ⟨hidle, hs⟩ := Option.ite_none_right_eq_some.mp hs
    obtain rfl := Option.some.inj hs
    exact h.setPhase (by rw [hidle.1]; rfl) (by simp [LockPhase.remaining]) (by simp)

/-! ## No cycle -/

theorem locksInv_start : LocksInv {} :=
  ⟨fun _ _ => by simp [LockPhase.held], fun _ _ hc => absurd hc List.not_mem_nil⟩

/-- A waiting thread that holds a lock has taken its turn in `saveTracesToDisk`
or in a refill. -/
theorem LockPhase.wants_held (hw : ph.wants t = some l) {l' : Lock} (hl : l' ∈ ph.held t) :
    (ph = .refilling false ∧ l' = .tracing t) ∨
    ∃ c rest, ph = .savingContext c false rest ∧ l = .tracing c ∧ l' = .contexts := by
  unfold wants at hw
  split at hw <;> try contradiction
  all_goals simp_all [held]

/-- Another thread's tracing lock is asked for by `saveTracesToDisk` alone. -/
theorem LockPhase.wants_tracing (hw : ph.wants t = some (.tracing u)) :
    u ∈ ph.remaining ∨ (u = t ∧ ph ≠ .refilling false) := by
  unfold wants at hw
  split at hw
  all_goals simp only [Option.some.injEq, Lock.tracing.injEq, reduceCtorEq] at hw
  all_goals
    subst hw
    simp [remaining]

/-- Nobody waits for a thread whose refill waits itself. -/
theorem LocksInv.not_waitsOn_refilling (h : LocksInv s) (hu : s.phase u = .refilling false) :
    ¬ s.WaitsOn t u := by
  intro hex
  obtain ⟨l, hw, hl⟩ := hex
  obtain rfl : l = .tracing u := by
    rw [hu] at hl
    exact List.mem_singleton.mp hl
  rcases LockPhase.wants_tracing hw with hrem | ⟨rfl, hne⟩
  · exact h.apart t u hrem hu
  · exact hne hu

/-- Three waits in a row do not happen. -/
theorem LocksInv.not_waitsOn_chain (h : LocksInv s) (h1 : s.WaitsOn t u) (h2 : s.WaitsOn u v) :
    ¬ s.WaitsOn v w := by
  intro hex
  obtain ⟨l₃, hw₃, -⟩ := hex
  obtain ⟨l₂, hw₂, hl₂⟩ := id h2
  obtain ⟨l₁, -, hl₁⟩ := id h1
  obtain rfl : l₂ = .contexts := by
    rcases LockPhase.wants_held hw₃ hl₂ with ⟨hv, -⟩ | ⟨-, -, -, -, hl⟩
    · exact absurd h2 (h.not_waitsOn_refilling hv)
    · exact hl
  rcases LockPhase.wants_held hw₂ hl₁ with ⟨hu, -⟩ | ⟨c, -, -, hl, -⟩
  · exact h.not_waitsOn_refilling hu h1
  · exact Lock.noConfusion hl

theorem exists_next_of_transGen {r : ℕ → ℕ → Prop} (h : Relation.TransGen r t t) :
    ∃ u, r t u ∧ Relation.TransGen r u u := by
  obtain ⟨u, htu, hut⟩ := Relation.TransGen.head'_iff.mp h
  exact ⟨u, htu, Relation.TransGen.tail' hut htu⟩

theorem LocksInv.not_deadlocked (h : LocksInv s) : ¬ Deadlocked s := by
  intro hex
  obtain ⟨t, ht⟩ := hex
  obtain ⟨u, htu, hu⟩ := exists_next_of_transGen ht
  obtain ⟨v, huv, hv⟩ := exists_next_of_transGen hu
  obtain ⟨w, hvw, -⟩ := exists_next_of_transGen hv
  exact h.not_waitsOn_chain htu huv hvw

/-- **No deadlock** in any run in which refills and saving stay apart. -/
theorem no_deadlock (h : Reach (fun s => s = {}) (fun s e s' => s.step e = some s') RefillsApart s) :
    ¬ Deadlocked s :=
  (Reach.inv (fun _ hs => hs ▸ locksInv_start) (fun _ _ _ hinv hok hs => locksInv_step hinv hok hs) h).not_deadlocked

/-- Thread 0 waits to save until the refill of thread 1 is over. -/
theorem no_deadlock_refill :
    ∃ s, run Locks.step {} [.call 1, .acquire 1 [], .release 1 false, .call 1, .acquire 1 [], .refill 1,
        .acquire 1 [], .disable 0] = some s ∧ s.WaitsOn 0 1 ∧ ¬ Deadlocked s := by
  refine ⟨_, rfl, ⟨.contexts, rfl, List.mem_cons_of_mem _ List.mem_cons_self⟩, no_deadlock ?_⟩
  have h0 : Reach (fun s => s = {}) (fun s e s' => Locks.step s e = some s') RefillsApart {} := .init rfl
  have h1 := h0.step (a := .call 1) (by exact trivial) rfl
  have h2 := h1.step (a := .acquire 1 []) (by exact fun h => LockPhase.noConfusion h) rfl
  have h3 := h2.step (a := .release 1 false) (by exact trivial) rfl
  have h4 := h3.step (a := .call 1) (by exact trivial) rfl
  have h5 := h4.step (a := .acquire 1 []) (by exact fun h => LockPhase.noConfusion h) rfl
  have h6 := h5.step (a := .refill 1) (by
    intro u
    rcases eq_or_ne u 1 with rfl | hu
    · exact List.not_mem_nil
    · simp [Locks.setPhase, Locks.setOwner, hu, LockPhase.remaining]) rfl
  have h7 := h6.step (a := .acquire 1 []) (by exact fun h => LockPhase.noConfusion h) rfl
  exact h7.step (a := .disable 0) (by exact trivial) rfl

/-- The refill of thread 1 waits for the contexts lock, and `saveTracesToDisk`
on thread 0, which holds it, waits for thread 1. -/
theorem refill_deadlock :
    ∃ s, Reach (fun s => s = {}) (fun s e s' => Locks.step s e = some s') (fun _ _ => True) s ∧ Deadlocked s := by
  have h0 : Reach (fun s => s = {}) (fun s e s' => Locks.step s e = some s') (fun _ _ => True) {} := .init rfl
  have h1 := Reach.run [.call 1, .acquire 1 [], .release 1 false, .call 1, .acquire 1 [], .refill 1,
    .disable 0, .acquire 0 [1], .next 0] (fun _ _ => trivial) h0 rfl
  refine ⟨_, h1, 0, ?_⟩
  refine .head (b := 1) ⟨.tracing 1, rfl, ?_⟩ (.single ⟨.contexts, rfl, ?_⟩)
  · exact List.mem_cons_self
  · exact List.mem_cons_self

end

end Host
end VPerfetto
