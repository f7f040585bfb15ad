/-
# Whose buffer it is

The buffers that `allocTraceBuffer` mallocs, over the locks of `Locks`: a
context has one in `mTraceBuffer`, `saveLocked` copies the pointer out and
`resetLocked` clears it, `saveTraceLocked` puts it into `mSavedTraces`, and
`saveTracesToDisk` frees what is there. Each of these is a step of its own,
by a thread that is where `Locks` says it is.

Whatever the interleaving, each buffer is in one of these places: nothing is
freed twice, used after it was freed, shared or lost (`buffers_owned`).

A buffer is the number of its malloc, which succeeds. The loop that frees goes
through `mSavedTraces` and clears it under the same lock; here each pointer
leaves it when it is freed.

Key definitions: `Stage`, `MemState`, `MemState.step`, `Place`, `MemInv`.
Key theorems: `memInv_step`, `buffers_owned`.
-/
import VPerfetto.Host.Stuck

namespace VPerfetto
namespace Host

open Runs Ownership

/-- How far a thread is in taking a buffer out of a context: `saveLocked` has
copied the pointer, `resetLocked` has cleared it and the copy is in the thread's
hands, or `finishAndRefresh` has stored it and has still to call `allocTraceBuffer`. -/
inductive Stage where
  | rest
  | copied (context : ℕ) (data : Option ℕ)
  | taken (data : Option ℕ)
  | refresh
deriving DecidableEq, Repr

def Stage.isTaken : Stage → Bool
  | .taken _ => true
  | _ => false

/-- `allocated` counts the calls of malloc, `freed` has the buffers freed so far. -/
structure MemState where
  locks : Locks := {}
  traceBuffer : ℕ → Option ℕ := fun _ => none
  stage : ℕ → Stage := fun _ => .rest
  savedTraces : List ℕ := []
  freed : List ℕ := []
  allocated : ℕ := 0

inductive MemEvent where
  | lock (e : LockEvent)
  /-- `allocTraceBuffer`, after `finishAndRefresh` has saved or where there is no buffer -/
  | alloc (t : ℕ)
  /-- `saveLocked` -/
  | copy (t : ℕ)
  /-- `resetLocked` -/
  | reset (t : ℕ)
  /-- `saveTraceLocked` -/
  | store (t : ℕ)
  /-- one round of the loop at the end of `saveTracesToDisk` -/
  | free (t : ℕ)

/-- The context whose buffer thread `t` saves here. -/
def LockPhase.copying (t : ℕ) : LockPhase → Option ℕ
  | .writing | .flushing true => some t
  | .savingContext c true _ => some c
  | _ => none

namespace MemState

/-- When the thread's code gets to this step of its locks. The destructor asks
for its buffer after it has left `mContexts`. -/
def reaches (s : MemState) : LockEvent → Bool
  | .refill t => (s.stage t).isTaken
  | .next t => s.stage t = .rest
  | .release t buffer =>
    match s.locks.phase t with
    | .writing | .storing true => s.stage t = .rest
    | .refilling true => s.stage t = .refresh
    | .savingContext _ true _ | .flushing true => (s.stage t).isTaken
    | .saving _ => s.stage t = .rest && s.savedTraces = []
    | .removing true => buffer = (s.traceBuffer t).isSome
    | _ => true
  | _ => true

def setStage (t : ℕ) (stage : Stage) (s : MemState) : MemState :=
  { s with stage := Function.update s.stage t stage }

def setBuffer (c : ℕ) (data : Option ℕ) (s : MemState) : MemState :=
  { s with traceBuffer := Function.update s.traceBuffer c data }

def step (s : MemState) : MemEvent → Option MemState
  | .lock e => if s.reaches e then (s.locks.step e).map fun locks => { s with locks := locks } else none
  | .alloc t =>
    if s.locks.phase t = .writing ∧ (s.stage t = .refresh ∨ (s.stage t = .rest ∧ s.traceBuffer t = none)) then
      some { (s.setStage t .rest).setBuffer t (some s.allocated) with allocated := s.allocated + 1 }
    else none
  | .copy t => do
    let c ← (s.locks.phase t).copying t
    -- `finishAndRefresh` saves only if there is a buffer
    if s.stage t = .rest ∧ (s.locks.phase t = .writing → s.traceBuffer t ≠ none) then
      return s.setStage t (.copied c (s.traceBuffer c))
    else none
  | .reset t =>
    match s.stage t with
    | .copied c data => some ((s.setStage t (.taken data)).setBuffer c none)
    | _ => none
  | .store t =>
    match s.stage t, s.locks.phase t with
    | .taken data, .refilling true =>
      some { s.setStage t .refresh with savedTraces := s.savedTraces ++ data.toList }
    | .taken data, .saving _ | .taken data, .storing true =>
      some { s.setStage t .rest with savedTraces := s.savedTraces ++ data.toList }
    | _, _ => none
  | .free t =>
    match s.locks.phase t, s.savedTraces with
    | .saving [], data :: rest =>
      if s.stage t = .rest then some { s with savedTraces := rest, freed := s.freed ++ [data] } else none
    | _, _ => none

end MemState

/-! ### The buffers -/

/-- Where a buffer can be. -/
inductive Place where
  | buffer (context : ℕ)
  | hands (t : ℕ)
  | saved
  | freed
deriving DecidableEq

/-- What a thread has in its hands. -/
def Stage.data : Stage → List ℕ
  | .taken data => data.toList
  | _ => []

def MemState.holds (s : MemState) : Place → List ℕ
  | .buffer c => (s.traceBuffer c).toList
  | .hands t => (s.stage t).data
  | .saved => s.savedTraces
  | .freed => s.freed

/-- Where a thread can be with a buffer in its hands. -/
def LockPhase.carries : LockPhase → Bool
  | .writing | .refilling _ | .flushing true | .storing _ | .saving _ | .savingContext _ true _ => true
  | _ => false

/-- Where it has taken it out of its own context, which it still locks. -/
def LockPhase.carriesOwn : LockPhase → Bool
  | .writing | .refilling _ | .flushing true => true
  | _ => false

/-- A copied pointer is still that of the context; after that it is not there
any more, and a thread that locks its own context has no other. -/
def StageOk (traceBuffer : ℕ → Option ℕ) (t : ℕ) (ph : LockPhase) : Stage → Prop
  | .rest => True
  | .copied c data => ph.copying t = some c ∧ data = traceBuffer c
  | .taken _ => ph.carries = true ∧ (ph.carriesOwn = true → traceBuffer t = none)
  | .refresh => (ph = .refilling true ∨ ph = .writing) ∧ traceBuffer t = none

/-- Locks, contexts and stages fit together, only a context that is there or
in its destructor has a buffer, and each buffer is in one place. -/
structure MemInv (s : MemState) : Prop where
  locks : LocksOwned s.locks
  contexts : ContextsOk s.locks
  stages : ∀ t, StageOk s.traceBuffer t (s.locks.phase t) (s.stage t)
  has_buffer : ∀ c, s.traceBuffer c ≠ none → c ∈ s.locks.contexts ∨ ∃ held, s.locks.phase c = .flushing held
  blocks : ∃ place, Owned place s.holds ∧ ∀ b, (place b).isSome = true ↔ b < s.allocated

section

variable {s s' : MemState} {t u c : ℕ} {ph : LockPhase} {stage : Stage} {traceBuffer traceBuffer' : ℕ → Option ℕ}

theorem memInv_start : MemInv {} := by
  refine ⟨locksOwned_start, contextsOk_start, fun _ => trivial, fun c hc => absurd rfl hc, fun _ => none, ?_, ?_⟩
  · refine ⟨fun b p => ?_, fun p => ?_⟩
    · refine iff_of_false (Option.some_ne_none p).symm ?_
      cases p <;> exact List.not_mem_nil
    · cases p <;> exact List.nodup_nil
  · exact fun b => iff_of_false Bool.false_ne_true (Nat.not_lt_zero b)

/-- A thread that saves a context has its tracing lock. -/
theorem LockPhase.copying_held (h : ph.copying t = some c) : .tracing c ∈ ph.held t := by
  unfold copying at h
  split at h
  · obtain rfl := Option.some.inj h
    exact List.mem_singleton_self _
  · obtain rfl := Option.some.inj h
    exact List.mem_singleton_self _
  · obtain rfl := Option.some.inj h
    exact List.mem_cons_of_mem _ (List.mem_singleton_self _)
  · exact absurd h.symm (Option.some_ne_none c)

theorem LockPhase.carries_of_copying (h : ph.copying t = some c) :
    ph.carries = true ∧ (ph.carriesOwn = true → t = c) := by
  unfold copying at h
  split at h
  · exact ⟨rfl, fun _ => Option.some.inj h⟩
  · exact ⟨rfl, fun _ => Option.some.inj h⟩
  · exact ⟨rfl, nofun⟩
  · exact absurd h.symm (Option.some_ne_none c)

theorem StageOk.frame (h : StageOk traceBuffer t ph stage)
    (hcopy : ∀ c, ph.copying t = some c → traceBuffer' c = traceBuffer c)
    (hown : traceBuffer t = none → traceBuffer' t = none) : StageOk traceBuffer' t ph stage := by
  cases stage with
  | rest => trivial
  | copied c data => exact ⟨h.1, h.2.trans (hcopy c h.1).symm⟩
  | taken data => exact ⟨h.1, fun ho => hown (h.2 ho)⟩
  | refresh => exact ⟨h.1, hown h.2⟩

/-- A thread that does not carry anything or save a context is at rest. -/
theorem StageOk.rest (h : StageOk traceBuffer t ph stage) (hcarries : ph.carries = false) : stage = .rest := by
  cases stage with
  | rest => rfl
  | copied c data =>
    have hcopying := h.1
    unfold LockPhase.copying at hcopying
    split at hcopying
    · simp [LockPhase.carries] at hcarries
    · simp [LockPhase.carries] at hcarries
    · simp [LockPhase.carries] at hcarries
    · exact absurd hcopying.symm (Option.some_ne_none c)
  | taken data =>
    rw [h.1] at hcarries
    exact Bool.noConfusion hcarries
  | refresh =>
    rcases h.1 with rfl | rfl <;> exact Bool.noConfusion hcarries

theorem Stage.exists_of_isTaken (h : stage.isTaken = true) : ∃ data, stage = .taken data := by
  cases stage with
  | taken data => exact ⟨data, rfl⟩
  | rest | copied | refresh => exact Bool.noConfusion h

/-- The thread that makes a step of its locks is as far as it has to be. -/
theorem StageOk.lock {e : LockEvent} {locks : Locks} (hreach : s.reaches e = true) (hs : s.locks.step e = some locks)
    (h : StageOk s.traceBuffer e.thread (s.locks.phase e.thread) (s.stage e.thread)) :
    StageOk s.traceBuffer e.thread (locks.phase e.thread) (s.stage e.thread) := by
  have hrest : (s.locks.phase e.thread).carries = false →
      StageOk s.traceBuffer e.thread (locks.phase e.thread) (s.stage e.thread) := by
    intro hc
    rw [h.rest hc]
    trivial
  cases e with
  | call t | disable t =>
    obtain ⟨hidle, -⟩ := Option.ite_none_right_eq_some.mp hs
    apply hrest
    simp only [LockEvent.thread, hidle, LockPhase.carries]
  | exit t =>
    obtain ⟨⟨hidle, -⟩, -⟩ := Option.ite_none_right_eq_some.mp hs
    apply hrest
    simp only [LockEvent.thread, hidle, LockPhase.carries]
  | next t =>
    have hstage : s.stage t = .rest := of_decide_eq_true hreach
    simp only [LockEvent.thread, hstage]
    trivial
  | refill t =>
    obtain ⟨hw, hs⟩ := Option.ite_none_right_eq_some.mp hs
    obtain rfl := Option.some.inj hs
    obtain ⟨data, hdata⟩ := Stage.exists_of_isTaken hreach
    simp only [LockEvent.thread, hw, hdata] at h
    simp only [LockEvent.thread, Locks.setPhase, Function.update_self, hdata]
    exact ⟨rfl, fun _ => h.2 rfl⟩
  | acquire t order =>
    simp only [Locks.step, Option.bind_eq_bind, Option.bind_eq_some_iff, Option.pure_def] at hs
    obtain ⟨l, hw, p, ha, hs⟩ := hs
    obtain ⟨-, hs⟩ := Option.ite_none_right_eq_some.mp hs
    obtain rfl := Option.some.inj hs
    simp only [LockEvent.thread] at h hrest
    simp only [LockEvent.thread, Locks.setPhase, Locks.setOwner, Function.update_self] at hrest ⊢
    cases hp : s.locks.phase t with
    | idle | writing | saving | exited =>
      rw [hp] at hw
      exact absurd hw.symm (Option.some_ne_none _)
    | calling | disabling => exact hrest (by rw [hp]; rfl)
    | adding held | removing held | flushing held =>
      cases held with
      | false => exact hrest (by rw [hp]; rfl)
      | true =>
        rw [hp] at hw
        exact absurd hw.symm (Option.some_ne_none _)
    | savingContext c held rest =>
      cases held with
      | false => exact hrest (by rw [hp]; rfl)
      | true =>
        rw [hp] at hw
        exact absurd hw.symm (Option.some_ne_none _)
    | refilling held | storing held =>
      cases held with
      | true =>
        rw [hp] at hw
        exact absurd hw.symm (Option.some_ne_none _)
      | false =>
        -- it goes on carrying what it has
        rw [hp] at ha h
        obtain rfl := Option.some.inj ha
        cases hst : s.stage t with
        | rest => trivial
        | taken data =>
          rw [hst] at h
          exact ⟨rfl, h.2⟩
        | copied c data =>
          rw [hst] at h
          exact absurd h.1.symm (Option.some_ne_none c)
        | refresh =>
          rw [hst] at h
          rcases h.1 with hph | hph <;> simp at hph
  | release t buffer =>
    simp only [Locks.step, Option.bind_eq_bind, Option.bind_eq_some_iff, Option.pure_def] at hs
    obtain ⟨⟨l, p, contexts⟩, hr, hs⟩ := hs
    obtain rfl := Option.some.inj hs
    simp only [LockEvent.thread] at h hrest
    simp only [LockEvent.thread, Locks.setPhase, Locks.setOwner, Function.update_self] at hrest ⊢
    unfold Locks.released at hr
    simp only [MemState.reaches] at hreach
    split at hr <;> try contradiction
    all_goals
      rename_i hph
      obtain ⟨rfl, hnext⟩ := Prod.mk.inj (Option.some.inj hr)
      obtain ⟨rfl, rfl⟩ := Prod.mk.inj hnext
      rw [hph] at hreach h hrest
    · exact hrest rfl
    · have hstage : s.stage t = .rest := of_decide_eq_true hreach
      rw [hstage]
      trivial
    · have hstage : s.stage t = .refresh := of_decide_eq_true hreach
      rw [hstage] at h ⊢
      exact ⟨Or.inr rfl, h.2⟩
    · obtain ⟨hstage, -⟩ := (Bool.and_eq_true _ _).mp hreach
      rw [of_decide_eq_true hstage]
      trivial
    · obtain ⟨data, hdata⟩ := Stage.exists_of_isTaken hreach
      rw [hdata]
      exact ⟨rfl, fun hown => absurd hown Bool.false_ne_true⟩
    · exact hrest rfl
    · obtain ⟨data, hdata⟩ := Stage.exists_of_isTaken hreach
      rw [hdata]
      exact ⟨rfl, fun hown => absurd hown Bool.false_ne_true⟩
    · have hstage : s.stage t = .rest := of_decide_eq_true hreach
      rw [hstage]
      trivial

/-- A destructor that has still to save its buffer goes on to do so. -/
theorem flushing_stays {e : LockEvent} {locks : Locks} {held : Bool} (hreach : s.reaches e = true)
    (hs : s.locks.step e = some locks)
    (h : StageOk s.traceBuffer e.thread (s.locks.phase e.thread) (s.stage e.thread))
    (hflush : s.locks.phase e.thread = .flushing held) (hc : s.traceBuffer e.thread ≠ none) :
    ∃ held, locks.phase e.thread = .flushing held := by
  cases e with
  | call t | disable t =>
    obtain ⟨hidle, -⟩ := Option.ite_none_right_eq_some.mp hs
    exact absurd (hidle.symm.trans hflush) LockPhase.noConfusion
  | exit t =>
    obtain ⟨⟨hidle, -⟩, -⟩ := Option.ite_none_right_eq_some.mp hs
    exact absurd (hidle.symm.trans hflush) LockPhase.noConfusion
  | refill t =>
    obtain ⟨hw, -⟩ := Option.ite_none_right_eq_some.mp hs
    exact absurd (hw.symm.trans hflush) LockPhase.noConfusion
  | next t =>
    simp only [Locks.step] at hs
    split at hs
    · rename_i hph
      exact absurd (hph.symm.trans hflush) LockPhase.noConfusion
    · exact absurd hs.symm (Option.some_ne_none _)
  | acquire t order =>
    simp only [Locks.step, Option.bind_eq_bind, Option.bind_eq_some_iff, Option.pure_def] at hs
    obtain ⟨l, hw, p, ha, hs⟩ := hs
    obtain ⟨-, hs⟩ := Option.ite_none_right_eq_some.mp hs
    obtain rfl := Option.some.inj hs
    rw [show s.locks.phase t = .flushing held from hflush] at ha
    cases held with
    | false =>
      obtain rfl := Option.some.inj ha
      exact ⟨true, Function.update_self _ _ _⟩
    | true => exact absurd ha.symm (Option.some_ne_none _)
  | release t buffer =>
    simp only [Locks.step, Option.bind_eq_bind, Option.bind_eq_some_iff, Option.pure_def] at hs
    obtain ⟨r, hr, -⟩ := hs
    simp only [LockEvent.thread] at h hflush hc
    rw [hflush] at hr h
    cases held with
    | false => exact absurd hr.symm (Option.some_ne_none _)
    | true =>
      -- it lets go of its lock only after it has taken the buffer
      simp only [MemState.reaches, hflush] at hreach
      obtain ⟨data, hdata⟩ := Stage.exists_of_isTaken hreach
      rw [hdata] at h
      exact absurd (h.2 rfl) hc

/-- A step of the locks. -/
theorem MemInv.lock {e : LockEvent} (h : MemInv s) (hs : s.step (.lock e) = some s') : MemInv s' := by
  obtain ⟨hreach, hs⟩ := Option.ite_none_right_eq_some.mp hs
  obtain ⟨locks, hlocks, rfl⟩ := Option.map_eq_some_iff.mp hs
  obtain ⟨-, hstay⟩ := Locks.step_phase hlocks
  refine ⟨locksOwned_step h.locks hlocks, contextsOk_step h.contexts h.locks hlocks, fun t => ?_, fun c hc => ?_,
    h.blocks⟩
  · rcases eq_or_ne t e.thread with rfl | ht
    · exact StageOk.lock (s := s) hreach hlocks (h.stages e.thread)
    · show StageOk s.traceBuffer t (locks.phase t) (s.stage t)
      rw [hstay t ht]
      exact h.stages t
  · rcases h.has_buffer c hc with hmem | ⟨held, hflush⟩
    · rcases Locks.step_contexts hlocks hmem with hmem | ⟨buffer, rfl, hph, hph'⟩
      · exact Or.inl hmem
      · -- the destructor has found the buffer
        have hbuffer : buffer = true := by
          simp only [MemState.reaches, hph] at hreach
          rw [of_decide_eq_true hreach]
          exact Option.isSome_iff_ne_none.mpr hc
        rw [hbuffer] at hph'
        exact Or.inr ⟨false, hph'⟩
    · rcases eq_or_ne c e.thread with rfl | hne
      · exact Or.inr (flushing_stays hreach hlocks (h.stages e.thread) hflush hc)
      · exact Or.inr ⟨held, (hstay c hne).trans hflush⟩

/-- `allocTraceBuffer`: there is no buffer that it could lose. -/
theorem MemInv.alloc (h : MemInv s) (hs : s.step (.alloc t) = some s') : MemInv s' := by
  obtain ⟨⟨hw, hstage⟩, hs⟩ := Option.ite_none_right_eq_some.mp hs
  obtain rfl := Option.some.inj hs
  have hok := h.stages t
  have hnone : s.traceBuffer t = none := by
    rcases hstage with hstage | ⟨-, hnone⟩
    · rw [hstage] at hok
      exact hok.2
    · exact hnone
  have hhands : (s.stage t).data = [] := by
    rcases hstage with hstage | ⟨hstage, -⟩ <;> rw [hstage] <;> rfl
  refine ⟨h.locks, h.contexts, fun u => ?_, fun c hc => ?_, ?_⟩
  · rcases eq_or_ne u t with rfl | hu
    · simp only [MemState.setBuffer, MemState.setStage, Function.update_self]
      trivial
    · simp only [MemState.setBuffer, MemState.setStage, Function.update_of_ne hu]
      refine (h.stages u).frame (fun c hc => ?_) fun hn => ?_
      · refine Function.update_of_ne ?_ _ _
        rintro rfl
        have hmine : .tracing c ∈ (s.locks.phase c).held c := by
          rw [hw]
          exact List.mem_singleton_self _
        exact hu (h.locks.exclusive (LockPhase.copying_held hc) hmine)
      · rw [Function.update_of_ne hu]
        exact hn
  · rcases eq_or_ne c t with rfl | hct
    · exact Or.inl (h.contexts.inContexts c (by rw [hw]; rfl))
    · simp only [MemState.setBuffer, Function.update_of_ne hct] at hc
      exact h.has_buffer c hc
  · obtain ⟨place, howned, hall⟩ := h.blocks
    have hnew : place s.allocated = none := by
      rw [← Option.not_isSome_iff_eq_none, hall]
      exact Nat.lt_irrefl _
    refine ⟨Function.update place s.allocated (some (.buffer t)), howned.insert hnew ?_ fun p hp => ?_, fun b => ?_⟩
    · simp [MemState.holds, MemState.setBuffer, MemState.setStage, hnone]
    · cases p with
      | buffer c =>
        have hct : c ≠ t := fun hct => hp (hct ▸ rfl)
        simp [MemState.holds, MemState.setBuffer, MemState.setStage, hct]
      | hands u =>
        rcases eq_or_ne u t with rfl | hu
        · show (Function.update s.stage u .rest u).data = (s.stage u).data
          rw [Function.update_self, hhands]
          rfl
        · simp [MemState.holds, MemState.setBuffer, MemState.setStage, hu]
      | saved | freed => rfl
    · rcases eq_or_ne b s.allocated with rfl | hb
      · simp
      · rw [Function.update_of_ne hb, hall]
        show b < s.allocated ↔ b < s.allocated + 1
        omega

/-- `saveLocked`. -/
theorem MemInv.copy (h : MemInv s) (hs : s.step (.copy t) = some s') : MemInv s' := by
  simp only [MemState.step, Option.bind_eq_bind, Option.bind_eq_some_iff, Option.pure_def] at hs
  obtain ⟨c, hc, hs⟩ := hs
  obtain ⟨⟨hrest, -⟩, hs⟩ := Option.ite_none_right_eq_some.mp hs
  obtain rfl := Option.some.inj hs
  refine ⟨h.locks, h.contexts, fun u => ?_, h.has_buffer, ?_⟩
  · rcases eq_or_ne u t with rfl | hu
    · simp only [MemState.setStage, Function.update_self]
      exact ⟨hc, rfl⟩
    · simp only [MemState.setStage, Function.update_of_ne hu]
      exact h.stages u
  · have hsame : (s.setStage t (.copied c (s.traceBuffer c))).holds = s.holds := by
      funext p
      cases p with
      | hands u =>
        rcases eq_or_ne u t with rfl | hu
        · simp [MemState.holds, MemState.setStage, hrest, Stage.data]
        · simp [MemState.holds, MemState.setStage, hu]
      | buffer | saved | freed => rfl
    rw [hsame]
    exact h.blocks

/-- `resetLocked`: the buffer goes from the context to the thread. -/
theorem MemInv.reset (h : MemInv s) (hs : s.step (.reset t) = some s') : MemInv s' := by
  simp only [MemState.step] at hs
  split at hs
  · rename_i c data hstage
    obtain rfl := Option.some.inj hs
    have hok := h.stages t
    rw [hstage] at hok
    obtain ⟨hcopying, rfl⟩ := hok
    refine ⟨h.locks, h.contexts, fun u => ?_, fun c' hc' => ?_, ?_⟩
    · rcases eq_or_ne u t with rfl | hu
      · simp only [MemState.setBuffer, MemState.setStage, Function.update_self]
        obtain ⟨hcarries, hmine⟩ := LockPhase.carries_of_copying hcopying
        refine ⟨hcarries, fun hown => ?_⟩
        rw [hmine hown]
        exact Function.update_self _ _ _
      · simp only [MemState.setBuffer, MemState.setStage, Function.update_of_ne hu]
        refine (h.stages u).frame (fun c' hc' => ?_) fun hn => ?_
        · refine Function.update_of_ne ?_ _ _
          rintro rfl
          exact hu (h.locks.exclusive (LockPhase.copying_held hc') (LockPhase.copying_held hcopying))
        · rcases eq_or_ne u c with rfl | huc
          · exact Function.update_self _ _ _
          · rw [Function.update_of_ne huc]
            exact hn
    · rcases eq_or_ne c' c with rfl | hcc
      · exact absurd (Function.update_self _ _ _) hc'
      · simp only [MemState.setBuffer, MemState.setStage, Function.update_of_ne hcc] at hc'
        exact h.has_buffer c' hc'
    · refine Owned.move_some h.blocks (p := .buffer c) (q := .hands t) nofun (s.traceBuffer c) ?_ ?_
        fun p hpc hpt => ?_
      · simp [MemState.holds, MemState.setBuffer]
      · simp [MemState.holds, MemState.setBuffer, MemState.setStage, hstage, Stage.data]
      · cases p with
        | buffer c' =>
          have hcc : c' ≠ c := fun hcc => hpc (hcc ▸ rfl)
          simp [MemState.holds, MemState.setBuffer, MemState.setStage, hcc]
        | hands u =>
          have hu : u ≠ t := fun hu => hpt (hu ▸ rfl)
          simp [MemState.holds, MemState.setBuffer, MemState.setStage, hu]
        | saved | freed => rfl
  · exact absurd hs.symm (Option.some_ne_none _)

/-- The buffer in a thread's hands goes to `mSavedTraces`. -/
theorem MemInv.stored (h : MemInv s) {data : Option ℕ} (hstage : s.stage t = .taken data) (hempty : stage.data = [])
    (hok : StageOk s.traceBuffer t (s.locks.phase t) stage) :
    MemInv { s.setStage t stage with savedTraces := s.savedTraces ++ data.toList } := by
  refine ⟨h.locks, h.contexts, fun u => ?_, h.has_buffer, ?_⟩
  · rcases eq_or_ne u t with rfl | hu
    · simp only [MemState.setStage, Function.update_self]
      exact hok
    · simp only [MemState.setStage, Function.update_of_ne hu]
      exact h.stages u
  · refine Owned.move_some h.blocks (p := .hands t) (q := .saved) nofun data ?_ List.perm_append_comm
      fun p hpt hps => ?_
    · show ((s.stage t).data).Perm (data.toList ++ (Function.update s.stage t stage t).data)
      rw [hstage, Function.update_self, hempty, List.append_nil]
      exact .refl _
    · cases p with
      | hands u =>
        have hu : u ≠ t := fun hu => hpt (hu ▸ rfl)
        simp [MemState.holds, MemState.setStage, hu]
      | saved => exact absurd rfl hps
      | buffer | freed => rfl

/-- `saveTraceLocked`. -/
theorem MemInv.store (h : MemInv s) (hs : s.step (.store t) = some s') : MemInv s' := by
  have hok := h.stages t
  simp only [MemState.step] at hs
  split at hs
  · rename_i data hstage hph
    obtain rfl := Option.some.inj hs
    rw [hstage, hph] at hok
    exact h.stored hstage rfl (by rw [hph]; exact ⟨Or.inl rfl, hok.2 rfl⟩)
  · rename_i data _ hstage hph
    obtain rfl := Option.some.inj hs
    exact h.stored hstage rfl trivial
  · rename_i data hstage hph
    obtain rfl := Option.some.inj hs
    exact h.stored hstage rfl trivial
  · exact absurd hs.symm (Option.some_ne_none _)

/-- `free`. -/
theorem MemInv.free (h : MemInv s) (hs : s.step (.free t) = some s') : MemInv s' := by
  simp only [MemState.step] at hs
  split at hs
  · rename_i data rest hph hsaved
    obtain ⟨-, hs⟩ := Option.ite_none_right_eq_some.mp hs
    obtain rfl := Option.some.inj hs
    refine ⟨h.locks, h.contexts, h.stages, h.has_buffer, ?_⟩
    refine Owned.move_some h.blocks (p := .saved) (q := .freed) nofun (some data) ?_ List.perm_append_comm
      fun p hp hq => ?_
    · exact List.Perm.of_eq hsaved
    · cases p with
      | buffer | hands => rfl
      | saved => exact absurd rfl hp
      | freed => exact absurd rfl hq
  · exact absurd hs.symm (Option.some_ne_none _)

theorem memInv_step {e : MemEvent} (h : MemInv s) (hs : s.step e = some s') : MemInv s' := by
  cases e with
  | lock e => exact h.lock hs
  | alloc t => exact h.alloc hs
  | copy t => exact h.copy hs
  | reset t => exact h.reset hs
  | store t => exact h.store hs
  | free t => exact h.free hs

/-- The contexts that a thread reads or writes here: its own in a call or in
its destructor, or one that it saves. -/
def LockPhase.uses (t : ℕ) : LockPhase → List ℕ
  | .writing | .refilling _ | .flushing true => [t]
  | .savingContext c true _ => [c]
  | _ => []

theorem LockPhase.uses_held (h : c ∈ ph.uses t) : .tracing c ∈ ph.held t := by
  unfold uses at h
  split at h
  · exact List.mem_singleton.mpr (congrArg _ (List.mem_singleton.mp h))
  · rename_i held
    obtain rfl := List.mem_singleton.mp h
    cases held <;> exact List.mem_cons_self
  · exact List.mem_singleton.mpr (congrArg _ (List.mem_singleton.mp h))
  · exact List.mem_cons_of_mem _ (List.mem_singleton.mpr (congrArg _ (List.mem_singleton.mp h)))
  · exact absurd h List.not_mem_nil

/-- **Every buffer has one owner.** In every state of every run: a buffer that
was allocated is in one place, once, so none is freed twice, used after it was
freed, shared or lost; no two threads use one context; a context that is saved
has not left `mContexts`; and a thread that has exited leaves nothing behind. -/
theorem buffers_owned
    (h : Reach (fun s => s = {}) (fun (s : MemState) e s' => s.step e = some s') (fun _ _ => True) s) :
    (∀ b, (∃! p, b ∈ s.holds p) ↔ b < s.allocated) ∧ (∀ p, (s.holds p).Nodup) ∧
    (∀ t u, c ∈ (s.locks.phase t).uses t → c ∈ (s.locks.phase u).uses u → t = u) ∧
    (∀ t, c ∈ (s.locks.phase t).toSave → c ∈ s.locks.contexts ∧ (s.locks.phase c).outOfContexts = false) ∧
    ((∀ t, (s.locks.phase t).busy = false) → ∀ b < s.allocated,
      (∃ c ∈ s.locks.contexts, s.traceBuffer c = some b) ∨ b ∈ s.savedTraces ∨ b ∈ s.freed) := by
  have hinv : MemInv s := by
    refine Reach.inv (P := MemInv) ?_ (fun _ _ _ hi _ hs => memInv_step hi hs) h
    rintro _ rfl
    exact memInv_start
  obtain ⟨place, howned, hall⟩ := hinv.blocks
  refine ⟨fun b => ?_, howned.nodup, fun t u ht hu => ?_, fun t ht => ?_, fun hquiet b hb => ?_⟩
  · rw [← hall, Option.isSome_iff_exists]
    constructor
    · rintro ⟨p, hp, -⟩
      exact ⟨p, (howned.mem_iff b p).mpr hp⟩
    · rintro ⟨p, hp⟩
      exact ⟨p, (howned.mem_iff b p).mp hp, fun q hq => howned.exclusive hq ((howned.mem_iff b p).mp hp)⟩
  · exact hinv.locks.exclusive (LockPhase.uses_held ht) (LockPhase.uses_held hu)
  · have hmem := hinv.contexts.toSave t c ht
    refine ⟨hmem, ?_⟩
    by_contra hout
    exact hinv.contexts.outOfContexts c (by simpa using hout) hmem
  · obtain ⟨p, hp⟩ := Option.isSome_iff_exists.mp ((hall b).mpr hb)
    have hmem := (howned.mem_iff b p).mp hp
    cases p with
    | buffer c =>
      have hbuffer : s.traceBuffer c = some b := Option.mem_toList.mp hmem
      refine Or.inl ⟨c, ?_, hbuffer⟩
      refine (hinv.has_buffer c (by simp [hbuffer])).resolve_right ?_
      rintro ⟨held, hflush⟩
      have hbusy := hquiet c
      rw [hflush] at hbusy
      exact Bool.noConfusion hbusy
    | hands t =>
      have hquiet' : (s.locks.phase t).carries = false := by
        have hbusy := hquiet t
        cases hph : s.locks.phase t with
        | idle | exited => rfl
        | adding | calling | writing | refilling | disabling | saving | savingContext | removing | flushing | storing =>
          rw [hph] at hbusy
          exact Bool.noConfusion hbusy
      have hrest := (hinv.stages t).rest hquiet'
      unfold MemState.holds at hmem
      simp [hrest, Stage.data] at hmem
    | saved => exact Or.inr (Or.inl hmem)
    | freed => exact Or.inr (Or.inr hmem)

end

/-- Thread 1 fills a buffer and begins another one, and thread 0 saves both. -/
def refillAndSave : List MemEvent :=
  [.lock (.call 1), .lock (.acquire 1 []), .lock (.release 1 false), .lock (.call 1), .lock (.acquire 1 []), .alloc 1,
    .copy 1, .reset 1, .lock (.refill 1), .lock (.acquire 1 []), .store 1, .lock (.release 1 false), .alloc 1,
    .lock (.release 1 false), .lock (.disable 0), .lock (.acquire 0 [1]), .lock (.next 0), .lock (.acquire 0 []),
    .copy 0, .reset 0, .lock (.release 0 false), .store 0, .free 0, .free 0, .lock (.release 0 false)]

theorem buffers_owned_refill : ∃ s : MemState, run MemState.step {} refillAndSave = some s ∧ s.freed = [0, 1] ∧
    (∀ p, (s.holds p).Nodup) ∧ ∀ b, (∃! p, b ∈ s.holds p) ↔ b < 2 := by
  have h0 : Reach (fun s => s = {}) (fun (s : MemState) e s' => s.step e = some s') (fun _ _ => True) {} := .init rfl
  obtain ⟨hone, hnodup, -⟩ := buffers_owned (c := 0) (Reach.run refillAndSave (fun _ _ => trivial) h0 rfl)
  exact ⟨_, rfl, rfl, hnodup, hone⟩

end Host
end VPerfetto
