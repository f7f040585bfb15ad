/-
# When threads get stuck

All runs of the locks, with refills and saving at any time. A deadlock is
always the same pair: `saveTracesToDisk`, which holds the contexts lock and
waits for the tracing lock of a context, and the thread of this context, which
has it and waits in a refill for the contexts lock. Unless there is one, the
locks let some thread that has begun something go on with it; and a deadlock is
for good.

All runs keep `LocksOwned`, who has which lock, and `ContextsOk`, which threads
have a context in `mContexts`.

Key definitions: `LockPhase.busy`, `LockEvent.goesOn`, `LocksOwned`, `ContextsOk`, `Locks.StuckPair`.
Key theorems: `Locks.step_cases`, `locksOwned_step`, `contextsOk_step`, `deadlocked_iff_pair`,
`LocksOwned.someone_goesOn`, `stuckPair_step`.
-/
import VPerfetto.Host.Locks
import VPerfetto.Lib.Ownership

namespace VPerfetto
namespace Host

open Runs Ownership

/-- Between a call and its return. -/
def LockPhase.busy : LockPhase → Bool
  | .idle | .exited => false
  | _ => true

/-- Whose step it is. -/
def LockEvent.thread : LockEvent → ℕ
  | .call t | .acquire t _ | .refill t | .disable t | .next t | .release t _ | .exit t => t

/-- A thread goes on with what it has begun, and does not begin anything. -/
def LockEvent.goesOn : LockEvent → Bool
  | .acquire _ _ | .next _ | .release _ _ => true
  | _ => false

section

variable {s s' : Locks} {t u v : ℕ} {p ph : LockPhase} {l : Lock} {e : LockEvent}

theorem LockPhase.released_wants {r : Lock × LockPhase × List ℕ} {buffer : Bool} {contexts : List ℕ}
    (hr : Locks.released t buffer contexts ph = some r) : ph.wants t = none := by
  unfold Locks.released at hr
  split at hr <;> first | contradiction | rfl

/-- A step of a thread: no lock changes hands, or it gets the lock that it
waits for, which is free, or it lets go of its last one. -/
theorem Locks.step_cases (h : s.step e = some s') :
    (∃ p, s' = s.setPhase e.thread p ∧ p.held e.thread = (s.phase e.thread).held e.thread ∧
      (s.phase e.thread).wants e.thread = none) ∨
    (∃ l p, s' = (s.setOwner l (some e.thread)).setPhase e.thread p ∧ (s.phase e.thread).wants e.thread = some l ∧
      s.owner l = none ∧ p.held e.thread = (s.phase e.thread).held e.thread ++ [l]) ∨
    (∃ l p contexts, s' = { (s.setOwner l none).setPhase e.thread p with contexts := contexts } ∧
      (s.phase e.thread).held e.thread = p.held e.thread ++ [l] ∧ (s.phase e.thread).wants e.thread = none) := by
  cases e with
  | call t =>
    obtain ⟨hidle, hs⟩ := Option.ite_none_right_eq_some.mp h
    refine Or.inl ⟨_, (Option.some.inj hs).symm, ?_, ?_⟩
    · rw [show s.phase (LockEvent.call t).thread = .idle from hidle]
      split <;> rfl
    · rw [show s.phase (LockEvent.call t).thread = .idle from hidle]
      rfl
  | acquire t order =>
    simp only [Locks.step, Option.bind_eq_bind, Option.bind_eq_some_iff, Option.pure_def] at h
    obtain ⟨l, hw, p, ha, hs⟩ := h
    obtain ⟨hfree, hs⟩ := Option.ite_none_right_eq_some.mp hs
    exact Or.inr (Or.inl ⟨l, p, (Option.some.inj hs).symm, hw, Option.isNone_iff_eq_none.mp hfree,
      LockPhase.acquired_held ha hw⟩)
  | refill t =>
    obtain ⟨hw, hs⟩ := Option.ite_none_right_eq_some.mp h
    refine Or.inl ⟨_, (Option.some.inj hs).symm, ?_, ?_⟩ <;>
      rw [show s.phase (LockEvent.refill t).thread = .writing from hw] <;> rfl
  | disable t =>
    obtain ⟨hidle, hs⟩ := Option.ite_none_right_eq_some.mp h
    refine Or.inl ⟨_, (Option.some.inj hs).symm, ?_, ?_⟩ <;>
      rw [show s.phase (LockEvent.disable t).thread = .idle from hidle] <;> rfl
  | next t =>
    simp only [Locks.step] at h
    split at h
    · rename_i c rest hph
      refine Or.inl ⟨_, (Option.some.inj h).symm, ?_, ?_⟩ <;>
        rw [show s.phase (LockEvent.next t).thread = .saving (c :: rest) from hph] <;> rfl
    · exact absurd h.symm (Option.some_ne_none _)
  | release t buffer =>
    simp only [Locks.step, Option.bind_eq_bind, Option.bind_eq_some_iff, Option.pure_def] at h
    obtain ⟨⟨l, p, contexts⟩, hr, hs⟩ := h
    exact Or.inr (Or.inr ⟨l, p, contexts, (Option.some.inj hs).symm, LockPhase.released_held hr,
      LockPhase.released_wants hr⟩)
  | exit t =>
    obtain ⟨hidle, hs⟩ := Option.ite_none_right_eq_some.mp h
    refine Or.inl ⟨_, (Option.some.inj hs).symm, ?_, ?_⟩ <;>
      rw [show s.phase (LockEvent.exit t).thread = .idle from hidle.1] <;> rfl

/-- Who has which lock, in any run. -/
def LocksOwned (s : Locks) : Prop := Owned s.owner fun t => (s.phase t).held t

theorem locksOwned_start : LocksOwned {} :=
  ⟨fun _ _ => by simp [LockPhase.held], fun _ => List.nodup_nil⟩

theorem locksOwned_step (h : LocksOwned s) (hs : s.step e = some s') : LocksOwned s' := by
  have hother : ∀ p u, u ≠ e.thread →
      (Function.update s.phase e.thread p u).held u = (s.phase u).held u := by
    intro p u hu
    rw [Function.update_of_ne hu]
  rcases Locks.step_cases hs with ⟨p, rfl, hheld, -⟩ | ⟨l, p, rfl, -, hfree, hheld⟩ | ⟨l, p, contexts, rfl, hheld, -⟩
  · have hsame : (fun u => (Function.update s.phase e.thread p u).held u) = fun u => (s.phase u).held u := by
      funext u
      rcases eq_or_ne u e.thread with rfl | hu
      · rw [Function.update_self, hheld]
      · exact hother p u hu
    show Owned s.owner fun u => (Function.update s.phase e.thread p u).held u
    rw [hsame]
    exact h
  · refine h.insert (p := e.thread) hfree ?_ (hother p)
    show ((Function.update s.phase e.thread p e.thread).held e.thread).Perm _
    rw [Function.update_self, hheld]
    exact List.perm_append_singleton _ _
  · refine h.erase (p := e.thread) ?_ (hother p)
    show ((s.phase e.thread).held e.thread).Perm
      (l :: (Function.update s.phase e.thread p e.thread).held e.thread)
    rw [Function.update_self, hheld]
    exact List.perm_append_singleton _ _

end

/-! ### Contexts -/

/-- The phases of a context that is in `mContexts`. -/
def LockPhase.inContexts : LockPhase → Bool
  | .calling | .writing | .refilling _ | .removing _ => true
  | _ => false

/-- The phases of one that is not: not yet, or not any more. -/
def LockPhase.outOfContexts : LockPhase → Bool
  | .adding _ | .flushing _ | .storing _ | .exited => true
  | _ => false

/-- The contexts that `saveTracesToDisk` will use or is using. -/
def LockPhase.toSave : LockPhase → List ℕ
  | .saving rest => rest
  | .savingContext c _ rest => c :: rest
  | _ => []

/-- `mContexts` has the contexts that have been constructed and not destroyed,
and while one is to be saved it stays there. -/
structure ContextsOk (s : Locks) : Prop where
  nodup : s.contexts.Nodup
  inContexts : ∀ c, (s.phase c).inContexts = true → c ∈ s.contexts
  outOfContexts : ∀ c, (s.phase c).outOfContexts = true → c ∉ s.contexts
  toSave : ∀ t, ∀ c ∈ (s.phase t).toSave, c ∈ s.contexts

section

variable {s s' : Locks} {t : ℕ} {p : LockPhase} {e : LockEvent}

theorem contextsOk_start : ContextsOk {} :=
  ⟨List.nodup_nil, nofun, nofun, nofun⟩

/-- A thread moves and `mContexts` stays as it is. -/
theorem ContextsOk.update (h : ContextsOk s) (hc : s'.contexts = s.contexts)
    (hphase : s'.phase = Function.update s.phase t p) (hin : p.inContexts = false ∨ t ∈ s.contexts)
    (hout : p.outOfContexts = false ∨ t ∉ s.contexts) (hsave : ∀ c ∈ p.toSave, c ∈ s.contexts) :
    ContextsOk s' := by
  refine ⟨hc ▸ h.nodup, fun c => ?_, fun c => ?_, fun u => ?_⟩
  all_goals
    rw [hphase, hc]
  · rcases eq_or_ne c t with rfl | hct
    · rw [Function.update_self]
      exact fun hp => hin.resolve_left (by simp [hp])
    · rw [Function.update_of_ne hct]
      exact h.inContexts c
  · rcases eq_or_ne c t with rfl | hct
    · rw [Function.update_self]
      exact fun hp => hout.resolve_left (by simp [hp])
    · rw [Function.update_of_ne hct]
      exact h.outOfContexts c
  · rcases eq_or_ne u t with rfl | hut
    · rw [Function.update_self]
      exact hsave
    · rw [Function.update_of_ne hut]
      exact h.toSave u

/-- A thread that is saving holds the contexts lock. -/
theorem LockPhase.contexts_held {ph : LockPhase} {c : ℕ} (hc : c ∈ ph.toSave) : .contexts ∈ ph.held t := by
  cases ph with
  | saving rest => exact List.mem_singleton_self _
  | savingContext c held rest => cases held <;> exact List.mem_cons_self
  | idle | adding | calling | writing | refilling | disabling | removing | flushing | storing | exited =>
    exact absurd hc List.not_mem_nil

/-- The end of `TraceStorage::add`. -/
theorem ContextsOk.add (h : ContextsOk s) (ht : s.phase t = .adding true) (hc : s'.contexts = s.contexts ++ [t])
    (hphase : s'.phase = Function.update s.phase t .idle) : ContextsOk s' := by
  have hnew : t ∉ s.contexts := h.outOfContexts t (by rw [ht]; rfl)
  refine ⟨?_, fun c => ?_, fun c => ?_, fun u => ?_⟩
  all_goals
    rw [hc]
  · rw [List.nodup_append]
    refine ⟨h.nodup, List.pairwise_singleton _ t, fun a ha b hb => ?_⟩
    rintro rfl
    exact hnew (List.mem_singleton.mp hb ▸ ha)
  all_goals
    rw [hphase]
  · rcases eq_or_ne c t with rfl | hct
    · exact fun _ => List.mem_append_right _ (List.mem_singleton_self c)
    · rw [Function.update_of_ne hct]
      exact fun hin => List.mem_append_left _ (h.inContexts c hin)
  · rcases eq_or_ne c t with rfl | hct
    · rw [Function.update_self]
      nofun
    · rw [Function.update_of_ne hct]
      intro hout hmem
      rcases List.mem_append.mp hmem with hmem | hmem
      · exact h.outOfContexts c hout hmem
      · exact hct (List.mem_singleton.mp hmem)
  · rcases eq_or_ne u t with rfl | hut
    · rw [Function.update_self]
      nofun
    · rw [Function.update_of_ne hut]
      exact fun c hmem => List.mem_append_left _ (h.toSave u c hmem)

/-- The end of `TraceStorage::remove`. Nobody saves meanwhile. -/
theorem ContextsOk.remove (h : ContextsOk s) (howned : LocksOwned s) (ht : s.phase t = .removing true)
    (hc : s'.contexts = s.contexts.erase t) (hphase : s'.phase = Function.update s.phase t p)
    (hp : p.inContexts = false) (hsave : p.toSave = []) : ContextsOk s' := by
  have hgone : t ∉ s.contexts.erase t := fun hmem => (h.nodup.mem_erase_iff.mp hmem).1 rfl
  refine ⟨hc ▸ h.nodup.erase t, fun c => ?_, fun c => ?_, fun u => ?_⟩
  all_goals
    rw [hphase, hc]
  · rcases eq_or_ne c t with rfl | hct
    · rw [Function.update_self, hp]
      nofun
    · rw [Function.update_of_ne hct]
      exact fun hin => (List.mem_erase_of_ne hct).mpr (h.inContexts c hin)
  · rcases eq_or_ne c t with rfl | hct
    · exact fun _ => hgone
    · rw [Function.update_of_ne hct]
      exact fun hout hmem => h.outOfContexts c hout (List.mem_of_mem_erase hmem)
  · rcases eq_or_ne u t with rfl | hut
    · rw [Function.update_self, hsave]
      nofun
    · rw [Function.update_of_ne hut]
      intro c hmem
      have hheld : .contexts ∈ (s.phase t).held t := by
        rw [ht]
        exact List.mem_singleton_self _
      exact absurd (howned.exclusive (LockPhase.contexts_held hmem) hheld) hut

theorem contextsOk_step (h : ContextsOk s) (howned : LocksOwned s) (hs : s.step e = some s') : ContextsOk s' := by
  cases e with
  | call t =>
    obtain ⟨hidle, hs⟩ := Option.ite_none_right_eq_some.mp hs
    obtain rfl := Option.some.inj hs
    by_cases hmem : t ∈ s.contexts
    · rw [if_pos hmem]
      exact h.update rfl rfl (.inr hmem) (.inl rfl) (List.forall_mem_nil _)
    · rw [if_neg hmem]
      exact h.update rfl rfl (.inl rfl) (.inr hmem) (List.forall_mem_nil _)
  | acquire t order =>
    simp only [Locks.step, Option.bind_eq_bind, Option.bind_eq_some_iff, Option.pure_def] at hs
    obtain ⟨l, hw, p, ha, hs⟩ := hs
    obtain ⟨-, hs⟩ := Option.ite_none_right_eq_some.mp hs
    obtain rfl := Option.some.inj hs
    have hin := h.inContexts t
    have hout := h.outOfContexts t
    have hsave := h.toSave t
    cases hp : s.phase t with
    | disabling =>
      rw [hp] at ha
      simp only [Locks.acquired, Option.ite_none_right_eq_some] at ha
      obtain ⟨hperm, ha⟩ := ha
      obtain rfl := Option.some.inj ha
      exact h.update rfl rfl (.inl rfl) (.inl rfl) fun c hmem => (List.isPerm_iff.mp hperm).mem_iff.mp hmem
    | idle | writing | saving | exited =>
      rw [hp] at hw
      exact absurd hw.symm (Option.some_ne_none _)
    | calling =>
      rw [hp] at ha hin
      obtain rfl := Option.some.inj ha
      exact h.update rfl rfl (.inr (hin rfl)) (.inl rfl) (List.forall_mem_nil _)
    | adding held | flushing held | storing held =>
      rw [hp] at ha hout
      cases held with
      | true => exact absurd ha.symm (Option.some_ne_none _)
      | false =>
        obtain rfl := Option.some.inj ha
        exact h.update rfl rfl (.inl rfl) (.inr (hout rfl)) (List.forall_mem_nil _)
    | refilling held | removing held =>
      rw [hp] at ha hin
      cases held with
      | true => exact absurd ha.symm (Option.some_ne_none _)
      | false =>
        obtain rfl := Option.some.inj ha
        exact h.update rfl rfl (.inr (hin rfl)) (.inl rfl) (List.forall_mem_nil _)
    | savingContext c held rest =>
      rw [hp] at ha hsave
      cases held with
      | true => exact absurd ha.symm (Option.some_ne_none _)
      | false =>
        obtain rfl := Option.some.inj ha
        exact h.update rfl rfl (.inl rfl) (.inl rfl) hsave
  | refill t =>
    obtain ⟨hw, hs⟩ := Option.ite_none_right_eq_some.mp hs
    obtain rfl := Option.some.inj hs
    exact h.update rfl rfl (.inr (h.inContexts t (by rw [hw]; rfl))) (.inl rfl) (List.forall_mem_nil _)
  | disable t =>
    obtain ⟨-, hs⟩ := Option.ite_none_right_eq_some.mp hs
    obtain rfl := Option.some.inj hs
    exact h.update rfl rfl (.inl rfl) (.inl rfl) (List.forall_mem_nil _)
  | next t =>
    simp only [Locks.step] at hs
    split at hs
    · rename_i c rest hph
      obtain rfl := Option.some.inj hs
      have hsave := h.toSave t
      rw [hph] at hsave
      exact h.update rfl rfl (.inl rfl) (.inl rfl) hsave
    · exact absurd hs.symm (Option.some_ne_none _)
  | release t buffer =>
    simp only [Locks.step, Option.bind_eq_bind, Option.bind_eq_some_iff, Option.pure_def] at hs
    obtain ⟨⟨l, p, contexts⟩, hr, hs⟩ := hs
    obtain rfl := Option.some.inj hs
    have hin := h.inContexts t
    have hout := h.outOfContexts t
    have hsave := h.toSave t
    unfold Locks.released at hr
    split at hr <;> try contradiction
    all_goals
      rename_i hph
      obtain ⟨rfl, hnext⟩ := Prod.mk.inj (Option.some.inj hr)
      obtain ⟨rfl, rfl⟩ := Prod.mk.inj hnext
    · exact h.add hph rfl rfl
    · exact h.update rfl rfl (.inl rfl) (.inl rfl) (List.forall_mem_nil _)
    · rw [hph] at hin
      exact h.update rfl rfl (.inr (hin rfl)) (.inl rfl) (List.forall_mem_nil _)
    · exact h.update rfl rfl (.inl rfl) (.inl rfl) (List.forall_mem_nil _)
    · rw [hph] at hsave
      exact h.update rfl rfl (.inl rfl) (.inl rfl) fun c hmem => hsave c (List.mem_cons_of_mem _ hmem)
    · exact h.remove howned hph rfl rfl (by cases buffer <;> rfl) (by cases buffer <;> rfl)
    · rw [hph] at hout
      exact h.update rfl rfl (.inl rfl) (.inr (hout rfl)) (List.forall_mem_nil _)
    · rw [hph] at hout
      exact h.update rfl rfl (.inl rfl) (.inr (hout rfl)) (List.forall_mem_nil _)
  | exit t =>
    obtain ⟨hidle, hs⟩ := Option.ite_none_right_eq_some.mp hs
    obtain rfl := Option.some.inj hs
    exact h.update rfl rfl (.inr hidle.2) (.inl rfl) (List.forall_mem_nil _)

/-- A context leaves `mContexts` when its destructor does. -/
theorem Locks.step_contexts {c : ℕ} (hs : s.step e = some s') (hc : c ∈ s.contexts) :
    c ∈ s'.contexts ∨ ∃ buffer, e = .release c buffer ∧ s.phase c = .removing true ∧
      s'.phase c = if buffer then .flushing false else .exited := by
  cases e with
  | call t | refill t | disable t | exit t =>
    obtain ⟨-, hs⟩ := Option.ite_none_right_eq_some.mp hs
    obtain rfl := Option.some.inj hs
    exact Or.inl hc
  | acquire t order =>
    simp only [Locks.step, Option.bind_eq_bind, Option.bind_eq_some_iff, Option.pure_def] at hs
    obtain ⟨l, -, p, -, hs⟩ := hs
    obtain ⟨-, hs⟩ := Option.ite_none_right_eq_some.mp hs
    obtain rfl := Option.some.inj hs
    exact Or.inl hc
  | next t =>
    simp only [Locks.step] at hs
    split at hs
    · obtain rfl := Option.some.inj hs
      exact Or.inl hc
    · exact absurd hs.symm (Option.some_ne_none _)
  | release t buffer =>
    simp only [Locks.step, Option.bind_eq_bind, Option.bind_eq_some_iff, Option.pure_def] at hs
    obtain ⟨⟨l, p, contexts⟩, hr, hs⟩ := hs
    obtain rfl := Option.some.inj hs
    unfold Locks.released at hr
    split at hr <;> try contradiction
    all_goals
      rename_i hph
      obtain ⟨rfl, hnext⟩ := Prod.mk.inj (Option.some.inj hr)
      obtain ⟨rfl, rfl⟩ := Prod.mk.inj hnext
    · exact Or.inl (List.mem_append_left _ hc)
    · exact Or.inl hc
    · exact Or.inl hc
    · exact Or.inl hc
    · exact Or.inl hc
    · rcases eq_or_ne c t with rfl | hct
      · exact Or.inr ⟨buffer, rfl, hph, Function.update_self _ _ _⟩
      · exact Or.inl ((List.mem_erase_of_ne hct).mpr hc)
    · exact Or.inl hc
    · exact Or.inl hc

end

section

variable {s s' : Locks} {t u v : ℕ} {p ph : LockPhase} {l : Lock} {e : LockEvent}

/-! ### The one deadlock -/

/-- `t` saves and waits for the context of `c`, which waits for it in a refill. -/
def Locks.StuckPair (s : Locks) (t c : ℕ) : Prop :=
  (∃ rest, s.phase t = .savingContext c false rest) ∧ s.phase c = .refilling false

/-- A thread that holds a lock which another waits for, and waits itself, is one of the pair. -/
theorem Locks.WaitsOn.phase_of_waiting (h : s.WaitsOn t u) (hu : s.WaitsOn u v) :
    s.phase u = .refilling false ∨ ∃ c rest, s.phase u = .savingContext c false rest := by
  obtain ⟨l, -, hl⟩ := h
  obtain ⟨l', hw, -⟩ := hu
  rcases LockPhase.wants_held hw hl with ⟨hp, -⟩ | ⟨c, rest, hp, -⟩
  · exact Or.inl hp
  · exact Or.inr ⟨c, rest, hp⟩

/-- What a saving thread that waits for a waiting thread waits for. -/
theorem Locks.WaitsOn.stuckPair {c : ℕ} {rest : List ℕ} (h : s.WaitsOn t u)
    (ht : s.phase t = .savingContext c false rest) (hu : s.WaitsOn u v) : s.StuckPair t c := by
  have hphase := h.phase_of_waiting hu
  obtain ⟨l, hw, hl⟩ := h
  obtain rfl : .tracing c = l := by
    rw [ht] at hw
    exact Option.some.inj hw
  rcases hphase with hp | ⟨c', rest', hp⟩
  · rw [hp] at hl
    obtain rfl : c = u := Lock.tracing.inj (List.mem_singleton.mp hl)
    exact ⟨⟨rest, ht⟩, hp⟩
  · rw [hp] at hl
    exact Lock.noConfusion (List.mem_singleton.mp hl)

/-- What a refill waits for is held by a thread that saves, if this waits too. -/
theorem Locks.WaitsOn.saving_of_refilling (h : s.WaitsOn t u) (ht : s.phase t = .refilling false)
    (hu : s.WaitsOn u v) : ∃ c rest, s.phase u = .savingContext c false rest := by
  have hphase := h.phase_of_waiting hu
  obtain ⟨l, hw, hl⟩ := h
  obtain rfl : .contexts = l := by
    rw [ht] at hw
    exact Option.some.inj hw
  refine hphase.resolve_left fun hp => ?_
  rw [hp] at hl
  exact Lock.noConfusion (List.mem_singleton.mp hl)

theorem deadlocked_of_stuckPair (h : s.StuckPair t u) : Deadlocked s := by
  obtain ⟨⟨rest, ht⟩, hu⟩ := h
  refine ⟨t, .head (b := u) ⟨.tracing u, ?_, ?_⟩ (.single ⟨.contexts, ?_, ?_⟩)⟩
  · rw [ht]
    rfl
  · rw [hu]
    exact List.mem_singleton_self _
  · rw [hu]
    rfl
  · rw [ht]
    exact List.mem_singleton_self _

/-- Four threads in a row, each waiting for the next, go through the pair. -/
theorem stuckPair_of_waits {w x : ℕ} (h1 : s.WaitsOn t u) (h2 : s.WaitsOn u v) (h3 : s.WaitsOn v w)
    (h4 : s.WaitsOn w x) : ∃ t c, s.StuckPair t c := by
  rcases h1.phase_of_waiting h2 with hp | ⟨c, rest, hp⟩
  · obtain ⟨c, rest, hp'⟩ := h2.saving_of_refilling hp h3
    exact ⟨v, c, h3.stuckPair hp' h4⟩
  · exact ⟨u, c, h2.stuckPair hp h3⟩

/-- **Every deadlock is a saving thread and a refill.** -/
theorem deadlocked_iff_pair : Deadlocked s ↔ ∃ t c, s.StuckPair t c := by
  constructor
  · rintro ⟨t, ht⟩
    obtain ⟨u, htu, hu⟩ := exists_next_of_transGen ht
    obtain ⟨v, huv, hv⟩ := exists_next_of_transGen hu
    obtain ⟨w, hvw, hw⟩ := exists_next_of_transGen hv
    obtain ⟨x, hwx, -⟩ := exists_next_of_transGen hw
    exact stuckPair_of_waits htu huv hvw hwx
  · rintro ⟨t, c, h⟩
    exact deadlocked_of_stuckPair h

/-! ### Otherwise it goes on -/

/-- A thread can go on with what it has begun. -/
def Locks.CanGoOn (s : Locks) (t : ℕ) : Prop :=
  ∃ e, e.thread = t ∧ e.goesOn = true ∧ (s.step e).isSome = true

/-- A busy thread that waits for nothing. -/
theorem canGoOn_of_wants_none (hb : (s.phase t).busy = true) (hw : (s.phase t).wants t = none) : s.CanGoOn t := by
  cases hp : s.phase t with
  | idle | exited => simp [hp, LockPhase.busy] at hb
  | calling | disabling => simp [hp, LockPhase.wants] at hw
  | adding held | refilling held | removing held | flushing held | storing held =>
    cases held with
    | false => simp [hp, LockPhase.wants] at hw
    | true => exact ⟨.release t false, rfl, rfl, by simp [Locks.step, hp, Locks.released]⟩
  | writing => exact ⟨.release t false, rfl, rfl, by simp [Locks.step, hp, Locks.released]⟩
  | saving rest =>
    cases rest with
    | nil => exact ⟨.release t false, rfl, rfl, by simp [Locks.step, hp, Locks.released]⟩
    | cons c rest => exact ⟨.next t, rfl, rfl, by simp [Locks.step, hp]⟩
  | savingContext c held rest =>
    cases held with
    | false => simp [hp, LockPhase.wants] at hw
    | true => exact ⟨.release t false, rfl, rfl, by simp [Locks.step, hp, Locks.released]⟩

/-- A thread that waits for a lock that is free. -/
theorem canGoOn_of_free (hw : (s.phase t).wants t = some l) (hfree : s.owner l = none) : s.CanGoOn t := by
  have hacquired : ∃ p, Locks.acquired s.contexts s.contexts (s.phase t) = some p := by
    cases hp : s.phase t with
    | disabling => exact ⟨.saving s.contexts, if_pos (List.isPerm_iff.mpr (List.Perm.refl _))⟩
    | calling => exact ⟨_, rfl⟩
    | adding held | refilling held | removing held | flushing held | storing held =>
      cases held with
      | false => exact ⟨_, rfl⟩
      | true => simp [hp, LockPhase.wants] at hw
    | savingContext c held rest =>
      cases held with
      | false => exact ⟨_, rfl⟩
      | true => simp [hp, LockPhase.wants] at hw
    | idle | writing | saving | exited => simp [hp, LockPhase.wants] at hw
  obtain ⟨p, ha⟩ := hacquired
  exact ⟨.acquire t s.contexts, rfl, rfl, by simp [Locks.step, hw, ha, hfree]⟩

theorem LockPhase.busy_of_held (h : l ∈ ph.held t) : ph.busy = true := by
  cases ph with
  | idle | exited => exact absurd h List.not_mem_nil
  | adding | calling | writing | refilling | disabling | saving | savingContext | removing | flushing | storing => rfl

/-- A busy thread goes on, or waits for one that is busy. -/
theorem LocksOwned.goesOn_or_waits (h : LocksOwned s) (hb : (s.phase t).busy = true) :
    s.CanGoOn t ∨ ∃ u, s.WaitsOn t u ∧ (s.phase u).busy = true := by
  cases hw : (s.phase t).wants t with
  | none => exact Or.inl (canGoOn_of_wants_none hb hw)
  | some l =>
    cases ho : s.owner l with
    | none => exact Or.inl (canGoOn_of_free hw ho)
    | some u =>
      have hl : l ∈ (s.phase u).held u := (h.mem_iff l u).mp ho
      exact Or.inr ⟨u, ⟨l, hw, hl⟩, LockPhase.busy_of_held hl⟩

theorem LocksOwned.someone_goesOn (h : LocksOwned s) (hd : ¬ Deadlocked s) (hb : (s.phase t).busy = true) :
    ∃ u, s.CanGoOn u := by
  by_contra hnone
  have hwaits : ∀ u, (s.phase u).busy = true → ∃ v, s.WaitsOn u v ∧ (s.phase v).busy = true :=
    fun u hu => (h.goesOn_or_waits hu).resolve_left fun hgo => hnone ⟨u, hgo⟩
  obtain ⟨u, htu, hu⟩ := hwaits t hb
  obtain ⟨v, huv, hv⟩ := hwaits u hu
  obtain ⟨w, hvw, hw⟩ := hwaits v hv
  obtain ⟨x, hwx, -⟩ := hwaits w hw
  exact hd (deadlocked_iff_pair.mpr (stuckPair_of_waits htu huv hvw hwx))

/-! ### A deadlock is for good -/

/-- A thread moves only if what it waits for is free; the others stay where they are. -/
theorem Locks.step_phase (hs : s.step e = some s') :
    (∀ l, (s.phase e.thread).wants e.thread = some l → s.owner l = none) ∧
      ∀ u, u ≠ e.thread → s'.phase u = s.phase u := by
  rcases Locks.step_cases hs with ⟨p, rfl, -, hw⟩ | ⟨l, p, rfl, hw, hfree, -⟩ | ⟨l, p, contexts, rfl, -, hw⟩
  · exact ⟨fun l hl => by simp [hw] at hl, fun u hu => Function.update_of_ne hu _ _⟩
  · refine ⟨fun l' hl' => ?_, fun u hu => Function.update_of_ne hu _ _⟩
    obtain rfl : l = l' := Option.some.inj (hw.symm.trans hl')
    exact hfree
  · exact ⟨fun l hl => by simp [hw] at hl, fun u hu => Function.update_of_ne hu _ _⟩

end

end Host
end VPerfetto
