/-
# The index of the id arrays

`mCurrentCategoryIid` and `mCurrentEventNameIid` have 16 cells, and everything
that a call reads and writes of them is at `mStackDepth`. The tests before the
lock keep `beginTrace` and `endTrace` within the arrays, in any interleaving
with the ends of sessions. `traceCounter` has no such test: at depth 16 it
writes the cell behind the first array.

Key definitions: `DepthInv`, `IndexInRange`, `CounterBelow`.
Key theorems: `depthInv_step`, `indexInRange_iff`.
-/
import VPerfetto.Host.Invariants
import VPerfetto.Host.Slices

namespace VPerfetto
namespace Host

open Wire Machine Runs

/-- The depth is at most 16, and less for a `beginTrace` or an `endTrace` that
has passed its tests. -/
structure DepthInv (m : Machine) : Prop where
  le : ∀ t, (m.infos t).stackDepth ≤ traceStackDepthMax
  pending : ∀ t call n, m.pending t = some (call, n) →
    (∃ name val, call = .traceCounter name val) ∨ (m.infos t).stackDepth < traceStackDepthMax

/-- The cells that the body of a call reads and writes are in the arrays. -/
def IndexInRange (m : Machine) : Event → Prop
  | .body t _ _ => ∀ call n, m.pending t = some (call, n) → (m.infos t).stackDepth < traceStackDepthMax
  | _ => True

/-- No `traceCounter` is made with 16 slices open. -/
def CounterBelow (m : Machine) : Event → Prop
  | .body t _ _ => ∀ name val n, m.pending t = some (.traceCounter name val, n) →
      (m.infos t).stackDepth ≠ traceStackDepthMax
  | _ => True

section

variable {strings : Ptr → Bytes} {m m' : Machine}

/-- The depth after the tests of a call. -/
theorem Call.enter_depth {call : Call} {c : VirtualDeviceTraceConfig} {i info : ThreadInfo}
    (h : call.enter c i = some info) (hle : i.stackDepth ≤ traceStackDepthMax) :
    (∃ name val, call = .traceCounter name val ∧ info = i) ∨ info.stackDepth < traceStackDepthMax := by
  cases call with
  | beginTrace name =>
    simp only [Call.enter, Option.ite_none_left_eq_some, Option.some.injEq] at h
    obtain ⟨-, hne, rfl⟩ := h
    exact Or.inr (Nat.lt_of_le_of_ne hle hne)
  | endTrace =>
    simp only [Call.enter, Option.ite_none_left_eq_some, Option.some.injEq] at h
    obtain ⟨-, hne, hpos, rfl⟩ := h
    right
    show i.stackDepth - 1 < traceStackDepthMax
    omega
  | traceCounter name val =>
    simp only [Call.enter, Option.ite_none_left_eq_some, Option.some.injEq] at h
    exact Or.inl ⟨name, val, rfl, h.2.symm⟩

theorem DepthInv.config (h : DepthInv m) {c : VirtualDeviceTraceConfig} : DepthInv { m with config := c } :=
  ⟨h.le, h.pending⟩

theorem DepthInv.endSession (h : DepthInv m) (order : List Tid) : DepthInv (m.endSession order) := by
  have hdepth : ∀ t, ((m.endSession order).infos t).stackDepth ≤ (m.infos t).stackDepth := by
    intro t
    unfold Machine.endSession
    dsimp only
    split
    · exact Nat.zero_le _
    · exact Nat.le_refl _
  refine ⟨fun t => (hdepth t).trans (h.le t), fun t call n hq => ?_⟩
  rcases h.pending t call n hq with hcounter | hlt
  · exact Or.inl hcounter
  · exact Or.inr (Nat.lt_of_le_of_lt (hdepth t) hlt)

theorem DepthInv.afterEnter (h : DepthInv m) {t : Tid} {call : Call} {info : ThreadInfo}
    (he : call.enter m.config (m.infos t) = some info) : DepthInv (m.afterEnter t call info) := by
  have hdepth := Call.enter_depth he (h.le t)
  obtain ⟨cs, hcs⟩ := construct_eq (m := m) t
  unfold Machine.afterEnter
  rw [hcs]
  refine ⟨fun u => ?_, fun u call' n hq => ?_⟩
  · by_cases hut : u = t
    · subst hut
      simp only [Function.update_self]
      rcases hdepth with ⟨-, -, -, rfl⟩ | hlt
      · exact h.le u
      · exact Nat.le_of_lt hlt
    · simp only [Function.update_of_ne hut]
      exact h.le u
  · by_cases hut : u = t
    · subst hut
      simp only [Function.update_self, Option.some.injEq, Prod.mk.injEq] at hq ⊢
      obtain ⟨rfl, -⟩ := hq
      rcases hdepth with ⟨name, val, hcall, -⟩ | hlt
      · exact Or.inl ⟨name, val, hcall⟩
      · exact Or.inr hlt
    · simp only [Function.update_of_ne hut] at hq ⊢
      exact h.pending u call' n hq

theorem DepthInv.afterBody (h : DepthInv m) {t : Tid} (full : ℕ → Bool) {call : Call} {n : ℕ} {now : UInt64}
    {b : Body} (hq : m.pending t = some (call, n)) (hb : call.body strings now m.config (m.infos t) = some b) :
    DepthInv (m.afterBody t full call b) := by
  have hdepth : b.info.stackDepth ≤ traceStackDepthMax := by
    rcases Call.body_slices hb with ⟨name, rfl, hd, -⟩ | ⟨-, hi, -⟩ | ⟨-, -, -, hd, -⟩
    · rcases h.pending t _ n hq with ⟨name', val, hc⟩ | hlt
      · exact absurd hc (by simp)
      · omega
    · rw [hi]
      exact h.le t
    · rw [hd]
      exact h.le t
  refine ⟨fun u => ?_, fun u call' n' hq' => ?_⟩
  · by_cases hut : u = t
    · subst hut
      simpa [Machine.afterBody] using hdepth
    · simp only [Machine.afterBody, Function.update_of_ne hut]
      exact h.le u
  · by_cases hut : u = t
    · subst hut
      simp [Machine.afterBody] at hq'
    · simp only [Machine.afterBody, Function.update_of_ne hut] at hq' ⊢
      exact h.pending u call' n' hq'

theorem depthInv_step {e : Event} (h : DepthInv m) (hs : m.step strings e = some m') : DepthInv m' := by
  cases e with
  | enableTracing env =>
    obtain rfl := Option.some.inj hs
    unfold Machine.enableTracing
    dsimp only
    split
    · exact ⟨h.le, h.pending⟩
    · exact h.config
  | disableTracing order =>
    rcases disableTracing_cases hs with ⟨-, -, rfl⟩ | ⟨-, rfl⟩
    · exact h.endSession order
    · exact h.config
  | setGuestTime t now =>
    obtain rfl := Option.some.inj hs
    exact h.config
  | enter t call =>
    obtain ⟨-, -, ⟨-, rfl⟩ | ⟨info, he, rfl⟩⟩ := enter_cases hs
    · split
      · exact h
      · obtain ⟨cs, hcs⟩ := construct_eq (m := m) t
        rw [hcs]
        exact ⟨h.le, h.pending⟩
    · exact h.afterEnter he
  | body t now full =>
    obtain ⟨call, n, b, hq, hb, rfl⟩ := body_cases hs
    exact h.afterBody full hq hb
  | exit t =>
    obtain ⟨-, -, rfl⟩ := exit_cases hs
    exact ⟨h.le, h.pending⟩

/-- Where the depth is as it should be, only a counter can be out of range. -/
theorem DepthInv.index_iff (h : DepthInv m) (e : Event) : IndexInRange m e ↔ CounterBelow m e := by
  cases e with
  | body t now full =>
    constructor
    · intro hindex name val n hq
      exact Nat.ne_of_lt (hindex _ n hq)
    · intro hcounter call n hq
      rcases h.pending t call n hq with ⟨name, val, rfl⟩ | hlt
      · exact Nat.lt_of_le_of_ne (h.le t) (hcounter name val n hq)
      · exact hlt
  | _ => exact Iff.rfl

/-- **When the indices are in range**: in a run from the start, exactly if no
counter comes with 16 slices open. -/
theorem indexInRange_iff (strings : Ptr → Bytes) (config : VirtualDeviceTraceConfig) (es : List Event) :
    StepsMeet (Machine.step strings) IndexInRange { config := config } es ↔
      StepsMeet (Machine.step strings) CounterBelow { config := config } es := by
  have hstart : DepthInv { config := config } := ⟨fun _ => Nat.zero_le _, fun _ _ _ h => by simp at h⟩
  exact stepsMeet_congr (fun _ _ _ h hs => depthInv_step h hs) (fun _ e h => h.index_iff e) hstart

/-- A session in which a thread begins 16 slices and then comes with a counter. -/
def fullThenCounter : List Event :=
  .enableTracing {} :: (List.replicate 16 [.enter 0 (.beginTrace 1), .body 0 5 fun _ => false]).flatten ++
    [.enter 0 (.traceCounter 2 3)]

/-- A counter with 16 slices open. -/
theorem counter_out_of_range : ∃ (strings : Ptr → Bytes) (config : VirtualDeviceTraceConfig) (es : List Event),
    ¬ StepsMeet (Machine.step strings) IndexInRange { config := config } es := by
  have hrun : ((Runs.run (Machine.step fun _ => []) { config := { hostFilename := some "host" } }
      fullThenCounter).map fun m => ((m.infos 0).stackDepth, m.pending 0)) = some (16, some (.traceCounter 2 3, 0)) := by
    decide +kernel
  obtain ⟨m, hm, heq⟩ := Option.map_eq_some_iff.mp hrun
  obtain ⟨hdepth, hq⟩ := Prod.mk.inj heq
  refine ⟨fun _ => [], { hostFilename := some "host" }, fullThenCounter ++ [.body 0 6 fun _ => false], fun h => ?_⟩
  have hlt : (m.infos 0).stackDepth < traceStackDepthMax := h.next hm _ _ hq
  rw [hdepth] at hlt
  exact absurd hlt (by decide)

end

end Host
end VPerfetto
