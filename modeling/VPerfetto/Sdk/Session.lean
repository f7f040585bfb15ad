/-
# The session state of the SDK build

`sTracingSession`, `tracingDisabled`, `saving`, the saver threads and all of
`sTraceProgress` under any order of calls and saver steps. A session is live
exactly while tracing is enabled, `saving` is set exactly while one saver
runs, the two exclude each other, and nobody but the saver touches the traces
it works on (`session_state_machine`).

`SdkState` is the machine of `Saver` with the rest of `sTraceProgress`.
`sessionDiff`, `saverDiffs` and `mergedDiffs` are not in the program: they
record the time difference in force when the session began, the same for the
session of each saver, and with which difference each session was merged.

Key definitions: `State.SaverMoves`, `SessionState`, `SdkState`, `SdkState.step`.
Key theorems: `saverStep_moves`, `SessionState.step`, `session_state_machine`.
-/
import VPerfetto.Merge.Codec
import VPerfetto.Sdk.Saver

namespace VPerfetto
namespace Sdk

open Runs Wire Host

/-! ### What a step can do -/

namespace State

variable {s s' : State}

/-- The steps of saver `i`. -/
inductive SaverMoves (s : State) (i : ℕ) (saver : Saver) : State → Prop
  | copyNames (h : saver.phase = .started) : SaverMoves s i saver (s.setSaver i { saver with
      phase := .polling {}
      hostFilename := s.config.hostFilename
      guestFilename := s.config.guestFilename
      combinedFilename := s.config.combinedFilename })
  | poll (poll : Poll) (h : saver.phase = .polling poll) (hd : poll.done = false) :
    SaverMoves s i saver (s.setSaver i { saver with phase := .polling (poll.next (saver.sizes poll.iter)) })
  | settle (poll : Poll) (h : saver.phase = .polling poll) (hd : poll.done = true) (hg : poll.good = true) :
    SaverMoves s i saver (s.setSaver i { saver with phase := .stable })
  | timeOut (poll : Poll) (h : saver.phase = .polling poll) (hd : poll.done = true) (hg : poll.good = false) :
    SaverMoves s i saver { s with
      hostTrace := []
      config := { s.config with saving := false }
      savers := s.savers.eraseIdx i }
  | merge (h : saver.phase = .stable) : SaverMoves s i saver
    { s.setSaver i { saver with phase := .merged } with
      merges := s.merges ++ [(s.hostTrace, s.config.guestTimeDiff)] }
  | writeHost (h : saver.phase = .merged) : SaverMoves s i saver
    { s.setSaver i { saver with phase := .hostWritten } with
      hostWrites := s.hostWrites ++ [(saver.hostFilename, s.hostTrace)]
      hostTrace := [] }
  | finish (h : saver.phase = .hostWritten) : SaverMoves s i saver { s with
      config := { s.config with saving := false }
      savers := s.savers.eraseIdx i }

theorem saverStep_moves {i : ℕ} (h : s.saverStep i = some s') :
    ∃ saver, s.savers[i]? = some saver ∧ SaverMoves s i saver s' := by
  simp only [saverStep, Option.bind_eq_bind, Option.bind_eq_some_iff] at h
  obtain ⟨saver, hi, h⟩ := h
  refine ⟨saver, hi, ?_⟩
  split at h
  · rename_i hp
    obtain rfl := Option.some.inj h
    exact .copyNames hp
  · rename_i poll hp
    split at h
    · rename_i hd
      obtain rfl := Option.some.inj h
      exact .poll poll hp (by simpa using hd)
    · rename_i hd
      have hdone : poll.done = true := by simpa using hd
      split at h
      · rename_i hg
        obtain rfl := Option.some.inj h
        exact .settle poll hp hdone hg
      · rename_i hg
        obtain rfl := Option.some.inj h
        exact .timeOut poll hp hdone (by simpa using hg)
  · rename_i hp
    obtain rfl := Option.some.inj h
    exact .merge hp
  · rename_i hp
    obtain rfl := Option.some.inj h
    exact .writeHost hp
  · rename_i hp
    obtain rfl := Option.some.inj h
    exact .finish hp

/-- Either a session begins, or only the file names change. -/
theorem enableTracing_cases (env : Env) (s : State) :
    (s.config.tracingDisabled = true ∧ s.config.saving = false ∧ s.session = false ∧
      s.enableTracing env =
        { s with config := { s.config.useEnv env with tracingDisabled := false }, session := true }) ∨
      s.enableTracing env = { s with config := s.config.useEnv env } := by
  unfold enableTracing
  dsimp only
  split
  · exact Or.inr rfl
  · rename_i hc
    simp only [Bool.or_eq_true, Bool.not_eq_true', not_or, Bool.not_eq_true, Bool.not_eq_false] at hc
    exact Or.inl ⟨hc.1.1.2, hc.1.2, hc.2, rfl⟩

/-- There is no session; or saving is in progress; or the session ends, with
its host trace written at once or left to a new saver. -/
theorem disableTracing_cases (trace : Bytes) (sizes : ℕ → ℤ) (s : State) :
    (s.session = false ∧ s.disableTracing trace sizes = s) ∨
    (s.session = true ∧ s.config.saving = true ∧
      s.disableTracing trace sizes = { s with config := { s.config with tracingDisabled := true } }) ∨
    (s.session = true ∧ s.config.saving = false ∧ skipsCombined s.config = true ∧
      s.disableTracing trace sizes = { s with
        config := { s.config with tracingDisabled := true, saving := false }
        hostTrace := trace
        session := false
        ended := s.ended ++ [(s.config.hostFilename, trace)]
        hostWrites := s.hostWrites ++ [(s.config.hostFilename, trace)] }) ∨
    (s.session = true ∧ s.config.saving = false ∧ skipsCombined s.config = false ∧
      s.disableTracing trace sizes = { s with
        config := { s.config with tracingDisabled := true, saving := true }
        hostTrace := trace
        session := false
        ended := s.ended ++ [(s.config.hostFilename, trace)]
        savers := s.savers ++ [{ sizes := sizes }] }) := by
  unfold disableTracing
  cases hs : s.session with
  | false => exact Or.inl ⟨rfl, rfl⟩
  | true =>
    apply Or.inr
    cases hv : s.config.saving with
    | true => exact Or.inl ⟨rfl, rfl, rfl⟩
    | false =>
      apply Or.inr
      cases hk : skipsCombined s.config with
      | true =>
        refine Or.inl ⟨rfl, rfl, rfl, ?_⟩
        have hk' : skipsCombined { s.config with tracingDisabled := true, saving := true } = true := hk
        simp [hk']
      | false =>
        refine Or.inr ⟨rfl, rfl, rfl, ?_⟩
        have hk' : skipsCombined { s.config with tracingDisabled := true, saving := true } = false := hk
        simp [hk']

end State

/-! ### The session state -/

/-- A session is live while tracing is enabled, `saving` is set while one saver
runs, and not both. -/
structure SessionState (s : State) : Prop where
  session_iff : s.session = true ↔ s.config.tracingDisabled = false
  saving_iff : s.config.saving = true ↔ s.savers.length = 1
  at_most_one : s.savers.length ≤ 1
  exclusive : s.config.saving = true → s.session = false

section

variable {s s' : State} {saver : Saver}

theorem SessionState.no_saver (h : SessionState s) (hs : s.config.saving = false) : s.savers = [] := by
  have hne : s.savers.length ≠ 1 := by
    intro h1
    rw [h.saving_iff.mpr h1] at hs
    exact Bool.noConfusion hs
  have hle := h.at_most_one
  exact List.eq_nil_of_length_eq_zero (by omega)

/-- There is only one saver to make a step. -/
theorem SessionState.one_saver (h : SessionState s) {i : ℕ} (hi : s.savers[i]? = some saver) :
    i = 0 ∧ s.savers = [saver] := by
  have hlt : i < s.savers.length := (List.getElem?_eq_some_iff.mp hi).1
  have hle := h.at_most_one
  obtain rfl : i = 0 := by omega
  obtain ⟨x, hx⟩ := List.length_eq_one_iff.mp (show s.savers.length = 1 by omega)
  rw [hx] at hi ⊢
  obtain rfl := Option.some.inj hi
  exact ⟨rfl, rfl⟩

theorem SessionState.saving_of_mem (h : SessionState s) (hm : saver ∈ s.savers) : s.config.saving = true := by
  by_contra hv
  rw [h.no_saver (by simpa using hv)] at hm
  exact List.not_mem_nil hm

/-- Steps that change neither flag, nor the session, nor the number of savers. -/
theorem SessionState.congr (h : SessionState s) (hd : s'.config.tracingDisabled = s.config.tracingDisabled)
    (hv : s'.config.saving = s.config.saving) (hs : s'.session = s.session)
    (hl : s'.savers.length = s.savers.length) : SessionState s' where
  session_iff := by rw [hs, hd]; exact h.session_iff
  saving_iff := by rw [hv, hl]; exact h.saving_iff
  at_most_one := by rw [hl]; exact h.at_most_one
  exclusive := by rw [hv, hs]; exact h.exclusive

theorem SessionState.enableTracing (h : SessionState s) (env : Env) : SessionState (s.enableTracing env) := by
  rcases State.enableTracing_cases env s with ⟨-, hv, -, heq⟩ | heq
  · rw [heq]
    refine ⟨⟨fun _ => rfl, fun _ => rfl⟩, ?_, h.at_most_one, ?_⟩
    · exact h.saving_iff
    · intro hv'
      rw [show s.config.saving = true from hv'] at hv
      exact Bool.noConfusion hv
  · rw [heq]
    exact h.congr rfl rfl rfl rfl

theorem SessionState.disableTracing (h : SessionState s) (trace : Bytes) (sizes : ℕ → ℤ) :
    SessionState (s.disableTracing trace sizes) := by
  rcases State.disableTracing_cases trace sizes s with
    ⟨-, heq⟩ | ⟨hs, hv, -⟩ | ⟨-, hv, -, heq⟩ | ⟨-, hv, -, heq⟩
  · rw [heq]
    exact h
  · -- the early return is not reached
    exact absurd ((h.exclusive hv).symm.trans hs) Bool.false_ne_true
  · rw [heq]
    have hnil := h.no_saver hv
    exact ⟨by simp, by simp [hnil], by simp [hnil], by simp⟩
  · rw [heq]
    have hnil := h.no_saver hv
    exact ⟨by simp, by simp [hnil], by simp [hnil], by simp⟩

/-- The end of a saver. -/
theorem SessionState.finish (h : SessionState s) {i : ℕ} {saver : Saver} (hi : s.savers[i]? = some saver)
    (hd : s'.config.tracingDisabled = s.config.tracingDisabled) (hv : s'.config.saving = false)
    (hs : s'.session = s.session) (hl : s'.savers = s.savers.eraseIdx i) : SessionState s' := by
  have hlt : i < s.savers.length := (List.getElem?_eq_some_iff.mp hi).1
  have hle := h.at_most_one
  have hlen : s'.savers.length = 0 := by
    rw [hl, List.length_eraseIdx_of_lt hlt]
    omega
  refine ⟨by rw [hs, hd]; exact h.session_iff, ?_, by omega, fun hv' => ?_⟩
  · rw [hv, hlen]
    simp
  · rw [hv] at hv'
    exact Bool.noConfusion hv'

theorem SessionState.saverStep (h : SessionState s) {i : ℕ} (hs : s.saverStep i = some s') :
    SessionState s' := by
  obtain ⟨saver, hi, hmove⟩ := State.saverStep_moves hs
  have hset : ∀ x, (s.setSaver i x).savers.length = s.savers.length := fun x => List.length_set
  cases hmove with
  | copyNames | poll | settle | merge | writeHost => exact h.congr rfl rfl rfl (hset _)
  | timeOut | finish => exact h.finish hi rfl rfl rfl rfl

theorem SessionState.step (h : SessionState s) {e : Event} (hs : s.step e = some s') : SessionState s' := by
  cases e with
  | setTraceConfig host guest combined =>
    obtain rfl := Option.some.inj hs
    exact h.congr rfl rfl rfl rfl
  | setGuestTime t now =>
    obtain rfl := Option.some.inj hs
    have hc : ∀ c : VirtualDeviceTraceConfig, (c.setGuestTime t now).tracingDisabled = c.tracingDisabled ∧
        (c.setGuestTime t now).saving = c.saving := by
      intro c
      unfold VirtualDeviceTraceConfig.setGuestTime
      split <;> exact ⟨rfl, rfl⟩
    exact h.congr (hc s.config).1 (hc s.config).2 rfl rfl
  | enableTracing env =>
    obtain rfl := Option.some.inj hs
    exact h.enableTracing env
  | disableTracing trace sizes =>
    obtain rfl := Option.some.inj hs
    exact h.disableTracing trace sizes
  | saver i => exact h.saverStep hs

end

theorem sessionState_initial {s : State} (h : Initial s) : SessionState s := by
  obtain ⟨config, hd, hv, rfl⟩ := h
  exact ⟨by simp [hd], by simp [hv], by simp, fun _ => rfl⟩

/-! ### All of the trace progress -/

/-- `guestTrace` and `combinedTrace` are fields of `sTraceProgress`. -/
structure SdkState extends State where
  guestTrace : Bytes := []
  combinedTrace : Bytes := []
  combinedWrites : List (Option String × Bytes) := []
  sessionDiff : Int64 := 0
  saverDiffs : List Int64 := []
  mergedDiffs : List (Int64 × Int64) := []

/-- An event with what the environment gives to it: the guest file, when a
saver reads it, and the uuids generated for the merge. -/
structure SdkAction where
  event : Event
  guestFile : Option Bytes := none
  gen : ℕ → UInt64 := fun _ => 0

namespace SdkState

variable {ρ : Type}

/-- The next step of saver `i`. Without a guest file to read the process ends
(its size is -1 and no buffer has this size). -/
def saverStep (P : Merge.Protobuf ρ) (i : ℕ) (a : SdkAction) (w : SdkState) : Option SdkState := do
  let saver ← w.savers[i]?
  let s ← w.toState.saverStep i
  match saver.phase with
  | .started => return { w with toState := s }
  | .polling poll =>
    if poll.done && !poll.good then
      return { w with
        toState := s
        guestTrace := []
        combinedTrace := []
        saverDiffs := w.saverDiffs.eraseIdx i }
    else return { w with toState := s }
  | .stable =>
    let guestTrace ← a.guestFile
    return { w with
      toState := s
      guestTrace := guestTrace
      combinedTrace := Merge.constructCombinedTrace P a.gen guestTrace w.hostTrace w.config.guestTimeDiff
      mergedDiffs := w.mergedDiffs ++ [(w.saverDiffs.getD i 0, w.config.guestTimeDiff)] }
  | .merged => return { w with toState := s, guestTrace := [] }
  | .hostWritten => return { w with
      toState := s
      combinedWrites := w.combinedWrites ++ [(saver.combinedFilename, w.combinedTrace)]
      combinedTrace := []
      saverDiffs := w.saverDiffs.eraseIdx i }

/-- The recorded differences after a call. -/
def afterCall (w : SdkState) (s : State) : SdkState :=
  { w with
    toState := s
    sessionDiff := if !w.session && s.session then s.config.guestTimeDiff else w.sessionDiff
    saverDiffs := if w.savers.length < s.savers.length then w.saverDiffs ++ [w.sessionDiff] else w.saverDiffs }

def step (P : Merge.Protobuf ρ) (w : SdkState) (a : SdkAction) : Option SdkState :=
  match a.event with
  | .saver i => w.saverStep P i a
  | e => (w.toState.step e).map w.afterCall

/-- Before the first session. -/
def Initial (w : SdkState) : Prop := ∃ s, Sdk.Initial s ∧ w = { toState := s }

/-- Reached by steps that meet `ok`. -/
abbrev SdkReach (P : Merge.Protobuf ρ) (ok : SdkState → SdkAction → Prop) : SdkState → Prop :=
  Reach Initial (fun w a w' => w.step P a = some w') ok

section

variable {P : Merge.Protobuf ρ} {w w' : SdkState} {a : SdkAction}

/-- A step of the saver, on the machine of `Saver`. -/
theorem saverStep_toState {i : ℕ} (h : w.saverStep P i a = some w') :
    w.toState.saverStep i = some w'.toState := by
  simp only [saverStep, Option.bind_eq_bind, Option.bind_eq_some_iff] at h
  obtain ⟨saver, -, s, hs, h⟩ := h
  rw [hs]
  split at h
  · exact congrArg (fun w => w.map SdkState.toState) h
  · split at h
    · exact congrArg (fun w => w.map SdkState.toState) h
    · exact congrArg (fun w => w.map SdkState.toState) h
  · obtain ⟨guestTrace, -, h⟩ := Option.bind_eq_some_iff.mp h
    exact congrArg (fun w => w.map SdkState.toState) h
  · exact congrArg (fun w => w.map SdkState.toState) h
  · exact congrArg (fun w => w.map SdkState.toState) h

/-- A step is one of the saver, or a call. -/
theorem step_cases (h : w.step P a = some w') :
    (∃ i, a.event = .saver i ∧ w.saverStep P i a = some w') ∨
      ((∀ i, a.event ≠ .saver i) ∧ ∃ s, w.toState.step a.event = some s ∧ w' = w.afterCall s) := by
  unfold step at h
  split at h
  · rename_i i he
    exact Or.inl ⟨i, he, h⟩
  · rename_i he
    obtain ⟨s, hs, rfl⟩ := Option.map_eq_some_iff.mp h
    exact Or.inr ⟨he, s, hs, rfl⟩

theorem step_toState (h : w.step P a = some w') : w.toState.step a.event = some w'.toState := by
  rcases step_cases h with ⟨i, he, hs⟩ | ⟨-, s, hs, rfl⟩
  · rw [he]
    exact saverStep_toState hs
  · exact hs

/-- The machine of `Saver` goes along. -/
theorem reach_toState {ok : SdkState → SdkAction → Prop} (h : SdkReach P ok w) :
    Reach Sdk.Initial (fun s e s' => State.step s e = some s') (fun _ _ => True) w.toState :=
  Reach.map SdkState.toState SdkAction.event (by rintro _ ⟨s, hs, rfl⟩; exact hs)
    (fun _ _ _ _ hs => ⟨trivial, step_toState hs⟩) h

theorem reach_sessionState {ok : SdkState → SdkAction → Prop} (h : SdkReach P ok w) :
    SessionState w.toState :=
  (reach_toState h).inv (P := SessionState) (fun _ => sessionState_initial) (fun _ _ _ hs _ => hs.step)

/-- Calls made while a saver runs leave the traces alone. -/
theorem afterCall_traces (h : SessionState w.toState) (hne : w.savers ≠ []) {s : State}
    (hs : w.toState.step a.event = some s) (ha : ∀ i, a.event ≠ .saver i) : s.hostTrace = w.hostTrace := by
  cases he : a.event with
  | setTraceConfig host guest combined | setGuestTime t now =>
    rw [he] at hs
    obtain rfl := Option.some.inj hs
    rfl
  | enableTracing env =>
    rw [he] at hs
    obtain rfl := Option.some.inj hs
    rcases State.enableTracing_cases env w.toState with ⟨-, -, -, heq⟩ | heq <;> rw [heq]
  | disableTracing trace sizes =>
    rw [he] at hs
    obtain rfl := Option.some.inj hs
    have hsaving : w.config.saving = true := by
      by_contra hv
      exact hne (h.no_saver (by simpa using hv))
    rw [State.disableTracing, h.exclusive hsaving]
    rfl
  | saver i => exact absurd he (ha i)

/-- **The session state machine.** Whatever the order of calls and saver steps:
the flags say what is going on, the early return of `disableTracing` is never
taken with a live session, and only the running saver changes the traces. -/
theorem session_state_machine (h : SdkReach P (fun _ _ => True) w) :
    SessionState w.toState ∧ ¬ (w.session = true ∧ w.config.saving = true) ∧
      ∀ k < w.savers.length, ∀ a w', w.step P a = some w' → a.event ≠ .saver k →
        w'.hostTrace = w.hostTrace ∧ w'.guestTrace = w.guestTrace ∧ w'.combinedTrace = w.combinedTrace := by
  have hinv := reach_sessionState h
  refine ⟨hinv, fun hc => ?_, fun k hk a w' hs hne => ?_⟩
  · exact absurd ((hinv.exclusive hc.2).symm.trans hc.1) Bool.false_ne_true
  · rcases step_cases hs with ⟨i, he, hsaver⟩ | ⟨ha, s, hstep, rfl⟩
    · -- there is only one saver to make a step
      obtain ⟨saver, hi, -⟩ := State.saverStep_moves (saverStep_toState hsaver)
      have hlt : i < w.savers.length := (List.getElem?_eq_some_iff.mp hi).1
      have hle := hinv.at_most_one
      have hik : i = k := by omega
      exact absurd (hik ▸ he) hne
    · have hnil : w.savers ≠ [] := List.ne_nil_of_length_pos (by omega)
      exact ⟨afterCall_traces hinv hnil hstep ha, rfl, rfl⟩

/-- A session that ends with a combined trace to write. -/
def endedSession : List SdkAction :=
  [{ event := .enableTracing { guestFile := some "guest", combinedFile := some "combined" } },
    { event := .disableTracing [10, 0] fun _ => 0 }]

theorem session_state_machine_saving :
    ∃ w, run (SdkState.step Merge.wire) { config := { hostFilename := some "vmm.trace" } } endedSession = some w ∧
      w.savers.length = 1 ∧ w.config.saving = true ∧ SessionState w.toState := by
  have h0 : SdkReach Merge.wire (fun _ _ => True) { config := { hostFilename := some "vmm.trace" } } :=
    .init ⟨{ config := { hostFilename := some "vmm.trace" } }, ⟨_, rfl, rfl, rfl⟩, rfl⟩
  have h1 := session_state_machine (Reach.run endedSession (fun _ _ => trivial) h0 rfl)
  exact ⟨_, rfl, rfl, rfl, h1.1⟩

end

end SdkState

end Sdk
end VPerfetto
