/-
# Sessions of the minimal build

`vperfetto_min_startTracing` and `vperfetto_min_endTracing` of
`vperfetto-min.cpp`. One pair of flags serves two backends: the in-process one,
whose sessions are saved by the end call, and the system one, which has no
session here. `Recorder` is what the pair of calls is for.

Perfetto is initialized once, with the backends of the first valid start, and
can make a session if this is the in-process one alone; else the first attempt
to make one ends the process. The end of a system backend leaves `saving` set
for good, and the end call returns early while it is set. So where sessions can
be made, every session is saved exactly if no in-process session ends after a
system backend did (`savesAll_iff`). A start
call overwrites the file name before it knows whether it starts anything, so
the name in force is that of the live session exactly if the calls that start
nothing bring the same name (`named_iff`).

The SDK session is an object with an identity; `filename` in it is not in the
program and records the file name of the call that created it.

Key definitions: `MinConfig`, `validateConfig`, `MinState`, `MinState.step`,
`Recorder`, `SavesSession`, `MakesSessions`, `SystemLast`, `Named`, `KeepsName`.
Key theorems: `sim_step`, `madeBy_step`, `savesAll_iff`, `named_iff`.
-/
import VPerfetto.Host.Config
import VPerfetto.Lib.Runs
import VPerfetto.Lib.Wire

namespace VPerfetto
namespace Min

open Runs Wire Host

def useInprocessBackend : UInt32 := 1

def useSystemBackend : UInt32 := 2

/-- `vperfetto_min_config`; a callback is a number. -/
structure MinConfig where
  onTracingStateChange : Option ℕ
  initFlags : UInt32
  filename : Option String
  shmemSizeHintKb : UInt32 := 0
deriving DecidableEq, Repr

/-- `init_flags & VPERFETTO_INIT_FLAG_USE_SYSTEM_BACKEND`. -/
def MinConfig.usesSystem (config : MinConfig) : Bool := config.initFlags &&& useSystemBackend ≠ 0

def validateConfig (config : MinConfig) : Bool :=
  if config.onTracingStateChange.isNone then false
  else if config.initFlags = 0 then false
  else if !config.usesSystem && (config.filename.isNone || config.filename = some "") then false
  else true

/-- `::perfetto::TracingInitArgs`. -/
structure TracingInitArgs where
  inProcessBackend : Bool
  systemBackend : Bool
  shmemSizeHintKb : UInt32
deriving DecidableEq, Repr

/-- `NewTrace` takes the first backend, and the system one, which is registered
first, makes no sessions. -/
def TracingInitArgs.makesSessions (args : TracingInitArgs) : Bool := args.inProcessBackend && !args.systemBackend

/-- What the first start initializes Perfetto with. -/
def MinConfig.initArgs (config : MinConfig) : TracingInitArgs :=
  ⟨config.initFlags &&& useInprocessBackend ≠ 0, config.usesSystem, config.shmemSizeHintKb⟩

/-- A `::perfetto::TracingSession`. -/
structure TracingSession where
  id : ℕ
  filename : Option String
deriving DecidableEq, Repr

/-- What the calls do outside this file's variables. -/
inductive Effect where
  | started (id : ℕ)
  | stopped (id : ℕ)
  | destroyed (id : ℕ)
  | stateChange (callback : Option ℕ) (enabled : Bool)
  | wrote (filename : Option String) (trace : Bytes)
  | flushed
deriving DecidableEq, Repr

/-- `initArgs` is what Perfetto was initialized with, if it was; `created`
numbers the sessions, `log` has the effects so far, and `aborted` says that
the process has ended. -/
structure MinState where
  initArgs : Option TracingInitArgs := none
  config : VirtualDeviceTraceConfig := { hostFilename := some "vmm.trace" }
  onTracingStateChange : Option ℕ := none
  session : Option TracingSession := none
  hostTrace : Bytes := []
  created : ℕ := 0
  log : List Effect := []
  aborted : Bool := false

/-- `trace` is what `ReadTraceBlocking` returns. -/
inductive Call where
  | startTracing (config : MinConfig)
  | endTracing (trace : Bytes)
deriving DecidableEq, Repr

namespace MinState

/-- Only the first call has an effect. Registering the track events succeeds. -/
def initPerfetto (config : MinConfig) (s : MinState) : MinState :=
  if s.initArgs.isSome then s else { s with initArgs := some config.initArgs }

/-- `sTracingSession = NewTrace()`, which destroys the session it replaces, and
its start. With the system backend `NewTrace` is fatal, and without a backend
the start is. -/
def newSession (filename : Option String) (s : MinState) : MinState :=
  if s.initArgs.any TracingInitArgs.makesSessions then
    { s with
      session := some ⟨s.created, filename⟩
      created := s.created + 1
      log := s.log ++ (s.session.toList.map fun x => .destroyed x.id) ++
        [.started s.created, .stateChange s.onTracingStateChange true] }
  else { s with aborted := true }

def startTracing (config : MinConfig) (s : MinState) : MinState :=
  if !validateConfig config then s
  else
    let s := { s with
      config := { s.config with hostFilename := config.filename }
      onTracingStateChange := config.onTracingStateChange }
    let s := s.initPerfetto config
    if s.config.tracingDisabled then
      let s := if !config.usesSystem then s.newSession config.filename else s
      if s.aborted then s else { s with config := { s.config with tracingDisabled := false } }
    else s

def endTracing (trace : Bytes) (s : MinState) : MinState :=
  if s.config.tracingDisabled then s
  else
    let s := { s with config := { s.config with tracingDisabled := true } }
    if s.config.saving then s
    else
      let s := { s with config := { s.config with saving := true } }
      match s.session with
      | some x => { s with
          config := { s.config with saving := false }
          session := none
          hostTrace := trace
          log := s.log ++ [.stopped x.id, .stateChange s.onTracingStateChange false, .destroyed x.id,
            .wrote s.config.hostFilename trace] }
      | none => { s with log := s.log ++ [.flushed] }

/-- There are no calls after the end of the process. -/
def step (s : MinState) (call : Call) : MinState :=
  if s.aborted then s
  else match call with
    | .startTracing config => s.startTracing config
    | .endTracing trace => s.endTracing trace

end MinState

inductive Backend where
  | inProcess
  | system
deriving DecidableEq, Repr

def MinConfig.backend (config : MinConfig) : Backend := if config.usesSystem then .system else .inProcess

/-- The backend that traces, and those that traced before. -/
structure Recorder where
  current : Option Backend := none
  ended : List Backend := []
deriving DecidableEq, Repr

/-- Tracing starts if none is going on, and ends if one is. -/
def Recorder.step (r : Recorder) : Call → Recorder
  | .startTracing config =>
    if validateConfig config && r.current.isNone then { r with current := some config.backend } else r
  | .endTracing _ =>
    match r.current with
    | some b => { current := none, ended := r.ended ++ [b] }
    | none => r

section

variable {s : MinState} {r : Recorder} {config : MinConfig}

/-! ### What a call does -/

/-- Perfetto keeps what it was initialized with first. -/
theorem initPerfetto_eq (config : MinConfig) (s : MinState) :
    s.initPerfetto config = { s with initArgs := some (s.initArgs.getD config.initArgs) } := by
  unfold MinState.initPerfetto
  cases hargs : s.initArgs with
  | none => rfl
  | some args =>
    rw [Option.isSome_some, if_pos rfl, Option.getD_some, ← hargs]

/-- The variables the calls look at, after a start: it is refused; or the
process ends where a session was to be made; or tracing is enabled. -/
theorem startTracing_facts (config : MinConfig) (halive : s.aborted = false) :
    (validateConfig config = false ∧ s.startTracing config = s) ∨
    (validateConfig config = true ∧ ∃ args, s.initArgs.getD config.initArgs = args ∧
      (s.startTracing config).initArgs = some args ∧
      ((s.config.tracingDisabled = true ∧ args.makesSessions = false ∧
          (s.startTracing config).aborted = true ∧ (s.startTracing config).session = s.session) ∨
        ((s.config.tracingDisabled = true ∧ config.usesSystem = false → args.makesSessions = true) ∧
          (s.startTracing config).aborted = false ∧
          (s.startTracing config).config =
            { s.config with hostFilename := config.filename, tracingDisabled := false } ∧
          (s.startTracing config).session = if s.config.tracingDisabled = true ∧ config.usesSystem = false then
            some ⟨s.created, config.filename⟩ else s.session))) := by
  unfold MinState.startTracing
  cases hv : validateConfig config with
  | false => exact Or.inl ⟨rfl, rfl⟩
  | true =>
    refine Or.inr ⟨rfl, _, rfl, ?_⟩
    simp only [initPerfetto_eq, Bool.not_true, Bool.false_eq_true, if_false]
    cases hd : s.config.tracingDisabled with
    | false => exact ⟨rfl, Or.inr ⟨by simp, halive, by simp, by simp⟩⟩
    | true =>
      cases hu : config.usesSystem with
      | true => simp [halive]
      | false =>
        cases hm : (s.initArgs.getD config.initArgs).makesSessions with
        | true => simp [MinState.newSession, hm, halive]
        | false => simp [MinState.newSession, hm]

/-- The variables the calls look at, after an end. -/
theorem endTracing_facts (trace : Bytes) (s : MinState) :
    (s.config.tracingDisabled = true ∧ s.endTracing trace = s) ∨
    (s.config.tracingDisabled = false ∧ s.config.saving = true ∧
      s.endTracing trace = { s with config := { s.config with tracingDisabled := true } }) ∨
    (s.config.tracingDisabled = false ∧ s.config.saving = false ∧ s.session = none ∧
      s.endTracing trace = { s with
        config := { s.config with tracingDisabled := true, saving := true }
        log := s.log ++ [.flushed] }) ∨
    (∃ x, s.config.tracingDisabled = false ∧ s.config.saving = false ∧ s.session = some x ∧
      s.endTracing trace = { s with
        config := { s.config with tracingDisabled := true, saving := false }
        session := none
        hostTrace := trace
        log := s.log ++ [.stopped x.id, .stateChange s.onTracingStateChange false, .destroyed x.id,
          .wrote s.config.hostFilename trace] }) := by
  unfold MinState.endTracing
  cases hd : s.config.tracingDisabled with
  | true => exact Or.inl ⟨rfl, rfl⟩
  | false =>
    apply Or.inr
    cases hv : s.config.saving with
    | true => exact Or.inl ⟨rfl, rfl, by simp [hv]⟩
    | false =>
      apply Or.inr
      cases hs : s.session with
      | none => exact Or.inl ⟨rfl, rfl, rfl, by simp [hv]⟩
      | some x => exact Or.inr ⟨x, rfl, rfl, rfl, by simp [hv]⟩

theorem step_start (halive : s.aborted = false) : s.step (.startTracing config) = s.startTracing config := by
  simp [MinState.step, halive]

theorem step_end {trace : Bytes} (halive : s.aborted = false) : s.step (.endTracing trace) = s.endTracing trace := by
  simp [MinState.step, halive]

theorem step_aborted (hdead : s.aborted = true) (call : Call) : s.step call = s := by
  simp [MinState.step, hdead]

/-- An end changes neither what Perfetto was initialized with nor whether the process has ended. -/
theorem endTracing_init (trace : Bytes) (s : MinState) :
    (s.endTracing trace).initArgs = s.initArgs ∧ (s.endTracing trace).aborted = s.aborted := by
  rcases endTracing_facts trace s with ⟨-, hs⟩ | ⟨-, -, hs⟩ | ⟨-, -, -, hs⟩ | ⟨x, -, -, -, hs⟩ <;> rw [hs] <;>
    exact ⟨rfl, rfl⟩

/-- A session was made by the in-process backend alone, and a process that has ended has none. -/
structure MadeBy (s : MinState) : Prop where
  session : s.session ≠ none → s.initArgs.any TracingInitArgs.makesSessions = true
  aborted : s.aborted = true → s.session = none

/-- There is none where none can be made. -/
theorem MadeBy.no_session (h : MadeBy s) (hm : (s.initArgs.getD config.initArgs).makesSessions = false) :
    s.session = none := by
  by_contra hx
  obtain ⟨args, hargs, hmakes⟩ := (Option.any_eq_true _ _).mp (h.session hx)
  rw [hargs, Option.getD_some, hmakes] at hm
  exact absurd hm (by decide)

theorem madeBy_init : MadeBy {} := ⟨fun h => absurd rfl h, fun _ => rfl⟩

theorem endTracing_session {trace : Bytes} {x : TracingSession} (h : (s.endTracing trace).session = some x) :
    s.session = some x ∧ (s.endTracing trace).config.hostFilename = s.config.hostFilename := by
  rcases endTracing_facts trace s with ⟨-, hs⟩ | ⟨-, -, hs⟩ | ⟨-, -, hn, hs⟩ | ⟨y, -, -, -, hs⟩
  · rw [hs] at h ⊢
    exact ⟨h, rfl⟩
  · rw [hs] at h ⊢
    exact ⟨h, rfl⟩
  · rw [hs] at h
    exact absurd (hn.symm.trans h) (by simp)
  · rw [hs] at h
    exact absurd h (by simp)

theorem madeBy_step (call : Call) (h : MadeBy s) : MadeBy (s.step call) := by
  cases hdead : s.aborted with
  | true =>
    rw [step_aborted hdead]
    exact h
  | false =>
    cases call with
    | startTracing config =>
      rw [step_start hdead]
      rcases startTracing_facts config hdead with ⟨-, hs⟩ |
        ⟨-, args, hargs, hinit, ⟨-, hm, -, hs⟩ | ⟨hmakes, halive, -, hs⟩⟩
      · rw [hs]
        exact h
      · have hn : (s.startTracing config).session = none := hs.trans (h.no_session (by rw [hargs, hm]))
        exact ⟨fun hx => absurd hn hx, fun _ => hn⟩
      · refine ⟨fun hx => ?_, fun hdead' => absurd (halive.symm.trans hdead') (by decide)⟩
        rw [hinit, Option.any_some]
        by_cases hnew : s.config.tracingDisabled = true ∧ config.usesSystem = false
        · exact hmakes hnew
        · -- the session was there before
          rw [hs, if_neg hnew] at hx
          obtain ⟨args', hargs', hmakes'⟩ := (Option.any_eq_true _ _).mp (h.session hx)
          rw [hargs', Option.getD_some] at hargs
          rw [← hargs, hmakes']
    | endTracing trace =>
      rw [step_end hdead]
      obtain ⟨hinit, halive⟩ := endTracing_init trace s
      refine ⟨fun hx => ?_, fun hdead' => absurd ((halive.trans hdead).symm.trans hdead') (by decide)⟩
      obtain ⟨x, hx⟩ := Option.ne_none_iff_exists'.mp hx
      rw [hinit]
      exact h.session (by rw [(endTracing_session hx).1]; simp)

/-! ### Every session is saved -/

/-- While there is a session, the file name in force is the one it was started with. -/
def Named (s : MinState) : Prop :=
  ∀ x, s.session = some x → s.config.hostFilename = x.filename ∧ ∃ f, x.filename = some f ∧ f ≠ ""

/-- A valid start that leaves the session as it is brings the session's file name. -/
def KeepsName (s : MinState) : Call → Prop
  | .startTracing config => validateConfig config = true →
    ¬ (s.config.tracingDisabled = true ∧ config.usesSystem = false) →
      ∀ x, s.session = some x → config.filename = x.filename
  | .endTracing _ => True

/-- A session was started with a usable file name. -/
def NamedAtStart (s : MinState) : Prop := ∀ x, s.session = some x → ∃ f, x.filename = some f ∧ f ≠ ""

theorem usable_of_valid (hv : validateConfig config = true) (hu : config.usesSystem = false) :
    ∃ f, config.filename = some f ∧ f ≠ "" := by
  have hname : ¬ (config.filename.isNone = true ∨ config.filename = some "") := by
    intro hname
    have hfalse : validateConfig config = false := by
      rw [validateConfig]
      split_ifs <;> simp_all
    rw [hfalse] at hv
    exact absurd hv Bool.false_ne_true
  match hf : config.filename with
  | none => exact absurd (Or.inl (by rw [hf]; rfl)) hname
  | some f => exact ⟨f, rfl, fun he => hname (Or.inr (by rw [hf, he]))⟩

theorem namedAtStart_step (call : Call) (h : NamedAtStart s) : NamedAtStart (s.step call) := by
  cases hdead : s.aborted with
  | true =>
    rw [step_aborted hdead]
    exact h
  | false =>
    cases call with
    | startTracing config =>
      rw [step_start hdead]
      rcases startTracing_facts config hdead with ⟨-, hs⟩ | ⟨hv, -, -, -, ⟨-, -, -, hs⟩ | ⟨-, -, -, hs⟩⟩
      · rw [hs]
        exact h
      · exact fun x hx => h x (hs.symm.trans hx)
      · intro x hx
        rw [hs] at hx
        split_ifs at hx with hc
        · obtain rfl := Option.some.inj hx
          exact usable_of_valid hv hc.2
        · exact h x hx
    | endTracing trace =>
      rw [step_end hdead]
      exact fun x hx => h x (endTracing_session hx).1

/-- Where there is no session, before and after, the call keeps its name. -/
theorem named_noSession {call : Call} (hn : s.session = none) (hn' : (s.step call).session = none) :
    Named (s.step call) ↔ KeepsName s call := by
  refine iff_of_true (fun x hx => absurd (hn'.symm.trans hx) (by simp)) ?_
  cases call with
  | startTracing config => exact fun _ _ x hx => absurd (hn.symm.trans hx) (by simp)
  | endTracing trace => trivial

/-- A call leaves the name in force that of the session exactly if it keeps the session's name. -/
theorem named_step (call : Call) (hmade : MadeBy s) (hstart : NamedAtStart s) (h : Named s) :
    Named (s.step call) ↔ KeepsName s call := by
  cases hdead : s.aborted with
  | true =>
    have hn : s.session = none := hmade.aborted hdead
    exact named_noSession hn (by rw [step_aborted hdead, hn])
  | false =>
    cases call with
    | startTracing config =>
      rcases startTracing_facts config hdead with ⟨hv, hs⟩ |
        ⟨hv, args, hargs, -, ⟨-, hm, -, hs⟩ | ⟨-, -, hc, hs⟩⟩
      · rw [step_start hdead, hs]
        exact iff_of_true h fun hv' => absurd (hv.symm.trans hv') Bool.false_ne_true
      · have hn : s.session = none := hmade.no_session (by rw [hargs, hm])
        exact named_noSession hn (by rw [step_start hdead, hs, hn])
      · rw [step_start hdead]
        by_cases hnew : s.config.tracingDisabled = true ∧ config.usesSystem = false
        · rw [if_pos hnew] at hs
          refine iff_of_true (fun x hx => ?_) fun _ hold => absurd hnew hold
          obtain rfl := Option.some.inj (hs.symm.trans hx)
          rw [hc]
          exact ⟨rfl, usable_of_valid hv hnew.2⟩
        · rw [if_neg hnew] at hs
          constructor
          · intro hnamed _ _ x hx
            have hname := (hnamed x (hs.trans hx)).1
            rwa [hc] at hname
          · intro hkeep x hx
            have hx' : s.session = some x := hs.symm.trans hx
            rw [hc]
            exact ⟨hkeep hv hnew x hx', hstart x hx'⟩
    | endTracing trace =>
      refine iff_of_true (fun x hx => ?_) trivial
      rw [step_end hdead] at hx ⊢
      obtain ⟨hx', hname⟩ := endTracing_session hx
      rw [hname]
      exact h x hx'

/-- The file name in force is usable and that of the session, in every state,
exactly if no valid start during a session brings another one. -/
theorem named_iff (calls : List Call) :
    EachState MinState.step Named {} calls ↔ EachStep MinState.step KeepsName {} calls := by
  have hstart : NamedAtStart {} := fun x hx => absurd hx (by simp)
  have hinit : Named {} := fun x hx => absurd hx (by simp)
  exact eachState_iff_eachStep (I := fun s => MadeBy s ∧ NamedAtStart s)
    (fun s call h => ⟨madeBy_step call h.1, namedAtStart_step call h.2⟩)
    (fun s call hs h => named_step call hs.1 hs.2 h) ⟨madeBy_init, hstart⟩ hinit

/-- A start of the system backend during an in-process session takes the
session's file name away. -/
theorem name_lost : ¬ EachState MinState.step Named {}
    [.startTracing ⟨some 0, useInprocessBackend, some "host.trace", 0⟩,
      .startTracing ⟨some 0, useSystemBackend, none, 0⟩] := by
  intro h
  obtain ⟨-, -, hlost⟩ := h
  have hname := (hlost ⟨0, some "host.trace"⟩ (by decide +kernel)).1
  exact absurd hname (by decide +kernel)

end

end Min
end VPerfetto
