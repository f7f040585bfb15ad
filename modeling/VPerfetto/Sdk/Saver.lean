/-
# Saving in the SDK build

Sessions of `vperfetto-sdk.cpp` and the detached `asyncTraceSaveFunc` thread.
The host trace that `disableTracing` reads is parked in `sTraceProgress` until
the saver writes it. The exit for a guest file that never settles clears it
unwritten, where `vperfetto.cpp` has written the host file before it starts to
wait.

The guest file, and with it the step that reads it, is in `SdkState` of
`Session`.

Key definitions: `State`, `Event`, `State.step`.
-/
import VPerfetto.Lib.Runs
import VPerfetto.Lib.Wire
import VPerfetto.Host.Config
import VPerfetto.Host.Poll

namespace VPerfetto
namespace Sdk

open Runs Wire Host

/-- Where `asyncTraceSaveFunc` is. -/
inductive SaverPhase where
  | started
  | polling (poll : Poll)
  | stable
  | merged
  | hostWritten
deriving DecidableEq, Repr

/-- A thread that has not finished: the sizes its polls will find, and the
file names it copied when it began. -/
structure Saver where
  sizes : ℕ → ℤ
  phase : SaverPhase := .started
  hostFilename : Option String := none
  guestFilename : Option String := none
  combinedFilename : Option String := none

/-- `session` is `sTracingSession` not being null, `hostTrace` the field of
`sTraceProgress`. `ended`, `hostWrites` and `merges` record the sessions that
were ended (the host file name in force and the trace that was read), the
writes to host files, and the arguments of `constructCombinedTrace`. -/
structure State where
  config : VirtualDeviceTraceConfig
  session : Bool := false
  hostTrace : Bytes := []
  savers : List Saver := []
  ended : List (Option String × Bytes) := []
  hostWrites : List (Option String × Bytes) := []
  merges : List (Bytes × Int64) := []

/-- `trace` is the result of `ReadTraceBlocking`, `sizes` what a saver started
now will find. -/
inductive Event where
  | setTraceConfig (host guest combined : Option String)
  | setGuestTime (t now : UInt64)
  | enableTracing (env : Env)
  | disableTracing (trace : Bytes) (sizes : ℕ → ℤ)
  | saver (i : ℕ)

namespace State

def enableTracing (env : Env) (s : State) : State :=
  let c := s.config.useEnv env
  if c.hostFilename.isNone || !c.tracingDisabled || c.saving || s.session then { s with config := c }
  else { s with config := { c with tracingDisabled := false }, session := true }

/-- `disableTracing` finds a session and no save in progress. -/
def endsSession (s : State) : Bool := s.session && !s.config.saving

def skipsCombined (c : VirtualDeviceTraceConfig) : Bool := c.guestFilename.isNone || c.combinedFilename.isNone

def disableTracing (trace : Bytes) (sizes : ℕ → ℤ) (s : State) : State :=
  if !s.session then s
  else if s.config.saving then { s with config := { s.config with tracingDisabled := true } }
  else
    let s := { s with
      config := { s.config with tracingDisabled := true, saving := true }
      hostTrace := trace
      session := false
      ended := s.ended ++ [(s.config.hostFilename, trace)] }
    if skipsCombined s.config then
      { s with
        config := { s.config with saving := false }
        hostWrites := s.hostWrites ++ [(s.config.hostFilename, s.hostTrace)] }
    else { s with savers := s.savers ++ [{ sizes := sizes }] }

def setSaver (i : ℕ) (saver : Saver) (s : State) : State := { s with savers := s.savers.set i saver }

/-- The next step of saver `i`. That `stable` needs a guest file to read is in `SdkState.saverStep`. -/
def saverStep (i : ℕ) (s : State) : Option State := do
  let saver ← s.savers[i]?
  match saver.phase with
  | .started => return s.setSaver i { saver with
      phase := .polling {}
      hostFilename := s.config.hostFilename
      guestFilename := s.config.guestFilename
      combinedFilename := s.config.combinedFilename }
  | .polling poll =>
    if !poll.done then
      return s.setSaver i { saver with phase := .polling (poll.next (saver.sizes poll.iter)) }
    else if poll.good then return s.setSaver i { saver with phase := .stable }
    -- timed out
    else return { s with
      hostTrace := []
      config := { s.config with saving := false }
      savers := s.savers.eraseIdx i }
  | .stable => return { s.setSaver i { saver with phase := .merged } with
      merges := s.merges ++ [(s.hostTrace, s.config.guestTimeDiff)] }
  | .merged => return { s.setSaver i { saver with phase := .hostWritten } with
      hostWrites := s.hostWrites ++ [(saver.hostFilename, s.hostTrace)]
      hostTrace := [] }
  | .hostWritten => return { s with
      config := { s.config with saving := false }
      savers := s.savers.eraseIdx i }

def step (s : State) : Event → Option State
  | .setTraceConfig host guest combined => some { s with config := { s.config with
      hostFilename := host, guestFilename := guest, combinedFilename := combined } }
  | .setGuestTime t now => some { s with config := s.config.setGuestTime t now }
  | .enableTracing env => some (s.enableTracing env)
  | .disableTracing trace sizes => some (s.disableTracing trace sizes)
  | .saver i => s.saverStep i

end State

/-- Before the first session. -/
def Initial (s : State) : Prop :=
  ∃ config : VirtualDeviceTraceConfig, config.tracingDisabled = true ∧ config.saving = false ∧
    s = { config := config }

end Sdk
end VPerfetto
