/-
# The traversals of a trace

`mutateTracePackets`, `iterateTraceTimestamps`,
`iterateTraceTrackDescriptorUuids` and `iterateTraceIds` of
`vperfetto-sdk.cpp`. The C++ callbacks are closures that may write what they
capture, so they are functions into a monad `m` here: `sCalcMaxIds` passes
callbacks over a state of maxima, `constructCombinedTrace` pure ones.

`has_f() ... set_f(g(f()))` is `onPresent g` on the option; the scheduling
events test `f() != 0` as well and are `onNonzero g`. A chain of `has_`
tests on the cases of one oneof is a match, since at most one case is set
and no setter in the chain changes the case.

Key definitions: `iterateTraceTimestamps`, `iterateTraceTrackDescriptorUuids`,
`iterateTraceIds`, `transformPidWithUuidRemapTracking`, `remapUuid`.
-/
import VPerfetto.Merge.Schema

namespace VPerfetto
namespace Merge

universe u

variable {m : Type → Type u} [Monad m] {ρ : Type}

/-- `if (x.has_f()) x.set_f(g(x.f()))`. -/
def onPresent {α : Type} (g : α → m α) : Option α → m (Option α)
  | none => pure none
  | some a => some <$> g a

/-- `if (x.has_f() && x.f() != 0) x.set_f(g(x.f()))`. -/
def onNonzero (g : Int32 → m Int32) : Option Int32 → m (Option Int32)
  | none => pure none
  | some pid => if pid ≠ 0 then some <$> g pid else pure (some pid)

def mutateTracePackets (pbtrace : Trace ρ) (mutator : TracePacket ρ → TracePacket ρ) : Trace ρ :=
  pbtrace.map mutator

/-! ### Timestamps -/

def FtraceEvent.mapTimestamp (f : UInt64 → UInt64) (ftev : FtraceEvent ρ) : FtraceEvent ρ :=
  { ftev with timestamp := ftev.timestamp.map f }

def TracePacket.mapTimestamps (f : UInt64 → UInt64) (packet : TracePacket ρ) : TracePacket ρ :=
  { packet with
    timestamp := packet.timestamp.map f
    data := match packet.data with
      | .ftraceEvents ftevts =>
        .ftraceEvents { ftevts with event := ftevts.event.map (FtraceEvent.mapTimestamp f) }
      | data => data }

/-- The only callback the code passes is pure. -/
def iterateTraceTimestamps (pbtrace : Trace ρ) (forEachTimestamp : UInt64 → UInt64) : Trace ρ :=
  pbtrace.map (TracePacket.mapTimestamps forEachTimestamp)

/-! ### Track uuids -/

def TrackEventDefaults.forEachUuid (f : UInt64 → m UInt64) (ted : TrackEventDefaults ρ) :
    m (TrackEventDefaults ρ) := do
  let trackUuid ← onPresent f ted.trackUuid
  pure { ted with trackUuid }

def TracePacketDefaults.forEachUuid (f : UInt64 → m UInt64) (tpd : TracePacketDefaults ρ) :
    m (TracePacketDefaults ρ) := do
  let trackEventDefaults ← onPresent (TrackEventDefaults.forEachUuid f) tpd.trackEventDefaults
  pure { tpd with trackEventDefaults }

def PacketData.forEachUuid (f : UInt64 → m UInt64) : PacketData ρ → m (PacketData ρ)
  -- individual track events
  | .trackEvent te => do
    let trackUuid ← onPresent f te.trackUuid
    pure (.trackEvent { te with trackUuid })
  -- track descriptors
  | .trackDescriptor trd => do
    let uuid ← onPresent f trd.uuid
    let parentUuid ← onPresent f trd.parentUuid
    pure (.trackDescriptor { trd with uuid, parentUuid })
  | data => pure data

def TracePacket.forEachUuid (f : UInt64 → m UInt64) (packet : TracePacket ρ) :
    m (TracePacket ρ) := do
  let tracePacketDefaults ← onPresent (TracePacketDefaults.forEachUuid f) packet.tracePacketDefaults
  let data ← packet.data.forEachUuid f
  pure { packet with tracePacketDefaults, data }

def iterateTraceTrackDescriptorUuids (pbtrace : Trace ρ) (forEachUuid : UInt64 → m UInt64) :
    m (Trace ρ) :=
  pbtrace.mapM (TracePacket.forEachUuid forEachUuid)

/-! ### Sequence ids, uids, pids, tids and cpus -/

/-- The callbacks of `iterateTraceIds`. -/
structure IdCallbacks (m : Type → Type u) where
  forEachTrustedUid : UInt32 → m UInt32
  forEachSequenceId : UInt32 → m UInt32
  forEachPid : Int32 → m Int32
  forEachTid : Int32 → m Int32
  forEachCpu : Int32 → m Int32

def FtraceEventData.forEachPid (f : Int32 → m Int32) : FtraceEventData ρ → m (FtraceEventData ρ)
  | .schedSwitch prevPid nextPid o => do
    let prevPid ← onNonzero f prevPid
    let nextPid ← onNonzero f nextPid
    pure (.schedSwitch prevPid nextPid o)
  | .schedWakeup pid o => do pure (.schedWakeup (← onNonzero f pid) o)
  | .schedBlockedReason pid o => do pure (.schedBlockedReason (← onNonzero f pid) o)
  | .schedWaking pid o => do pure (.schedWaking (← onNonzero f pid) o)
  | .schedWakeupNew pid o => do pure (.schedWakeupNew (← onNonzero f pid) o)
  | .schedProcessExec pid oldPid o => do
    let pid ← onNonzero f pid
    let oldPid ← onNonzero f oldPid
    pure (.schedProcessExec pid oldPid o)
  | .schedProcessExit pid tgid o => do
    let pid ← onNonzero f pid
    let tgid ← onNonzero f tgid
    pure (.schedProcessExit pid tgid o)
  | .schedProcessFork parentPid childPid o => do
    let parentPid ← onNonzero f parentPid
    let childPid ← onNonzero f childPid
    pure (.schedProcessFork parentPid childPid o)
  | .schedProcessFree pid o => do pure (.schedProcessFree (← onNonzero f pid) o)
  | .schedProcessHang pid o => do pure (.schedProcessHang (← onNonzero f pid) o)
  | .schedProcessWait pid o => do pure (.schedProcessWait (← onNonzero f pid) o)
  | .notSet => pure .notSet
  | .otherEvent o => pure (.otherEvent o)

/-- `FtraceEvent.pid` is a `uint32`, the callback takes and returns an `int32`. -/
def FtraceEvent.forEachPid (f : Int32 → m Int32) (ftev : FtraceEvent ρ) : m (FtraceEvent ρ) := do
  let pid ← onPresent (fun pid => Int32.toUInt32 <$> f pid.toInt32) ftev.pid
  let event ← ftev.event.forEachPid f
  pure { ftev with pid, event }

def FtraceEventBundle.forEachId (cb : IdCallbacks m) (ftevts : FtraceEventBundle ρ) :
    m (FtraceEventBundle ρ) := do
  let cpu ← onPresent (fun cpu => Int32.toUInt32 <$> cb.forEachCpu cpu.toInt32) ftevts.cpu
  let event ← ftevts.event.mapM (FtraceEvent.forEachPid cb.forEachPid)
  pure { ftevts with cpu, event }

def Process.forEachPid (f : Int32 → m Int32) (p : Process ρ) : m (Process ρ) := do
  let pid ← onPresent f p.pid
  pure { p with pid }

def Thread.forEachId (cb : IdCallbacks m) (t : Thread ρ) : m (Thread ρ) := do
  let tid ← onPresent cb.forEachTid t.tid
  let tgid ← onPresent cb.forEachPid t.tgid
  pure { t with tid, tgid }

def ProcessTree.forEachId (cb : IdCallbacks m) (pt : ProcessTree ρ) : m (ProcessTree ρ) := do
  let processes ← pt.processes.mapM (Process.forEachPid cb.forEachPid)
  let threads ← pt.threads.mapM (Thread.forEachId cb)
  pure { pt with processes, threads }

/-- `std::unordered_map<uint64_t, uint64_t>`. -/
abbrev UuidMap := List (UInt64 × UInt64)

/-- What `iterateTraceIds` remembers about uuids; `generated` counts the
calls of `GenUuidv4Lsb`. -/
structure UuidRemap where
  needRemapUuids : Bool := false
  uuidMap : UuidMap := []
  generated : ℕ := 0

/-- `gen n` is what the `n`-th call of `::perfetto::base::GenUuidv4Lsb`
returns. -/
def transformPidWithUuidRemapTracking (gen : ℕ → UInt64) (forEachPid : Int32 → m Int32)
    (prev : Int32) (prevUuid : UInt64) : StateT UuidRemap m Int32 := do
  let next ← liftM (forEachPid prev)
  if prev = next then return next
  let s ← get
  if (s.uuidMap.lookup prevUuid).isSome then return next
  set { needRemapUuids := true, uuidMap := (prevUuid, gen s.generated) :: s.uuidMap,
        generated := s.generated + 1 : UuidRemap }
  return next

def ProcessDescriptor.forEachPid (f : Int32 → m Int32) (p : ProcessDescriptor ρ) :
    m (ProcessDescriptor ρ) := do
  let pid ← onPresent f p.pid
  pure { p with pid }

def ThreadDescriptor.forEachPid (f : Int32 → m Int32) (t : ThreadDescriptor ρ) :
    m (ThreadDescriptor ρ) := do
  let pid ← onPresent f t.pid
  pure { t with pid }

/-- `trd->uuid()` of an absent field is the default 0. -/
def TrackDescriptor.forEachPid (gen : ℕ → UInt64) (f : Int32 → m Int32) (trd : TrackDescriptor ρ) :
    StateT UuidRemap m (TrackDescriptor ρ) := do
  let transform := fun pid => transformPidWithUuidRemapTracking gen f pid (trd.uuid.getD 0)
  let process ← onPresent (ProcessDescriptor.forEachPid transform) trd.process
  let thread ← onPresent (ThreadDescriptor.forEachPid transform) trd.thread
  pure { trd with process, thread }

def PacketData.forEachId (gen : ℕ → UInt64) (cb : IdCallbacks m) :
    PacketData ρ → StateT UuidRemap m (PacketData ρ)
  | .ftraceEvents ftevts => do pure (.ftraceEvents (← liftM (ftevts.forEachId cb)))
  | .trackDescriptor trd => do pure (.trackDescriptor (← trd.forEachPid gen cb.forEachPid))
  | .processTree pt => do pure (.processTree (← liftM (pt.forEachId cb)))
  | data => pure data

/-- `TracePacket.trusted_uid` is an `int32`, the callback takes and returns a
`uint32`. -/
def TracePacket.forEachId (gen : ℕ → UInt64) (cb : IdCallbacks m) (packet : TracePacket ρ) :
    StateT UuidRemap m (TracePacket ρ) := do
  let trustedUid ← liftM (onPresent
    (fun uid => UInt32.toInt32 <$> cb.forEachTrustedUid uid.toUInt32) packet.trustedUid)
  let trustedPacketSequenceId ← liftM (onPresent cb.forEachSequenceId packet.trustedPacketSequenceId)
  let data ← packet.data.forEachId gen cb
  pure { packet with trustedUid, trustedPacketSequenceId, data }

/-- The callback of the second pass: `uuidMap[uuid]` inserts and returns 0
for a uuid the first pass did not record. -/
def remapUuid (uuid : UInt64) : StateM UuidMap UInt64 := do
  let uuidMap ← get
  match uuidMap.lookup uuid with
  | some next => return next
  | none =>
    set ((uuid, 0) :: uuidMap)
    return 0

def iterateTraceIds (gen : ℕ → UInt64) (pbtrace : Trace ρ) (cb : IdCallbacks m) : m (Trace ρ) := do
  let (pbtrace, s) ← (pbtrace.mapM (TracePacket.forEachId gen cb)).run {}
  if s.needRemapUuids then
    return ((iterateTraceTrackDescriptorUuids pbtrace remapUuid).run s.uuidMap).1
  return pbtrace

end Merge
end VPerfetto
