/-
# The part of the trace schema that merging reads

The messages of `proto/perfetto_trace.proto` that `vperfetto-sdk.cpp` looks
into. Optional fields are options (`none` is an absent field), repeated
fields are lists, a `oneof` is an inductive type, so that at most one of its
cases is set. Integers have the widths of the schema. What the merge never
looks at (names, interned data, counter values, comms, flags, unknown
fields) is one field `other` of an arbitrary type `ρ` in each message: every
result holds whatever it contains.

Key definitions: `TracePacket`, `PacketData`, `FtraceEvent`, `Trace`.
-/
import Mathlib.Data.List.Basic

namespace VPerfetto
namespace Merge

/-- A clock reading of a `ClockSnapshot`. -/
structure Clock (ρ : Type) where
  clockId : Option UInt32
  timestamp : Option UInt64
  other : ρ
  deriving DecidableEq

structure ClockSnapshot (ρ : Type) where
  clocks : List (Clock ρ)
  other : ρ
  deriving DecidableEq

/-- The `event` oneof of an `FtraceEvent`: the scheduling events whose pids
are rewritten, and every other event (`other` says which one). -/
inductive FtraceEventData (ρ : Type) where
  | notSet
  | schedSwitch (prevPid nextPid : Option Int32) (other : ρ)
  | schedWakeup (pid : Option Int32) (other : ρ)
  | schedBlockedReason (pid : Option Int32) (other : ρ)
  | schedWaking (pid : Option Int32) (other : ρ)
  | schedWakeupNew (pid : Option Int32) (other : ρ)
  | schedProcessExec (pid oldPid : Option Int32) (other : ρ)
  | schedProcessExit (pid tgid : Option Int32) (other : ρ)
  | schedProcessFork (parentPid childPid : Option Int32) (other : ρ)
  | schedProcessFree (pid : Option Int32) (other : ρ)
  | schedProcessHang (pid : Option Int32) (other : ρ)
  | schedProcessWait (pid : Option Int32) (other : ρ)
  | otherEvent (other : ρ)
  deriving DecidableEq

structure FtraceEvent (ρ : Type) where
  timestamp : Option UInt64
  pid : Option UInt32
  event : FtraceEventData ρ
  other : ρ
  deriving DecidableEq

/-- The compact encoding of scheduling events, a structure of arrays. -/
structure CompactSched (ρ : Type) where
  switchTimestamp : List UInt64
  switchNextPid : List Int32
  wakingTimestamp : List UInt64
  wakingPid : List Int32
  other : ρ
  deriving DecidableEq

structure FtraceEventBundle (ρ : Type) where
  cpu : Option UInt32
  event : List (FtraceEvent ρ)
  compactSched : Option (CompactSched ρ)
  other : ρ
  deriving DecidableEq

structure TrackEvent (ρ : Type) where
  trackUuid : Option UInt64
  extraCounterTrackUuids : List UInt64
  other : ρ
  deriving DecidableEq

structure TrackEventDefaults (ρ : Type) where
  trackUuid : Option UInt64
  extraCounterTrackUuids : List UInt64
  other : ρ
  deriving DecidableEq

structure TracePacketDefaults (ρ : Type) where
  trackEventDefaults : Option (TrackEventDefaults ρ)
  other : ρ
  deriving DecidableEq

structure ProcessDescriptor (ρ : Type) where
  pid : Option Int32
  other : ρ
  deriving DecidableEq

structure ThreadDescriptor (ρ : Type) where
  pid : Option Int32
  tid : Option Int32
  other : ρ
  deriving DecidableEq

structure TrackDescriptor (ρ : Type) where
  uuid : Option UInt64
  parentUuid : Option UInt64
  process : Option (ProcessDescriptor ρ)
  thread : Option (ThreadDescriptor ρ)
  other : ρ
  deriving DecidableEq

/-- `ProcessTree.Process`. -/
structure Process (ρ : Type) where
  pid : Option Int32
  ppid : Option Int32
  other : ρ
  deriving DecidableEq

/-- `ProcessTree.Thread`. -/
structure Thread (ρ : Type) where
  tid : Option Int32
  tgid : Option Int32
  other : ρ
  deriving DecidableEq

structure ProcessTree (ρ : Type) where
  processes : List (Process ρ)
  threads : List (Thread ρ)
  other : ρ
  deriving DecidableEq

/-- The `data` oneof of a `TracePacket`; `otherData` is any of the cases the
merge does not look into (`other` says which one). -/
inductive PacketData (ρ : Type) where
  | notSet
  | processTree (pt : ProcessTree ρ)
  | clockSnapshot (cs : ClockSnapshot ρ)
  | trackEvent (te : TrackEvent ρ)
  | serviceEvent (other : ρ)
  | trackDescriptor (trd : TrackDescriptor ρ)
  | ftraceEvents (ftevts : FtraceEventBundle ρ)
  | otherData (other : ρ)
  deriving DecidableEq

structure TracePacket (ρ : Type) where
  timestamp : Option UInt64
  trustedUid : Option Int32
  trustedPacketSequenceId : Option UInt32
  tracePacketDefaults : Option (TracePacketDefaults ρ)
  data : PacketData ρ
  other : ρ
  deriving DecidableEq

/-- A `Trace` message: its packets, in order. -/
abbrev Trace (ρ : Type) := List (TracePacket ρ)

end Merge
end VPerfetto
