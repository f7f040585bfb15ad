/-
# The schema on the wire

A codec for the modelled part of `perfetto_trace.proto`, with the field
numbers of the schema, for messages without other fields (`ρ = Unit`; a case
of a oneof the merge does not look into is an empty `for_testing` packet or
an empty `print` event). It satisfies what the merge assumes of the protobuf
runtime (`wire_lawful`). Repeated numbers are written one by one, which
parsers accept as well as the packed form.

Key definitions: `wire`. Key theorem: `wire_lawful`.
-/
import VPerfetto.Lib.Message
import VPerfetto.Merge.Combine

namespace VPerfetto
namespace Merge

open Wire ValueCodec

/-! ### Messages below a packet -/

def clockCodec : ValueCodec (Clock Unit) :=
  message (fun c => optField uint32 1 c.clockId ++ optField uint64 2 c.timestamp)
    (fun fs => ⟨getLast uint32 1 fs, getLast uint64 2 fs, ()⟩)
    (fun c => by simp [getLast])

def clockSnapshotCodec : ValueCodec (ClockSnapshot Unit) :=
  message (fun cs => repField clockCodec 1 cs.clocks) (fun fs => ⟨getAll clockCodec 1 fs, ()⟩)
    (fun cs => by simp)

/-- A scheduling event with one pid. -/
def pidCodec (n : ℕ) : ValueCodec (Option Int32) :=
  message (optField int32 n) (getLast int32 n) (fun o => by simp [getLast])

/-- A scheduling event with two pids. -/
def pidPairCodec (n k : ℕ) (h : n ≠ k) : ValueCodec (Option Int32 × Option Int32) :=
  message (fun p => optField int32 n p.1 ++ optField int32 k p.2)
    (fun fs => (getLast int32 n fs, getLast int32 k fs))
    (fun p => by simp [getLast, h, h.symm])

/-- A message without fields. -/
def emptyCodec : ValueCodec Unit := message (fun _ => []) (fun _ => ()) (fun _ => rfl)

def FtraceEventData.toFields : FtraceEventData Unit → List Field
  | .notSet => []
  | .schedSwitch a b _ => [(4, (pidPairCodec 2 6 (by decide)).enc (a, b))]
  | .schedWakeup a _ => [(17, (pidCodec 2).enc a)]
  | .schedBlockedReason a _ => [(18, (pidCodec 1).enc a)]
  | .schedWaking a _ => [(20, (pidCodec 2).enc a)]
  | .schedWakeupNew a _ => [(114, (pidCodec 2).enc a)]
  | .schedProcessExec a b _ => [(237, (pidPairCodec 2 3 (by decide)).enc (a, b))]
  | .schedProcessExit a b _ => [(238, (pidPairCodec 2 3 (by decide)).enc (a, b))]
  | .schedProcessFork a b _ => [(239, (pidPairCodec 2 4 (by decide)).enc (a, b))]
  | .schedProcessFree a _ => [(240, (pidCodec 2).enc a)]
  | .schedProcessHang a _ => [(241, (pidCodec 2).enc a)]
  | .schedProcessWait a _ => [(242, (pidCodec 2).enc a)]
  | .otherEvent _ => [(3, emptyCodec.enc ())]

/-- The case a field of an `FtraceEvent` sets, if it is one of the oneof's. -/
def FtraceEventData.ofField : Field → Option (FtraceEventData Unit)
  | (4, v) => ((pidPairCodec 2 6 (by decide)).dec v).map fun p => .schedSwitch p.1 p.2 ()
  | (17, v) => ((pidCodec 2).dec v).map (.schedWakeup · ())
  | (18, v) => ((pidCodec 1).dec v).map (.schedBlockedReason · ())
  | (20, v) => ((pidCodec 2).dec v).map (.schedWaking · ())
  | (114, v) => ((pidCodec 2).dec v).map (.schedWakeupNew · ())
  | (237, v) => ((pidPairCodec 2 3 (by decide)).dec v).map fun p => .schedProcessExec p.1 p.2 ()
  | (238, v) => ((pidPairCodec 2 3 (by decide)).dec v).map fun p => .schedProcessExit p.1 p.2 ()
  | (239, v) => ((pidPairCodec 2 4 (by decide)).dec v).map fun p => .schedProcessFork p.1 p.2 ()
  | (240, v) => ((pidCodec 2).dec v).map (.schedProcessFree · ())
  | (241, v) => ((pidCodec 2).dec v).map (.schedProcessHang · ())
  | (242, v) => ((pidCodec 2).dec v).map (.schedProcessWait · ())
  | (3, v) => (emptyCodec.dec v).map fun _ => .otherEvent ()
  | _ => none

def FtraceEventData.ofFields (fs : List Field) : FtraceEventData Unit :=
  (fs.filterMap FtraceEventData.ofField).getLast?.getD .notSet

theorem ftraceEventData_ofFields (e : FtraceEventData Unit) (fs : List Field)
    (h : fs.filterMap FtraceEventData.ofField = []) :
    FtraceEventData.ofFields (fs ++ e.toFields) = e := by
  cases e <;> simp [FtraceEventData.ofFields, FtraceEventData.toFields, h, FtraceEventData.ofField]

theorem ftraceEventData_getAll {α : Type} (c : ValueCodec α) (n : ℕ) (hn : n = 1 ∨ n = 2)
    (e : FtraceEventData Unit) : getAll c n e.toFields = [] := by
  rcases hn with rfl | rfl <;> cases e <;> simp [FtraceEventData.toFields]

def ftraceEventCodec : ValueCodec (FtraceEvent Unit) :=
  message (fun e => (optField uint64 1 e.timestamp ++ optField uint32 2 e.pid) ++ e.event.toFields)
    (fun fs => ⟨getLast uint64 1 fs, getLast uint32 2 fs, FtraceEventData.ofFields fs, ()⟩)
    (fun e => by
      have h : (optField uint64 1 e.timestamp ++ optField uint32 2 e.pid).filterMap
          FtraceEventData.ofField = [] := by
        rw [List.filterMap_append]
        rw [filterMap_optField _ _ _ _ fun _ => rfl, filterMap_optField _ _ _ _ fun _ => rfl]
        rfl
      rw [ftraceEventData_ofFields _ _ h]
      simp [getLast, ftraceEventData_getAll])

def compactSchedCodec : ValueCodec (CompactSched Unit) :=
  message (fun c => repField uint64 1 c.switchTimestamp ++ repField int32 3 c.switchNextPid ++
      repField uint64 7 c.wakingTimestamp ++ repField int32 8 c.wakingPid)
    (fun fs => ⟨getAll uint64 1 fs, getAll int32 3 fs, getAll uint64 7 fs, getAll int32 8 fs, ()⟩)
    (fun c => by simp)

def bundleCodec : ValueCodec (FtraceEventBundle Unit) :=
  message (fun b => optField uint32 1 b.cpu ++ repField ftraceEventCodec 2 b.event ++
      optField compactSchedCodec 4 b.compactSched)
    (fun fs => ⟨getLast uint32 1 fs, getAll ftraceEventCodec 2 fs, getLast compactSchedCodec 4 fs, ()⟩)
    (fun b => by simp [getLast])

def trackEventCodec : ValueCodec (TrackEvent Unit) :=
  message (fun te => optField uint64 11 te.trackUuid ++ repField uint64 31 te.extraCounterTrackUuids)
    (fun fs => ⟨getLast uint64 11 fs, getAll uint64 31 fs, ()⟩)
    (fun te => by simp [getLast])

def trackEventDefaultsCodec : ValueCodec (TrackEventDefaults Unit) :=
  message (fun ted => optField uint64 11 ted.trackUuid ++ repField uint64 31 ted.extraCounterTrackUuids)
    (fun fs => ⟨getLast uint64 11 fs, getAll uint64 31 fs, ()⟩)
    (fun ted => by simp [getLast])

def tracePacketDefaultsCodec : ValueCodec (TracePacketDefaults Unit) :=
  message (fun tpd => optField trackEventDefaultsCodec 11 tpd.trackEventDefaults)
    (fun fs => ⟨getLast trackEventDefaultsCodec 11 fs, ()⟩)
    (fun tpd => by simp [getLast])

def processDescriptorCodec : ValueCodec (ProcessDescriptor Unit) :=
  message (fun p => optField int32 1 p.pid) (fun fs => ⟨getLast int32 1 fs, ()⟩)
    (fun p => by simp [getLast])

def threadDescriptorCodec : ValueCodec (ThreadDescriptor Unit) :=
  message (fun t => optField int32 1 t.pid ++ optField int32 2 t.tid)
    (fun fs => ⟨getLast int32 1 fs, getLast int32 2 fs, ()⟩)
    (fun t => by simp [getLast])

def trackDescriptorCodec : ValueCodec (TrackDescriptor Unit) :=
  message (fun trd => optField uint64 1 trd.uuid ++ optField processDescriptorCodec 3 trd.process ++
      optField threadDescriptorCodec 4 trd.thread ++ optField uint64 5 trd.parentUuid)
    (fun fs => ⟨getLast uint64 1 fs, getLast uint64 5 fs, getLast processDescriptorCodec 3 fs,
      getLast threadDescriptorCodec 4 fs, ()⟩)
    (fun trd => by simp [getLast])

def processCodec : ValueCodec (Process Unit) :=
  message (fun p => optField int32 1 p.pid ++ optField int32 2 p.ppid)
    (fun fs => ⟨getLast int32 1 fs, getLast int32 2 fs, ()⟩)
    (fun p => by simp [getLast])

def threadCodec : ValueCodec (Thread Unit) :=
  message (fun t => optField int32 1 t.tid ++ optField int32 3 t.tgid)
    (fun fs => ⟨getLast int32 1 fs, getLast int32 3 fs, ()⟩)
    (fun t => by simp [getLast])

def processTreeCodec : ValueCodec (ProcessTree Unit) :=
  message (fun pt => repField processCodec 1 pt.processes ++ repField threadCodec 2 pt.threads)
    (fun fs => ⟨getAll processCodec 1 fs, getAll threadCodec 2 fs, ()⟩)
    (fun pt => by simp)

/-! ### Packets -/

def PacketData.toFields : PacketData Unit → List Field
  | .notSet => []
  | .processTree pt => [(2, processTreeCodec.enc pt)]
  | .clockSnapshot cs => [(6, clockSnapshotCodec.enc cs)]
  | .trackEvent te => [(11, trackEventCodec.enc te)]
  | .serviceEvent _ => [(69, emptyCodec.enc ())]
  | .trackDescriptor trd => [(60, trackDescriptorCodec.enc trd)]
  | .ftraceEvents b => [(1, bundleCodec.enc b)]
  | .otherData _ => [(900, emptyCodec.enc ())]

/-- The case a field of a `TracePacket` sets, if it is one of the oneof's. -/
def PacketData.ofField : Field → Option (PacketData Unit)
  | (2, v) => (processTreeCodec.dec v).map .processTree
  | (6, v) => (clockSnapshotCodec.dec v).map .clockSnapshot
  | (11, v) => (trackEventCodec.dec v).map .trackEvent
  | (69, v) => (emptyCodec.dec v).map .serviceEvent
  | (60, v) => (trackDescriptorCodec.dec v).map .trackDescriptor
  | (1, v) => (bundleCodec.dec v).map .ftraceEvents
  | (900, v) => (emptyCodec.dec v).map .otherData
  | _ => none

def PacketData.ofFields (fs : List Field) : PacketData Unit :=
  (fs.filterMap PacketData.ofField).getLast?.getD .notSet

theorem packetData_ofFields (d : PacketData Unit) (fs : List Field)
    (h : fs.filterMap PacketData.ofField = []) : PacketData.ofFields (fs ++ d.toFields) = d := by
  cases d <;> simp [PacketData.ofFields, PacketData.toFields, h, PacketData.ofField]

theorem packetData_getAll {α : Type} (c : ValueCodec α) (n : ℕ)
    (hn : n = 3 ∨ n = 8 ∨ n = 10 ∨ n = 59) (d : PacketData Unit) : getAll c n d.toFields = [] := by
  rcases hn with rfl | rfl | rfl | rfl <;> cases d <;> simp [PacketData.toFields]

/-- The fields of a packet outside the `data` oneof. -/
def TracePacket.plainFields (p : TracePacket Unit) : List Field :=
  optField int32 3 p.trustedUid ++ optField uint64 8 p.timestamp ++
    optField uint32 10 p.trustedPacketSequenceId ++
    optField tracePacketDefaultsCodec 59 p.tracePacketDefaults

theorem plainFields_ofField (p : TracePacket Unit) :
    p.plainFields.filterMap PacketData.ofField = [] := by
  simp only [TracePacket.plainFields, List.filterMap_append]
  rw [filterMap_optField _ _ _ _ fun _ => rfl, filterMap_optField _ _ _ _ fun _ => rfl,
    filterMap_optField _ _ _ _ fun _ => rfl, filterMap_optField _ _ _ _ fun _ => rfl]
  rfl

def tracePacketCodec : ValueCodec (TracePacket Unit) :=
  message (fun p => p.plainFields ++ p.data.toFields)
    (fun fs => ⟨getLast uint64 8 fs, getLast int32 3 fs, getLast uint32 10 fs,
      getLast tracePacketDefaultsCodec 59 fs, PacketData.ofFields fs, ()⟩)
    (fun p => by
      rw [packetData_ofFields _ _ (plainFields_ofField p)]
      simp [getLast, packetData_getAll, TracePacket.plainFields])

/-- The runtime for messages without other fields. -/
def wire : Protobuf Unit where
  parseFromString b := (decodeFields b).map (getAll tracePacketCodec 1)
  serializeToString t := encodeFields (repField tracePacketCodec 1 t)

theorem wire_lawful : wire.Lawful where
  parse_serialize t := by simp [wire]
  parse_append a b s t ha hb := by
    obtain ⟨fs, hfs, rfl⟩ := Option.map_eq_some_iff.mp ha
    obtain ⟨gs, hgs, rfl⟩ := Option.map_eq_some_iff.mp hb
    simp [wire, decodeFields_append hfs hgs]

end Merge
end VPerfetto
