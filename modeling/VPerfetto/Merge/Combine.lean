/-
# Merging two traces

`sCalcMaxIds` and `constructCombinedTrace` of `vperfetto-sdk.cpp`. The
protobuf runtime is a parameter: `ParseFromString` and `SerializeToString`
of a `Trace`. Unsigned and signed 32-bit values convert as in C++, so the
offsets wrap modulo 2^32 where the code's do.

Key definitions: `Protobuf`, `sCalcMaxIds`, `rewriteAddon`,
`constructCombinedTrace`.
-/
import VPerfetto.Merge.Iterate

namespace VPerfetto
namespace Merge

abbrev Bytes := List UInt8

/-- The protobuf runtime, at `::perfetto::protos::Trace`. -/
structure Protobuf (ρ : Type) where
  parseFromString : Bytes → Option (Trace ρ)
  serializeToString : Trace ρ → Bytes

/-- What is assumed of the protobuf runtime: parsing undoes serializing, and
concatenating two encodings concatenates their packets. -/
structure Protobuf.Lawful {ρ : Type} (P : Protobuf ρ) : Prop where
  parse_serialize : ∀ t, P.parseFromString (P.serializeToString t) = some t
  parse_append : ∀ a b s t, P.parseFromString a = some s → P.parseFromString b = some t →
    P.parseFromString (a ++ b) = some (s ++ t)

variable {ρ : Type}

/-- The out-parameters of `sCalcMaxIds`. -/
structure MaxIds where
  trustedUid : UInt32 := 0
  sequenceId : UInt32 := 0
  pid : UInt32 := 0
  tid : UInt32 := 0
  cpu : UInt32 := 0
  deriving DecidableEq

/-- The callbacks `sCalcMaxIds` passes: each records a larger value and
returns its argument. -/
def maxCallbacks : IdCallbacks (StateM MaxIds) where
  forEachTrustedUid uid := do
    modify fun s => if uid > s.trustedUid then { s with trustedUid := uid } else s
    return uid
  forEachSequenceId seqid := do
    modify fun s => if seqid > s.sequenceId then { s with sequenceId := seqid } else s
    return seqid
  forEachPid pid := do
    let pid := pid.toUInt32
    modify fun s => if pid > s.pid then { s with pid := pid } else s
    return pid.toInt32
  forEachTid tid := do
    let tid := tid.toUInt32
    modify fun s => if tid > s.tid then { s with tid := tid } else s
    return tid.toInt32
  forEachCpu cpu := do
    let cpu := cpu.toUInt32
    modify fun s => if cpu > s.cpu then { s with cpu := cpu } else s
    return cpu.toInt32

/-- A trace that does not parse leaves every maximum 0. -/
def sCalcMaxIds (P : Protobuf ρ) (gen : ℕ → UInt64) (trace : Bytes) : MaxIds :=
  match P.parseFromString trace with
  | none => {}
  | some pbtrace => ((iterateTraceIds gen pbtrace maxCallbacks).run {}).2

/-- The mutator of `constructCombinedTrace`; its `needReplace` is never set. -/
def clearSnapshotAndServiceEvent (packet : TracePacket ρ) : TracePacket ρ :=
  { packet with
    data := match packet.data with
      | .clockSnapshot _ => .notSet
      | .serviceEvent _ => .notSet
      | data => data }

/-- The callbacks `constructCombinedTrace` passes: offsets by the main
trace's maxima. -/
def offsetCallbacks (maxMain : MaxIds) : IdCallbacks Id where
  forEachTrustedUid uid := uid + maxMain.trustedUid
  forEachSequenceId seqid := seqid + maxMain.sequenceId
  forEachPid pid := if pid = 0 then 0 else (pid.toUInt32 + maxMain.pid).toInt32
  forEachTid tid := if tid = 0 then 0 else (tid.toUInt32 + maxMain.tid).toInt32
  forEachCpu cpu := (cpu.toUInt32 + maxMain.cpu + 1).toInt32

/-- The three passes over the parsed addon trace. -/
def rewriteAddon (gen : ℕ → UInt64) (maxMain : MaxIds) (mainTimeDiff : Int64) (addon : Trace ρ) :
    Trace ρ :=
  let pbtrace := mutateTracePackets addon clearSnapshotAndServiceEvent
  let pbtrace := iterateTraceTimestamps pbtrace fun ts => ts + mainTimeDiff.toUInt64
  (iterateTraceIds gen pbtrace (offsetCallbacks maxMain)).run

def constructCombinedTrace (P : Protobuf ρ) (gen : ℕ → UInt64) (mainTrace addonTrace : Bytes)
    (mainTimeDiff : Int64) : Bytes :=
  let maxMain := sCalcMaxIds P gen mainTrace
  match P.parseFromString addonTrace with
  | none => []
  | some addon => mainTrace ++ P.serializeToString (rewriteAddon gen maxMain mainTimeDiff addon)

end Merge
end VPerfetto
