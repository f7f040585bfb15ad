/-
# Combining two trace files

`combineTraces` of `vperfetto-sdk.cpp` and the three ways it obtains the time
difference: from the configuration, from the guest's boot time at the start of
the host trace, or from the traces themselves (two clock snapshots with the
CPU's cycle counter in each, or the first timestamps). It then shifts the host
trace by the difference or the guest trace by its negative. Either way every
two events are as far apart (`same_timeline`): all arithmetic on times is
modulo 2^64, so nothing depends on the size of the difference.

A `double` is a `Float`. What only goes to stderr is left out.

Key definitions: `TraceCombineConfig`, `getTraceCpuTimeSync`,
`deriveGuestTimeDiff`, `combineTraces`, `times`, `SameTimeline`.
Key theorems: `times_rewriteAddon`, `same_timeline`.
-/
import VPerfetto.Host.Config
import VPerfetto.Merge.Rewrite

namespace VPerfetto
namespace Merge

open Host (getSignedDifference)

variable {ρ : Type}

structure TraceCombineConfig where
  guestFile : String
  hostFile : String
  combinedFile : String
  useGuestAbsoluteTime : Bool := false
  guestClockBootTimeNs : UInt64 := 0
  useGuestTimeDiff : Bool := false
  guestClockTimeDiffNs : Int64 := 0
  guestTscOffset : Int64 := 0
  mergeGuestIntoHost : Bool := false

structure TraceCpuTimeSync where
  cpuTime : UInt64 := 0
  cpuCyclesPerNano : Float := 0
  clockTime : UInt64 := 0
  clockId : UInt32 := 0

/-- `clock.clock_id()`. -/
def Clock.getClockId (c : Clock ρ) : UInt32 := c.clockId.getD 0

/-- `clock.timestamp()`. -/
def Clock.getTimestamp (c : Clock ρ) : UInt64 := c.timestamp.getD 0

/-- The first timestamp of a trace. -/
def getTraceStartTime (P : Protobuf ρ) (trace : Bytes) : UInt64 :=
  match P.parseFromString trace with
  | none => 0
  | some pbtrace => (pbtrace.findSome? TracePacket.timestamp).getD 0

/-- One turn of the loop of `getTraceCpuTimeSync`, on `first` and `last`; clock
64 counts cycles. -/
def syncStep (s : TraceCpuTimeSync × TraceCpuTimeSync) (packet : TracePacket ρ) :
    Option (TraceCpuTimeSync × TraceCpuTimeSync) :=
  match packet.data with
  | .clockSnapshot ⟨[clock0, clock1], _⟩ =>
    let (cpuClock, regClock) := if clock0.getClockId = 64 then (clock0, clock1) else (clock1, clock0)
    if cpuClock.getClockId ≠ 64 then none
    else
      let last := { s.2 with
        clockId := regClock.getClockId
        clockTime := regClock.getTimestamp
        cpuTime := cpuClock.getTimestamp }
      some (if s.1.cpuTime = 0 then last else s.1, last)
  | _ => some s

def getTraceCpuTimeSync (P : Protobuf ρ) (trace : Bytes) : Option TraceCpuTimeSync := do
  let pbtrace ← P.parseFromString trace
  let (first, last) ← pbtrace.foldlM syncStep ({}, {})
  if first.cpuTime ≠ 0 ∧ last.cpuTime ≠ 0 ∧ last.cpuTime > first.cpuTime then
    let elapsedCycles := (last.cpuTime - first.cpuTime).toFloat
    let elapsedNanos := (last.clockTime - first.clockTime).toFloat
    return { last with cpuCyclesPerNano := elapsedCycles / elapsedNanos }
  none

def deriveGuestTimeDiffWithGuestAbsoluteTime (P : Protobuf ρ) (hostTrace : Bytes) (guestBootTimeNs : UInt64) :
    Int64 :=
  getSignedDifference guestBootTimeNs (getTraceStartTime P hostTrace)

/-- A quotient out of the range of `int64_t` is saturated by `toInt64`; the
conversion in the source is undefined there. -/
def deriveGuestTimeDiff (P : Protobuf ρ) (guestTrace hostTrace : Bytes) (tscOffset : Int64) : Int64 :=
  let byStartTimes := getSignedDifference (getTraceStartTime P guestTrace) (getTraceStartTime P hostTrace)
  match getTraceCpuTimeSync P hostTrace, getTraceCpuTimeSync P guestTrace with
  | some hostSync, some guestSync =>
    if hostSync.clockId = guestSync.clockId then
      let guestCpuTime := guestSync.cpuTime - tscOffset.toUInt64
      let cyclesDelta := (getSignedDifference hostSync.cpuTime guestCpuTime).toFloat
      let offsetNs := (cyclesDelta / hostSync.cpuCyclesPerNano).toInt64
      (guestSync.clockTime + offsetNs.toUInt64 - hostSync.clockTime).toInt64
    else byStartTimes
  | _, _ => byStartTimes

def guestTimeDiff (P : Protobuf ρ) (guestTrace hostTrace : Bytes) (config : TraceCombineConfig) : Int64 :=
  if config.useGuestAbsoluteTime then
    deriveGuestTimeDiffWithGuestAbsoluteTime P hostTrace config.guestClockBootTimeNs
  else if config.useGuestTimeDiff then config.guestClockTimeDiffNs
  else deriveGuestTimeDiff P guestTrace hostTrace config.guestTscOffset

/-- The file that is written and its contents; nothing when an input file
cannot be read (its size is -1 and no buffer has this size). -/
def combineTraces (P : Protobuf ρ) (gen : ℕ → UInt64) (files : String → Option Bytes)
    (config : TraceCombineConfig) : Option (String × Bytes) := do
  let guestTrace ← files config.guestFile
  let hostTrace ← files config.hostFile
  let diff := guestTimeDiff P guestTrace hostTrace config
  if config.mergeGuestIntoHost then
    return (config.combinedFile, constructCombinedTrace P gen hostTrace guestTrace (-diff))
  else return (config.combinedFile, constructCombinedTrace P gen guestTrace hostTrace diff)

/-- Both input files are read whole. -/
theorem combineTraces_eq (P : Protobuf ρ) (gen : ℕ → UInt64) {files : String → Option Bytes}
    (config : TraceCombineConfig) {guestTrace hostTrace : Bytes} (hg : files config.guestFile = some guestTrace)
    (hh : files config.hostFile = some hostTrace) :
    combineTraces P gen files config = some (config.combinedFile,
      if config.mergeGuestIntoHost then
        constructCombinedTrace P gen hostTrace guestTrace (-guestTimeDiff P guestTrace hostTrace config)
      else constructCombinedTrace P gen guestTrace hostTrace (guestTimeDiff P guestTrace hostTrace config)) := by
  simp only [combineTraces, hg, hh, Option.bind_eq_bind, Option.bind_some]
  split <;> rfl

/-! ### Timestamps -/

/-- The timestamps of a packet and of its verbose ftrace events. -/
def TracePacket.times (p : TracePacket ρ) : List UInt64 :=
  p.timestamp.toList ++
    match p.data with
    | .ftraceEvents b => b.event.flatMap fun e => e.timestamp.toList
    | _ => []

def times (t : Trace ρ) : List UInt64 := t.flatMap TracePacket.times

/-- The packets of both traces have as many timestamps, one for one. -/
def SamePlaces (t t' : Trace ρ) : Prop :=
  t'.map (fun p => p.times.length) = t.map fun p => p.times.length

/-- What stands at one place of a trace and of two traces made of it. -/
def marks (t t₁ t₂ : Trace ρ) : List (UInt64 × UInt64 × UInt64) := (times t).zip ((times t₁).zip (times t₂))

/-- Guest and host events are equally far apart in both traces made of them,
and events of one trace are as far apart as they were. -/
structure SameTimeline (guest guest₁ guest₂ host host₁ host₂ : Trace ρ) : Prop where
  guest_places : SamePlaces guest guest₁ ∧ SamePlaces guest guest₂
  host_places : SamePlaces host host₁ ∧ SamePlaces host host₂
  between : ∀ x ∈ marks host host₁ host₂, ∀ y ∈ marks guest guest₁ guest₂, x.2.1 - y.2.1 = x.2.2 - y.2.2
  guest_gaps : ∀ x ∈ marks guest guest₁ guest₂, ∀ y ∈ marks guest guest₁ guest₂,
    x.2.1 - y.2.1 = x.1 - y.1 ∧ x.2.2 - y.2.2 = x.1 - y.1
  host_gaps : ∀ x ∈ marks host host₁ host₂, ∀ y ∈ marks host host₁ host₂,
    x.2.1 - y.2.1 = x.1 - y.1 ∧ x.2.2 - y.2.2 = x.1 - y.1

theorem packet_times (maxMain : MaxIds) (diff : Int64) (rename : UInt64 → UInt64) (p : TracePacket ρ) :
    (rewritePacket maxMain diff rename p).times = p.times.map (· + diff.toUInt64) := by
  have hshift : (fun ts : UInt64 => ts + diff.toUInt64) = shiftTime diff := funext (add_toUInt64 diff)
  rw [hshift, TracePacket.times, rewritePacket_data, rewritePacket_timestamp, TracePacket.times, List.map_append]
  congr 1
  · cases p.timestamp <;> rfl
  · cases p.data with
    | ftraceEvents b =>
      simp only [PacketData.rewrite]
      rw [List.flatMap_map, List.map_flatMap]
      apply List.flatMap_congr
      intro e _
      cases h : e.timestamp <;> simp [FtraceEvent.mapPids, FtraceEvent.mapTimestamp, h]
    | _ => rfl

/-- A merge adds the difference to every timestamp of the addon. -/
theorem times_rewriteAddon (gen : ℕ → UInt64) (maxMain : MaxIds) (diff : Int64) (addon : Trace ρ) :
    times (rewriteAddon gen maxMain diff addon) = (times addon).map (· + diff.toUInt64) := by
  rw [rewriteAddon_packets, times, List.flatMap_map, times, List.map_flatMap]
  exact List.flatMap_congr fun p _ => packet_times maxMain diff _ p

theorem samePlaces_refl (t : Trace ρ) : SamePlaces t t := rfl

theorem samePlaces_rewriteAddon (gen : ℕ → UInt64) (maxMain : MaxIds) (diff : Int64) (addon : Trace ρ) :
    SamePlaces addon (rewriteAddon gen maxMain diff addon) := by
  rw [SamePlaces, rewriteAddon_packets, List.map_map]
  apply List.map_congr_left
  intro p _
  rw [Function.comp_apply, packet_times, List.length_map]

theorem mem_marks {t t₁ t₂ : Trace ρ} {d₁ d₂ : UInt64} (h₁ : times t₁ = (times t).map (· + d₁))
    (h₂ : times t₂ = (times t).map (· + d₂)) {x : UInt64 × UInt64 × UInt64} (hx : x ∈ marks t t₁ t₂) :
    x.2.1 = x.1 + d₁ ∧ x.2.2 = x.1 + d₂ := by
  rw [marks, h₁, h₂, List.zip_map'] at hx
  obtain ⟨a, -, rfl⟩ := mem_zip_map.mp hx
  exact ⟨rfl, rfl⟩

/-- Two merges in opposite directions. -/
theorem sameTimeline_of_shift {guest guest₁ guest₂ host host₁ host₂ : Trace ρ} {d g₁ g₂ h₁ h₂ : UInt64}
    (hplaces : (SamePlaces guest guest₁ ∧ SamePlaces guest guest₂) ∧ SamePlaces host host₁ ∧ SamePlaces host host₂)
    (hg₁ : times guest₁ = (times guest).map (· + g₁)) (hg₂ : times guest₂ = (times guest).map (· + g₂))
    (hh₁ : times host₁ = (times host).map (· + h₁)) (hh₂ : times host₂ = (times host).map (· + h₂))
    (hd₁ : h₁ - g₁ = d) (hd₂ : h₂ - g₂ = d) :
    SameTimeline guest guest₁ guest₂ host host₁ host₂ where
  guest_places := hplaces.1
  host_places := hplaces.2
  between x hx y hy := by
    obtain ⟨hx₁, hx₂⟩ := mem_marks hh₁ hh₂ hx
    obtain ⟨hy₁, hy₂⟩ := mem_marks hg₁ hg₂ hy
    rw [hx₁, hx₂, hy₁, hy₂]
    grind
  guest_gaps x hx y hy := by
    obtain ⟨hx₁, hx₂⟩ := mem_marks hg₁ hg₂ hx
    obtain ⟨hy₁, hy₂⟩ := mem_marks hg₁ hg₂ hy
    rw [hx₁, hx₂, hy₁, hy₂]
    constructor <;> grind
  host_gaps x hx y hy := by
    obtain ⟨hx₁, hx₂⟩ := mem_marks hh₁ hh₂ hx
    obtain ⟨hy₁, hy₂⟩ := mem_marks hh₁ hh₂ hy
    rw [hx₁, hx₂, hy₁, hy₂]
    constructor <;> grind

theorem map_add_zero (l : List UInt64) : l.map (· + 0) = l := by
  simp

/-- **Both directions show the same timeline.** -/
theorem same_timeline {P : Protobuf ρ} (hP : P.Lawful) (gen gen' : ℕ → UInt64) (files : String → Option Bytes)
    (config : TraceCombineConfig) {guestTrace hostTrace : Bytes} {guest host : Trace ρ}
    (hg : files config.guestFile = some guestTrace) (hh : files config.hostFile = some hostTrace)
    (hG : P.parseFromString guestTrace = some guest) (hH : P.parseFromString hostTrace = some host) :
    ∃ file₁ file₂ guest₁ host₁ guest₂ host₂,
      combineTraces P gen files { config with mergeGuestIntoHost := false } = some (config.combinedFile, file₁) ∧
      P.parseFromString file₁ = some (guest₁ ++ host₁) ∧
      combineTraces P gen' files { config with mergeGuestIntoHost := true } = some (config.combinedFile, file₂) ∧
      P.parseFromString file₂ = some (host₂ ++ guest₂) ∧
      SameTimeline guest guest₁ guest₂ host host₁ host₂ := by
  set diff := guestTimeDiff P guestTrace hostTrace config with hdiff
  have hone : combineTraces P gen files { config with mergeGuestIntoHost := false } =
      some (config.combinedFile, constructCombinedTrace P gen guestTrace hostTrace diff) :=
    combineTraces_eq P gen { config with mergeGuestIntoHost := false } hg hh
  have htwo : combineTraces P gen' files { config with mergeGuestIntoHost := true } =
      some (config.combinedFile, constructCombinedTrace P gen' hostTrace guestTrace (-diff)) :=
    combineTraces_eq P gen' { config with mergeGuestIntoHost := true } hg hh
  refine ⟨_, _, guest, rewriteAddon gen (sCalcMaxIds P gen guestTrace) diff host,
    rewriteAddon gen' (sCalcMaxIds P gen' hostTrace) (-diff) guest, host, hone, ?_, htwo, ?_, ?_⟩
  · rw [constructCombinedTrace_eq P gen guestTrace diff hH]
    exact hP.parse_append _ _ _ _ hG (hP.parse_serialize _)
  · rw [constructCombinedTrace_eq P gen' hostTrace (-diff) hG]
    exact hP.parse_append _ _ _ _ hH (hP.parse_serialize _)
  · refine sameTimeline_of_shift (d := diff.toUInt64) ?_ (map_add_zero _).symm (times_rewriteAddon gen' _ _ _)
      (times_rewriteAddon gen _ _ _) (map_add_zero _).symm ?_ ?_
    · exact ⟨⟨samePlaces_refl _, samePlaces_rewriteAddon _ _ _ _⟩, samePlaces_rewriteAddon _ _ _ _,
        samePlaces_refl _⟩
    · rw [UInt64.sub_zero]
    · rw [Int64.toUInt64_neg]
      grind

/-- A guest file with a packet at time 5 and a host file with one at time 9. -/
def twoFiles (f : String) : Option Bytes := if f = "guest" then some [10, 2, 64, 5] else some [10, 2, 64, 9]

/-- The difference is -4 and comes from the configuration. -/
theorem same_timeline_config :
    ∃ file₁ file₂ guest₁ host₁ guest₂ host₂,
      combineTraces wire (fun _ => 9) twoFiles
        ⟨"guest", "host", "combined", false, 0, true, -4, 0, false⟩ = some ("combined", file₁) ∧
      wire.parseFromString file₁ = some (guest₁ ++ host₁) ∧
      combineTraces wire (fun _ => 8) twoFiles
        ⟨"guest", "host", "combined", false, 0, true, -4, 0, true⟩ = some ("combined", file₂) ∧
      wire.parseFromString file₂ = some (host₂ ++ guest₂) ∧
      SameTimeline [⟨some 5, none, none, none, .notSet, ()⟩] guest₁ guest₂
        [⟨some 9, none, none, none, .notSet, ()⟩] host₁ host₂ := by
  have hG : wire.parseFromString [10, 2, 64, 5] = some [⟨some 5, none, none, none, .notSet, ()⟩] := by
    decide +kernel
  have hH : wire.parseFromString [10, 2, 64, 9] = some [⟨some 9, none, none, none, .notSet, ()⟩] := by
    decide +kernel
  exact same_timeline wire_lawful (fun _ => 9) (fun _ => 8) twoFiles
    ⟨"guest", "host", "combined", false, 0, true, -4, 0, false⟩ rfl rfl hG hH

end Merge
end VPerfetto
