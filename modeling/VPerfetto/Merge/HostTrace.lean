/-
# Merging a host trace

`vperfetto_merge` takes a host trace that `vperfetto.cpp` wrote and merges it
into a guest trace. Host packets are `TracePacket`s whose other fields the
merge carries along: it moves their sequence id and their timestamps, and as
none of them describes a process or a thread, no track uuid.

So whatever guest trace it is merged into, the host's part of the combined
trace shows what the host recorded, on the tracks it had and all of it later
by one constant (`merged_host_file`).

Key definitions: `HostOther`, `TracePacket.ofHost`, `TracePacket.toHost`, `movedPacket`.
Key theorems: `rewriteAddon_host`, `merged_host_file`.
-/
import VPerfetto.Host.OwnFiles
import VPerfetto.Merge.Rewrite

namespace VPerfetto
namespace Merge

open Host Tables

/-- What the merge does not look at in the messages of a host trace. -/
inductive HostOther where
  | packet (sequenceFlags : Option UInt32) (internedData : Option InternedData)
  | event (categoryIids : List UInt64) (nameIid : Option UInt64) (type : Option UInt32) (counterValue : Option Int64)
  | track (name : Option Bytes) (isCounter : Bool)
deriving DecidableEq

/-- A host packet as the merge sees it. -/
def TracePacket.ofHost (p : HostPacket) : TracePacket HostOther where
  timestamp := p.timestamp
  trustedUid := none
  trustedPacketSequenceId := p.trustedPacketSequenceId
  tracePacketDefaults := none
  data := match p.trackEvent, p.trackDescriptor with
    | some ev, _ => .trackEvent ⟨ev.trackUuid, [], .event ev.categoryIids ev.nameIid ev.type ev.counterValue⟩
    | none, some trd => .trackDescriptor ⟨trd.uuid, none, none, none, .track trd.name trd.isCounter⟩
    | none, none => .notSet
  other := .packet p.sequenceFlags p.internedData

/-- And as a reader of the host's events sees it again. -/
def TracePacket.toHost (p : TracePacket HostOther) : HostPacket where
  timestamp := p.timestamp
  trustedPacketSequenceId := p.trustedPacketSequenceId
  sequenceFlags := match p.other with
    | .packet sequenceFlags _ => sequenceFlags
    | _ => none
  internedData := match p.other with
    | .packet _ internedData => internedData
    | _ => none
  trackEvent := match p.data with
    | .trackEvent ⟨uuid, _, .event categoryIids nameIid type value⟩ => some ⟨categoryIids, nameIid, type, uuid, value⟩
    | _ => none
  trackDescriptor := match p.data with
    | .trackDescriptor ⟨uuid, _, _, _, .track name isCounter⟩ => some ⟨uuid, name, isCounter⟩
    | _ => none

/-- What the merge changes of a host packet. -/
def movedPacket (maxMain : MaxIds) (diff : Int64) (p : HostPacket) : HostPacket :=
  { p with
    timestamp := p.timestamp.map (· + diff.toUInt64)
    trustedPacketSequenceId := p.trustedPacketSequenceId.map (· + maxMain.sequenceId) }

/-- An event with its timestamp moved. -/
def later (diff : Int64) (e : ShownEvent) : ShownEvent := { e with timestamp := e.timestamp + diff.toUInt64 }

section

variable {maxMain : MaxIds} {diff : Int64} {gen : ℕ → UInt64}

/-! ### What the merge does to host packets -/

/-- Nothing in a host trace has a pid that moves. -/
theorem renamedUuid_host (gen : ℕ → UInt64) (maxMain : MaxIds) (ps : List HostPacket) :
    renamedUuid gen maxMain (ps.map TracePacket.ofHost) = id := by
  have hpids : ∀ p ∈ ps.map TracePacket.ofHost, p.descriptorPids = [] := by
    intro p hp
    obtain ⟨q, -, rfl⟩ := List.mem_map.mp hp
    unfold TracePacket.descriptorPids TracePacket.ofHost
    rcases q.trackEvent with _ | ev <;> rcases q.trackDescriptor with _ | trd <;> rfl
  unfold renamedUuid uuidRemap
  rw [List.flatMap_eq_nil_iff.mpr hpids]
  rfl

theorem toHost_rewritePacket (p : Packet) :
    (rewritePacket maxMain diff id (TracePacket.ofHost p.record)).toHost = movedPacket maxMain diff p.record := by
  have htime : shiftTime diff = (· + diff.toUInt64) := funext fun ts => (add_toUInt64 diff ts).symm
  unfold rewritePacket
  rw [htime, mapUuids_id]
  cases p <;> rfl

theorem rewriteAddon_host (gen : ℕ → UInt64) (ps : List Packet) :
    (rewriteAddon gen maxMain diff ((ps.map Packet.record).map TracePacket.ofHost)).map TracePacket.toHost =
      (ps.map Packet.record).map (movedPacket maxMain diff) := by
  rw [rewriteAddon_packets, renamedUuid_host, List.map_map, List.map_map, List.map_map, List.map_map]
  exact List.map_congr_left fun p _ => toHost_rewritePacket p

theorem record_sequenceId (p : Packet) :
    p.record.trustedPacketSequenceId = none ∨ p.record.trustedPacketSequenceId = some 1 := by
  cases p
  case counterTrack => exact Or.inl rfl
  all_goals exact Or.inr rfl

/-- The host's packets keep being of one sequence. -/
theorem rewriteAddon_host_sequenceId {ps : List Packet} {p : TracePacket HostOther}
    (hp : p ∈ rewriteAddon gen maxMain diff ((ps.map Packet.record).map TracePacket.ofHost)) :
    ∀ id ∈ p.trustedPacketSequenceId, id = 1 + maxMain.sequenceId := by
  intro id hid
  rw [rewriteAddon_packets, List.map_map, List.map_map] at hp
  obtain ⟨q, -, rfl⟩ := List.mem_map.mp hp
  have hmoved : id ∈ q.record.trustedPacketSequenceId.map (· + maxMain.sequenceId) := hid
  obtain ⟨old, hold, rfl⟩ := Option.map_eq_some_iff.mp hmoved
  rcases record_sequenceId q with hq | hq
  · exact absurd (hq.symm.trans hold) (Option.some_ne_none _).symm
  · rw [Option.some.inj (hold.symm.trans hq)]

/-! ### What a reader makes of them -/

theorem learn_movedPacket (s : ReaderState) (p : HostPacket) : s.learn (movedPacket maxMain diff p) = s.learn p := rfl

theorem look_movedPacket (s : ReaderState) (p : HostPacket) :
    s.look (movedPacket maxMain diff p) = (s.look p).map (Option.map (later diff)) := by
  unfold ReaderState.look movedPacket
  dsimp only
  show (if p.needsState && !s.cleared then none else _) = (if p.needsState && !s.cleared then none else _).map _
  split
  · rfl
  · cases p.trackEvent with
    | none => rfl
    | some ev =>
      dsimp only
      cases ev.trackUuid with
      | none => rfl
      | some track =>
        simp only [Option.bind_eq_bind, Option.bind_some]
        cases s.tracks.lookup track with
        | none => rfl
        | some name => cases p.timestamp <;> cases s.action ev <;> rfl

/-! ### Host files -/

variable {strings : Ptr → Bytes} {fuel : ℕ}

/-- **A merged host trace shows what the host recorded.** Whatever trace a
host file is merged into, and whatever a reader has read before, the part of
the combined trace that comes from the host file has one sequence id, the one
after those of the main trace, and reads as the file does, later by `diff`. -/
theorem merged_host_file (hfuel : 2 < fuel) {s : HostState × Recorder} (hr : BothReach strings fuel s) {f : String}
    {file : Bytes} (hdisk : s.1.disk f = some file) :
    ∃ recorded ps shown, s.2.files f = some recorded ∧ Shows file recorded ∧
      decodeTrace file = some ps ∧ readTrace file = some shown ∧
      ∀ gen maxMain diff old,
        (∀ p ∈ rewriteAddon gen maxMain diff (ps.map TracePacket.ofHost),
          ∀ id ∈ p.trustedPacketSequenceId, id = 1 + maxMain.sequenceId) ∧
        readAll ReaderState.learn ReaderState.look old
            ((rewriteAddon gen maxMain diff (ps.map TracePacket.ofHost)).map TracePacket.toHost) =
          some (shown.map (later diff)) := by
  obtain ⟨recorded, hrecorded, hshows⟩ := recording_of_disk hfuel hr hdisk
  obtain ⟨shown, hread⟩ := hshows.readable
  obtain ⟨ps, hps, hstart⟩ := disk_records hfuel (bothReach_host hr) hdisk
  refine ⟨recorded, ps.map Packet.record, shown, hrecorded, hshows, hps, hread, fun gen maxMain diff old => ⟨?_, ?_⟩⟩
  · exact fun p hp => rewriteAddon_host_sequenceId hp
  · have hclears := records_clear hstart
    have hall : readAll ReaderState.learn ReaderState.look {} (ps.map Packet.record) = some shown := by
      unfold readTrace at hread
      rwa [hps, Option.bind_some] at hread
    rw [rewriteAddon_host, readAll_image learn_movedPacket look_movedPacket, readAll_of_clears hclears hall]
    rfl

end

end Merge
end VPerfetto
