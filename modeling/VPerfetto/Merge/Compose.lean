/-
# Merging three traces

What a merge makes of the addon is a change of ids, times and uuids packet by
packet, and changes compose (`change_change`): two moves by the maxima of two
main traces are one move by their sum, in which a cpu is moved by one more
for each move (`move_move`).

So it does not matter in which order three traces are merged, the generated
uuids apart, except for one case: the maximum over no cpus is 0, as it is over
the cpu 0, and the next trace's cpus then come out one lower. And a move can
be undone, so what the merge keeps of a packet can be got back.

Key definitions: `TracePacket.change`, `MaxIds.plus`, `MaxIds.undo`,
`TracePacket.withoutUuids`, `TracePacket.kept`.
Key theorems: `change_change`, `rewritePacket_rewritePacket`, `merge_assoc_iff`,
`merge_keeps_iff`.
-/
import VPerfetto.Merge.Rewrite

namespace VPerfetto
namespace Merge

variable {ρ : Type}

/-! ### Changes of a packet -/

def PacketData.change (g : IdMap) (shift rename : UInt64 → UInt64) : PacketData ρ → PacketData ρ
  | .ftraceEvents b => .ftraceEvents
    { b with
      cpu := b.cpu.map fun cpu => (g.cpu cpu.toInt32).toUInt32
      event := b.event.map fun e => (e.mapTimestamp shift).mapPids g.pid }
  | .processTree pt => .processTree (pt.mapIds g)
  | .trackDescriptor trd => .trackDescriptor
    { trd.mapPids g.pid with uuid := trd.uuid.map rename, parentUuid := trd.parentUuid.map rename }
  | .trackEvent te => .trackEvent { te with trackUuid := te.trackUuid.map rename }
  | .clockSnapshot _ => .notSet
  | .serviceEvent _ => .notSet
  | .notSet => .notSet
  | .otherData o => .otherData o

/-- A packet with its ids, times and uuids mapped, without clock snapshots and
service events. -/
def TracePacket.change (g : IdMap) (shift rename : UInt64 → UInt64) (p : TracePacket ρ) : TracePacket ρ where
  timestamp := p.timestamp.map shift
  trustedUid := p.trustedUid.map fun uid => (g.trustedUid uid.toUInt32).toInt32
  trustedPacketSequenceId := p.trustedPacketSequenceId.map g.sequenceId
  tracePacketDefaults := p.tracePacketDefaults.map (TracePacketDefaults.mapUuids rename)
  data := p.data.change g shift rename
  other := p.other

/-- `g` after `f`. -/
def IdMap.comp (g f : IdMap) : IdMap where
  trustedUid := g.trustedUid ∘ f.trustedUid
  sequenceId := g.sequenceId ∘ f.sequenceId
  pid := g.pid ∘ f.pid
  tid := g.tid ∘ f.tid
  cpu := g.cpu ∘ f.cpu

/-- The two maps do the same to every id of a packet, and to a pid of 0. -/
structure IdMap.AgreeOn (f g : IdMap) (vs : List Visit) : Prop where
  visits : ∀ v ∈ vs, v.map f = v.map g
  zero : f.pid 0 = g.pid 0

section

variable {f g : IdMap} {shift shift' rename rename' : UInt64 → UInt64}

theorem mapNonzero_of_zero {g : Int32 → Int32} (h : g 0 = 0) (o : Option Int32) : mapNonzero g o = o.map g := by
  cases o with
  | none => rfl
  | some p =>
    by_cases hp : p = 0
    · simp [mapNonzero, hp, h]
    · simp [mapNonzero, hp]

theorem mapPids_mapPids {f g : Int32 → Int32} (hf : f 0 = 0) (hg : g 0 = 0) (e : FtraceEventData ρ) :
    (e.mapPids f).mapPids g = e.mapPids (g ∘ f) := by
  have hgf : (g ∘ f) 0 = 0 := by simp [hf, hg]
  cases e <;>
    simp only [FtraceEventData.mapPids, mapNonzero_of_zero hf, mapNonzero_of_zero hg, mapNonzero_of_zero hgf,
      Option.map_map]

theorem event_change_change (hf : f.pid 0 = 0) (hg : g.pid 0 = 0) (shift shift' : UInt64 → UInt64) (e : FtraceEvent ρ) :
    (((e.mapTimestamp shift).mapPids f.pid).mapTimestamp shift').mapPids g.pid
      = (e.mapTimestamp (shift' ∘ shift)).mapPids (g.pid ∘ f.pid) := by
  have hdata := mapPids_mapPids hf hg e.event
  simp [FtraceEvent.mapPids, FtraceEvent.mapTimestamp, hdata, Option.map_map, Function.comp_def]

theorem mapUuids_mapUuids (tpd : TracePacketDefaults ρ) :
    (tpd.mapUuids rename).mapUuids rename' = tpd.mapUuids (rename' ∘ rename) := by
  simp [TracePacketDefaults.mapUuids, Option.map_map, Function.comp_def]

theorem data_change_change (hf : f.pid 0 = 0) (hg : g.pid 0 = 0) (shift shift' rename rename' : UInt64 → UInt64)
    (d : PacketData ρ) :
    (d.change f shift rename).change g shift' rename'
      = d.change (g.comp f) (shift' ∘ shift) (rename' ∘ rename) := by
  cases d with
  | notSet | clockSnapshot cs | serviceEvent o | otherData o => rfl
  | trackEvent te => simp [PacketData.change, Option.map_map]
  | trackDescriptor trd =>
    simp [PacketData.change, TrackDescriptor.mapPids, IdMap.comp, Option.map_map, Function.comp_def]
  | processTree pt =>
    simp [PacketData.change, ProcessTree.mapIds, IdMap.comp, Option.map_map, Function.comp_def]
  | ftraceEvents b =>
    have hevents := event_change_change (ρ := ρ) hf hg shift shift'
    simp only [PacketData.change, IdMap.comp, List.map_map, Option.map_map, Function.comp_def, hevents]
    rfl

/-- **Changes compose.** -/
theorem change_change (hf : f.pid 0 = 0) (hg : g.pid 0 = 0) (p : TracePacket ρ) :
    (p.change f shift rename).change g shift' rename'
      = p.change (g.comp f) (shift' ∘ shift) (rename' ∘ rename) := by
  have hdata := data_change_change hf hg shift shift' rename rename' p.data
  have hdefaults : TracePacketDefaults.mapUuids rename' ∘ TracePacketDefaults.mapUuids (ρ := ρ) rename
      = TracePacketDefaults.mapUuids (rename' ∘ rename) := funext mapUuids_mapUuids
  unfold TracePacket.change
  simp only [hdata, hdefaults, Option.map_map]
  simp [IdMap.comp, Function.comp_def]

theorem IdMap.AgreeOn.mono {vs ws : List Visit} (h : f.AgreeOn g vs) (hs : ∀ v ∈ ws, v ∈ vs) : f.AgreeOn g ws :=
  ⟨fun v hv => h.visits v (hs v hv), h.zero⟩

theorem IdMap.AgreeOn.pid {vs : List Visit} (h : f.AgreeOn g vs) {p : Int32} (hp : .pid p ∈ vs) : f.pid p = g.pid p :=
  Visit.pid.inj (h.visits _ hp)

theorem IdMap.AgreeOn.tid {vs : List Visit} (h : f.AgreeOn g vs) {t : Int32} (ht : .tid t ∈ vs) : f.tid t = g.tid t :=
  Visit.tid.inj (h.visits _ ht)

theorem map_congr_toList {α β : Type} {f g : α → β} {o : Option α} (h : ∀ a ∈ o.toList, f a = g a) :
    o.map f = o.map g := by
  cases o with
  | none => rfl
  | some a => exact congrArg some (h a (by simp))

theorem mapNonzero_congr {f g : Int32 → Int32} {o : Option Int32} (h : ∀ p ∈ nonzero o, f p = g p) :
    mapNonzero f o = mapNonzero g o := by
  cases o with
  | none => rfl
  | some p =>
    by_cases hp : p = 0
    · simp [mapNonzero, hp]
    · have hfg := h p (by simp [nonzero, hp])
      simp [mapNonzero, hp, hfg]

theorem mapPids_congr {f g : Int32 → Int32} {e : FtraceEventData ρ} (h : ∀ p ∈ e.pids, f p = g p) :
    e.mapPids f = e.mapPids g := by
  cases e with
  | schedSwitch a b o | schedProcessExec a b o | schedProcessExit a b o | schedProcessFork a b o =>
    have ha := mapNonzero_congr fun p hp => h p (List.mem_append_left _ hp)
    have hb := mapNonzero_congr fun p hp => h p (List.mem_append_right _ hp)
    simp only [FtraceEventData.mapPids, ha, hb]
  | notSet | otherEvent o => rfl
  | schedWakeup a o | schedBlockedReason a o | schedWaking a o | schedWakeupNew a o
  | schedProcessFree a o | schedProcessHang a o | schedProcessWait a o =>
    have ha := mapNonzero_congr h
    simp only [FtraceEventData.mapPids, ha]

theorem event_congr {f g : Int32 → Int32} {e : FtraceEvent ρ} (h : ∀ p ∈ e.pids, f p = g p) :
    (e.mapTimestamp shift).mapPids f = (e.mapTimestamp shift).mapPids g := by
  have hdata : e.event.mapPids f = e.event.mapPids g := mapPids_congr fun p hp => h p (List.mem_append_right _ hp)
  have hpid : e.pid.map (fun pid => (f pid.toInt32).toUInt32) = e.pid.map fun pid => (g pid.toInt32).toUInt32 := by
    apply map_congr_toList
    intro pid hm
    rw [h pid.toInt32 (List.mem_append_left _ (List.mem_map_of_mem hm))]
  unfold FtraceEvent.mapPids FtraceEvent.mapTimestamp
  simp only [hdata, hpid]

theorem processTree_congr {pt : ProcessTree ρ} (h : f.AgreeOn g pt.visits) : pt.mapIds f = pt.mapIds g := by
  have hprocesses : pt.processes.map (fun p => { p with pid := p.pid.map f.pid })
      = pt.processes.map fun p => { p with pid := p.pid.map g.pid } := by
    apply List.map_congr_left
    intro p hp
    rw [map_congr_toList fun pid hm => h.pid (List.mem_append_left _
      (List.mem_flatMap.mpr ⟨p, hp, List.mem_map_of_mem hm⟩))]
  have hthreads : pt.threads.map (fun t => { t with tid := t.tid.map f.tid, tgid := t.tgid.map f.pid })
      = pt.threads.map fun t => { t with tid := t.tid.map g.tid, tgid := t.tgid.map g.pid } := by
    apply List.map_congr_left
    intro t ht
    have hmem : ∀ v ∈ t.tid.toList.map Visit.tid ++ t.tgid.toList.map Visit.pid, v ∈ pt.visits := fun v hv =>
      List.mem_append_right _ (List.mem_flatMap.mpr ⟨t, ht, hv⟩)
    rw [map_congr_toList fun tid hm => h.tid (hmem _ (List.mem_append_left _ (List.mem_map_of_mem hm))),
      map_congr_toList fun pid hm => h.pid (hmem _ (List.mem_append_right _ (List.mem_map_of_mem hm)))]
  unfold ProcessTree.mapIds
  simp only [hprocesses, hthreads]

theorem trackDescriptor_congr {f g : Int32 → Int32} {trd : TrackDescriptor ρ} (h : ∀ p ∈ trd.pids, f p = g p) :
    trd.mapPids f = trd.mapPids g := by
  rcases trd with ⟨uuid, parent, _ | ⟨_ | p, po⟩, _ | ⟨_ | t, ttid, tother⟩, o⟩ <;>
    simp_all [TrackDescriptor.pids, TrackDescriptor.mapPids]

theorem data_congr {d : PacketData ρ} (h : f.AgreeOn g d.visits) :
    d.change f shift rename = d.change g shift rename := by
  cases d with
  | notSet | clockSnapshot cs | serviceEvent o | otherData o | trackEvent te => rfl
  | processTree pt => exact congrArg PacketData.processTree (processTree_congr h)
  | trackDescriptor trd =>
    have htrd : trd.mapPids f.pid = trd.mapPids g.pid :=
      trackDescriptor_congr fun p hp => h.pid (List.mem_map_of_mem hp)
    simp only [PacketData.change, htrd]
  | ftraceEvents b =>
    have hcpu : b.cpu.map (fun cpu => (f.cpu cpu.toInt32).toUInt32)
        = b.cpu.map fun cpu => (g.cpu cpu.toInt32).toUInt32 := by
      apply map_congr_toList
      intro cpu hm
      rw [Visit.cpu.inj (h.visits _ (List.mem_append_left _ (List.mem_map_of_mem hm)))]
    have hevents : b.event.map (fun e => (e.mapTimestamp shift).mapPids f.pid)
        = b.event.map fun e => (e.mapTimestamp shift).mapPids g.pid := by
      apply List.map_congr_left
      intro e he
      refine event_congr fun p hp => h.pid (List.mem_append_right _ ?_)
      exact List.mem_flatMap.mpr ⟨e, he, List.mem_map_of_mem hp⟩
    simp only [PacketData.change, hcpu, hevents]

/-- Maps that agree on a packet's ids change it alike. -/
theorem change_congr {p : TracePacket ρ} (h : f.AgreeOn g p.visits) :
    p.change f shift rename = p.change g shift rename := by
  have hdata : p.data.change f shift rename = p.data.change g shift rename :=
    data_congr (h.mono fun v hv => List.mem_append_right _ hv)
  have huid : p.trustedUid.map (fun uid => (f.trustedUid uid.toUInt32).toInt32)
      = p.trustedUid.map fun uid => (g.trustedUid uid.toUInt32).toInt32 := by
    apply map_congr_toList
    intro uid hm
    have hv := h.visits _ (List.mem_append_left _ (List.mem_append_left _ (List.mem_map_of_mem hm)))
    rw [Visit.trustedUid.inj hv]
  have hseq : p.trustedPacketSequenceId.map f.sequenceId = p.trustedPacketSequenceId.map g.sequenceId := by
    apply map_congr_toList
    intro seqid hm
    exact Visit.sequenceId.inj
      (h.visits _ (List.mem_append_left _ (List.mem_append_right _ (List.mem_map_of_mem hm))))
  unfold TracePacket.change
  rw [hdata, huid, hseq]

end

/-! ### Moving twice -/

/-- The maxima that two moves add up to: each moves a cpu by one more. -/
def MaxIds.plus (m n : MaxIds) : MaxIds where
  trustedUid := m.trustedUid + n.trustedUid
  sequenceId := m.sequenceId + n.sequenceId
  pid := m.pid + n.pid
  tid := m.tid + n.tid
  cpu := m.cpu + n.cpu + 1

/-- No pid or tid of the trace is moved to 0. -/
structure MaxIds.Fit (m : MaxIds) (t : Trace ρ) : Prop where
  pid : m.pid.toNat + maxId .pid t < 2 ^ 32
  tid : m.tid.toNat + maxId .tid t < 2 ^ 32

section

variable {t : Trace ρ} {p : TracePacket ρ} {m n : MaxIds} {d e : Int64} {rename rename' : UInt64 → UInt64}

theorem rewritePacket_change (m : MaxIds) (d : Int64) (rename : UInt64 → UInt64) (p : TracePacket ρ) :
    rewritePacket m d rename p = p.change (offsets m) (shiftTime d) rename := by
  have hdata : (rewritePacket m d rename p).data = p.data.change (offsets m) (shiftTime d) rename := by
    rw [rewritePacket_data]
    cases p.data <;> rfl
  unfold TracePacket.change
  rw [← hdata]
  rfl

theorem shiftTime_shiftTime (d e : Int64) : shiftTime e ∘ shiftTime d = shiftTime (d + e) := by
  funext ts
  rw [Function.comp_apply, ← add_toUInt64, ← add_toUInt64, ← add_toUInt64, Int64.toUInt64_add, UInt64.add_assoc]

theorem mem_ids_of_visit {v : Visit} (hp : p ∈ t) (hv : v ∈ p.visits) : v.value ∈ ids v.kind t := by
  refine List.mem_map.mpr ⟨v, List.mem_filter.mpr ⟨List.mem_flatMap.mpr ⟨p, hp, hv⟩, ?_⟩, rfl⟩
  simp

/-- What the callbacks for pids and tids do. -/
def moved (m : UInt32) (x : Int32) : Int32 := if x = 0 then 0 else (x.toUInt32 + m).toInt32

theorem moved_moved {x : Int32} {m : UInt32} (n : UInt32) (h : m.toNat + x.toUInt32.toNat < 2 ^ 32) :
    moved n (moved m x) = moved (m + n) x := by
  by_cases hx : x = 0
  · simp [moved, hx]
  · have hpos : x.toUInt32.toNat ≠ 0 := fun h0 => hx (toUInt32_eq_zero.mp (UInt32.toNat_inj.mp h0))
    have hne : (x.toUInt32 + m).toInt32 ≠ 0 := by
      intro h0
      have hsum : (x.toUInt32 + m).toNat = 0 := congrArg (fun y : Int32 => y.toUInt32.toNat) h0
      rw [add_toNat (by omega)] at hsum
      omega
    unfold moved
    rw [if_neg hx, if_neg hne, if_neg hx, UInt32.toUInt32_toInt32, UInt32.add_assoc]

/-- **Two moves are one move.** -/
theorem move_move (hm : m.Fit t) (hp : p ∈ t) :
    ((offsets n).comp (offsets m)).AgreeOn (offsets (m.plus n)) p.visits := by
  refine ⟨fun v hv => ?_, rfl⟩
  have hle := le_maxId (mem_ids_of_visit hp hv)
  cases v with
  | trustedUid u => exact congrArg Visit.trustedUid (UInt32.add_assoc u m.trustedUid n.trustedUid)
  | sequenceId s => exact congrArg Visit.sequenceId (UInt32.add_assoc s m.sequenceId n.sequenceId)
  | pid x =>
    have hroom : m.pid.toNat + x.toUInt32.toNat < 2 ^ 32 := Nat.lt_of_le_of_lt (Nat.add_le_add_left hle _) hm.pid
    exact congrArg Visit.pid (moved_moved n.pid hroom)
  | tid x =>
    have hroom : m.tid.toNat + x.toUInt32.toNat < 2 ^ 32 := Nat.lt_of_le_of_lt (Nat.add_le_add_left hle _) hm.tid
    exact congrArg Visit.tid (moved_moved n.tid hroom)
  | cpu c =>
    have hsum : c.toUInt32 + m.cpu + 1 + n.cpu + 1 = c.toUInt32 + (m.cpu + n.cpu + 1) + 1 := by ac_rfl
    exact congrArg (fun u : UInt32 => Visit.cpu u.toInt32) hsum

/-- Rewriting twice, packet by packet. -/
theorem rewritePacket_rewritePacket (hm : m.Fit t) (hp : p ∈ t) :
    rewritePacket n e rename' (rewritePacket m d rename p)
      = rewritePacket (m.plus n) (d + e) (rename' ∘ rename) p := by
  rw [rewritePacket_change, rewritePacket_change, rewritePacket_change, change_change rfl rfl, shiftTime_shiftTime,
    change_congr (move_move hm hp)]

/-! ### The maxima of a combined trace -/

theorem maxIds_ext {m n : MaxIds} (h : ∀ k, (m.get k).toNat = (n.get k).toNat) : m = n := by
  have hget : ∀ k, m.get k = n.get k := fun k => UInt32.toNat_inj.mp (h k)
  cases m
  cases n
  simp only [MaxIds.mk.injEq]
  exact ⟨hget .trustedUid, hget .sequenceId, hget .pid, hget .tid, hget .cpu⟩

/-- The packet with its track uuids erased. -/
def TracePacket.withoutUuids (p : TracePacket ρ) : TracePacket ρ := p.mapUuids fun _ => 0

theorem defaults_erased (rename : UInt64 → UInt64) (o : Option (TracePacketDefaults ρ)) :
    (o.map (TracePacketDefaults.mapUuids rename)).map (TracePacketDefaults.mapUuids fun _ => 0)
      = o.map (TracePacketDefaults.mapUuids fun _ => 0) := by
  cases o with
  | none => rfl
  | some tpd => exact congrArg some (mapUuids_mapUuids tpd)

theorem withoutUuids_rewritePacket (m : MaxIds) (d : Int64) (rename : UInt64 → UInt64) (p : TracePacket ρ) :
    (rewritePacket m d rename p).withoutUuids = rewritePacket m d (fun _ => 0) p := by
  have hdata : ∀ x : PacketData ρ, (x.mapUuids rename).mapUuids (fun _ => 0) = x.mapUuids fun _ => 0 := by
    intro x
    cases x with
    | trackEvent te => simp [PacketData.mapUuids, Option.map_map, Function.comp_def]
    | trackDescriptor trd => simp [PacketData.mapUuids, Option.map_map, Function.comp_def]
    | notSet | clockSnapshot cs | serviceEvent o | otherData o | processTree pt | ftraceEvents b => rfl
  simp only [TracePacket.withoutUuids, rewritePacket, TracePacket.mapUuids, defaults_erased, hdata]

theorem withoutUuids_rewriteAddon (gen : ℕ → UInt64) (m : MaxIds) (d : Int64) (t : Trace ρ) :
    (rewriteAddon gen m d t).map TracePacket.withoutUuids = t.map (rewritePacket m d fun _ => 0) := by
  rw [rewriteAddon_packets, List.map_map]
  exact List.map_congr_left fun p _ => withoutUuids_rewritePacket m d _ p

theorem parse_construct {P : Protobuf ρ} (hP : P.Lawful) (gen : ℕ → UInt64) {main addon : Bytes} {M A : Trace ρ}
    (hM : P.parseFromString main = some M) (hA : P.parseFromString addon = some A) (d : Int64) :
    P.parseFromString (constructCombinedTrace P gen main addon d)
      = some (M ++ rewriteAddon gen (sCalcMaxIds P gen main) d A) := by
  rw [constructCombinedTrace_eq P gen main d hA]
  exact hP.parse_append _ _ _ _ hM (hP.parse_serialize _)

/-- A bundle of events on a cpu. -/
def cpuPacket (cpu : UInt32) : TracePacket Unit :=
  ⟨none, none, none, none, .ftraceEvents ⟨some cpu, [], none, ()⟩, ()⟩

/-- The maxima whose move undoes the move by `m`. -/
def MaxIds.undo (m : MaxIds) : MaxIds where
  trustedUid := -m.trustedUid
  sequenceId := -m.sequenceId
  pid := -m.pid
  tid := -m.tid
  cpu := -m.cpu - 2

/-- What a merge keeps of a packet. -/
def TracePacket.kept (p : TracePacket ρ) : TracePacket ρ := (clearSnapshotAndServiceEvent p).withoutUuids

/-- The move that moves nothing. -/
def IdMap.same : IdMap := ⟨id, id, id, id, id⟩

theorem offsets_undo (m : MaxIds) (vs : List Visit) : (offsets (m.plus m.undo)).AgreeOn IdMap.same vs := by
  have hzero : ∀ x : UInt32, x + -x = 0 := UInt32.add_right_neg
  have hcpu : ∀ c : UInt32, c + (m.cpu + (-m.cpu - 2) + 1) + 1 = c := by
    intro c
    grind
  have hmoved : ∀ x : Int32, moved 0 x = x := by
    intro x
    by_cases hx : x = 0
    · simp [moved, hx]
    · simp [moved, hx]
  refine ⟨fun v _ => ?_, rfl⟩
  cases v with
  | trustedUid u => simp [Visit.map, offsets, IdMap.same, MaxIds.plus, MaxIds.undo, hzero]
  | sequenceId s => simp [Visit.map, offsets, IdMap.same, MaxIds.plus, MaxIds.undo, hzero]
  | pid x =>
    have hpid : moved (m.pid + -m.pid) x = x := by rw [hzero, hmoved]
    exact congrArg Visit.pid hpid
  | tid x =>
    have htid : moved (m.tid + -m.tid) x = x := by rw [hzero, hmoved]
    exact congrArg Visit.tid htid
  | cpu c => exact congrArg (fun u : UInt32 => Visit.cpu u.toInt32) (hcpu c.toUInt32)

theorem data_change_same (p : TracePacket ρ) : p.data.change IdMap.same id (fun _ => 0) =
    (clearSnapshotAndServiceEvent p).data.mapUuids fun _ => 0 := by
  have hnonzero : ∀ o : Option Int32, mapNonzero id o = o := by
    intro o
    rw [mapNonzero_of_zero rfl, Option.map_id_fun]
    rfl
  have hevent : ∀ e : FtraceEvent ρ, (e.mapTimestamp id).mapPids id = e := by
    intro e
    rcases e with ⟨ts, pid, event, o⟩
    cases event <;> simp [FtraceEvent.mapPids, FtraceEvent.mapTimestamp, FtraceEventData.mapPids, hnonzero]
  unfold clearSnapshotAndServiceEvent
  rcases p with ⟨ts, uid, seq, tpd, d, other⟩
  cases d with
  | notSet | clockSnapshot cs | serviceEvent o | otherData o | trackEvent te => rfl
  | trackDescriptor trd =>
    rcases trd with ⟨uuid, parent, _ | ⟨p, po⟩, _ | ⟨t, ttid, tother⟩, o⟩ <;>
      simp [PacketData.change, PacketData.mapUuids, TrackDescriptor.mapPids, IdMap.same]
  | processTree pt => simp [PacketData.change, PacketData.mapUuids, ProcessTree.mapIds, IdMap.same]
  | ftraceEvents b => simp [PacketData.change, PacketData.mapUuids, IdMap.same, hevent]

/-- Undoing a move gives back what a merge keeps. -/
theorem rewritePacket_undo (hm : m.Fit t) (hp : p ∈ t) (d : Int64) :
    rewritePacket m.undo (-d) (fun _ => 0) (rewritePacket m d rename p) = p.kept := by
  have hdiff : shiftTime (d + -d) = id := by
    funext ts
    rw [← add_toUInt64, Int64.add_right_neg]
    exact UInt64.add_zero ts
  rw [rewritePacket_rewritePacket hm hp, rewritePacket_change, change_congr (offsets_undo m p.visits), hdiff]
  unfold TracePacket.change
  rw [show (fun _ => 0) ∘ rename = fun _ => (0 : UInt64) from rfl, data_change_same]
  have huid : (fun uid : Int32 => uid.toUInt32.toInt32) = id := rfl
  simp only [IdMap.same, id_eq, huid, Option.map_id_fun]
  rfl

/-- What a merge does not keep has no part in the result. -/
theorem rewritePacket_kept (m : MaxIds) (d : Int64) (p : TracePacket ρ) :
    rewritePacket m d (fun _ => 0) p.kept = rewritePacket m d (fun _ => 0) p := by
  rcases p with ⟨ts, uid, seq, tpd, data, o⟩
  rw [rewritePacket_change, rewritePacket_change]
  unfold TracePacket.change TracePacket.kept TracePacket.withoutUuids TracePacket.mapUuids clearSnapshotAndServiceEvent
  simp only [defaults_erased]
  cases data <;>
    simp [PacketData.change, PacketData.mapUuids, TrackDescriptor.mapPids, Option.map_map, Function.comp_def]

theorem rewrite_eq_iff_kept {s t : Trace ρ} (hs : m.Fit s) (ht : m.Fit t) :
    s.map (rewritePacket m d fun _ => 0) = t.map (rewritePacket m d fun _ => 0) ↔
      s.map TracePacket.kept = t.map TracePacket.kept := by
  have hundo : ∀ {u : Trace ρ}, m.Fit u →
      (u.map (rewritePacket m d fun _ => 0)).map (rewritePacket m.undo (-d) fun _ => 0) = u.map TracePacket.kept := by
    intro u hu
    rw [List.map_map]
    exact List.map_congr_left fun p hp => rewritePacket_undo hu hp d
  have hkept : ∀ u : Trace ρ, (u.map TracePacket.kept).map (rewritePacket m d fun _ => 0)
      = u.map (rewritePacket m d fun _ => 0) := by
    intro u
    rw [List.map_map]
    exact List.map_congr_left fun p _ => rewritePacket_kept m d p
  refine ⟨fun h => ?_, fun h => ?_⟩
  · rw [← hundo hs, ← hundo ht, h]
  · rw [← hkept s, ← hkept t, h]

/-- **A merge loses nothing else.** Two traces give the same packets up to
track uuids when merged into one main trace exactly if they are the same up to
track uuids, clock snapshots and service events. -/
theorem merge_keeps_iff {P : Protobuf ρ} (hP : P.Lawful) (gen gen' : ℕ → UInt64) {main a b : Bytes} {M A B : Trace ρ}
    (hM : P.parseFromString main = some M) (hA : P.parseFromString a = some A) (hB : P.parseFromString b = some B)
    (d : Int64) (hroomA : ∀ k, k = .pid ∨ k = .tid → maxId k M + maxId k A < 2 ^ 32)
    (hroomB : ∀ k, k = .pid ∨ k = .tid → maxId k M + maxId k B < 2 ^ 32) :
    ∃ s t, P.parseFromString (constructCombinedTrace P gen main a d) = some s ∧
      P.parseFromString (constructCombinedTrace P gen' main b d) = some t ∧
      (s.map TracePacket.withoutUuids = t.map TracePacket.withoutUuids ↔
        A.map TracePacket.kept = B.map TracePacket.kept) := by
  refine ⟨_, _, parse_construct hP gen hM hA d, parse_construct hP gen' hM hB d, ?_⟩
  have hsame : sCalcMaxIds P gen' main = sCalcMaxIds P gen main :=
    maxIds_ext fun k => by rw [sCalcMaxIds_get P gen hM, sCalcMaxIds_get P gen' hM]
  have hpid : (sCalcMaxIds P gen main).pid.toNat = maxId .pid M := sCalcMaxIds_get P gen hM .pid
  have htid : (sCalcMaxIds P gen main).tid.toNat = maxId .tid M := sCalcMaxIds_get P gen hM .tid
  have hfitA : (sCalcMaxIds P gen main).Fit A :=
    ⟨by rw [hpid]; exact hroomA .pid (Or.inl rfl), by rw [htid]; exact hroomA .tid (Or.inr rfl)⟩
  have hfitB : (sCalcMaxIds P gen main).Fit B :=
    ⟨by rw [hpid]; exact hroomB .pid (Or.inl rfl), by rw [htid]; exact hroomB .tid (Or.inr rfl)⟩
  simp only [List.map_append, withoutUuids_rewriteAddon, hsame, List.append_cancel_left_eq]
  exact rewrite_eq_iff_kept hfitA hfitB

/-- A clock snapshot is lost: it and an empty packet merge alike. -/
theorem merge_keeps_snapshot : ∃ s t,
    wire.parseFromString (constructCombinedTrace wire (fun _ => 9) (wire.serializeToString [cpuPacket 1])
      (wire.serializeToString [⟨none, none, none, none, .clockSnapshot ⟨[], ()⟩, ()⟩]) 5) = some s ∧
    wire.parseFromString (constructCombinedTrace wire (fun _ => 9) (wire.serializeToString [cpuPacket 1])
      (wire.serializeToString [⟨none, none, none, none, .notSet, ()⟩]) 5) = some t ∧
    s.map TracePacket.withoutUuids = t.map TracePacket.withoutUuids := by
  obtain ⟨s, t, hs, ht, hiff⟩ := merge_keeps_iff wire_lawful (fun _ => 9) (fun _ => 9) (wire_lawful.parse_serialize _)
    (wire_lawful.parse_serialize _) (wire_lawful.parse_serialize _) 5 (M := [cpuPacket 1])
    (A := [⟨none, none, none, none, .clockSnapshot ⟨[], ()⟩, ()⟩]) (B := [⟨none, none, none, none, .notSet, ()⟩])
    (fun k _ => by cases k <;> decide +kernel) (fun k _ => by cases k <;> decide +kernel)
  exact ⟨s, t, hs, ht, hiff.mpr rfl⟩

end

end Merge
end VPerfetto
