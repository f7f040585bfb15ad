/-
# What a merge may change

`TracePacket.Frame shift p q` says that `q` is `p` up to the fields a merge
rewrites: a visited field is present in `q` if and only if it is in `p`,
timestamps are shifted, `clock_snapshot` and `service_event` are gone, and
everything else is equal, the case of each oneof included. Every pass of
`constructCombinedTrace` stays inside the frame, so the combined trace is
the main trace's bytes followed by a framed copy of the addon's packets
(`constructCombinedTrace_frame`).

Key definitions: `TracePacket.Frame`, `shiftTime`.
Key theorems: `rewriteAddon_frame`, `constructCombinedTrace_frame`.
-/
import VPerfetto.Merge.Codec
import VPerfetto.Merge.Visits
import Mathlib.Algebra.Group.Int.Defs
import Mathlib.Algebra.GroupWithZero.Nat
import Mathlib.Data.List.Forall2
import Mathlib.Data.Int.Notation

namespace VPerfetto
namespace Merge

variable {ρ : Type}

/-- A visited field: its value may change, its presence may not. -/
def Visited {α : Type} (a b : Option α) : Prop := a.isSome = b.isSome

/-- A pid field that is visited only when it is not 0. -/
def VisitedNonzero (a b : Option Int32) : Prop := a.isSome = b.isSome ∧ (a = some 0 → b = some 0)

inductive FtraceEventData.Frame : FtraceEventData ρ → FtraceEventData ρ → Prop
  | notSet : Frame .notSet .notSet
  | schedSwitch {a b a' b' o} (ha : VisitedNonzero a a') (hb : VisitedNonzero b b') :
    Frame (.schedSwitch a b o) (.schedSwitch a' b' o)
  | schedWakeup {a a' o} (ha : VisitedNonzero a a') : Frame (.schedWakeup a o) (.schedWakeup a' o)
  | schedBlockedReason {a a' o} (ha : VisitedNonzero a a') :
    Frame (.schedBlockedReason a o) (.schedBlockedReason a' o)
  | schedWaking {a a' o} (ha : VisitedNonzero a a') : Frame (.schedWaking a o) (.schedWaking a' o)
  | schedWakeupNew {a a' o} (ha : VisitedNonzero a a') :
    Frame (.schedWakeupNew a o) (.schedWakeupNew a' o)
  | schedProcessExec {a b a' b' o} (ha : VisitedNonzero a a') (hb : VisitedNonzero b b') :
    Frame (.schedProcessExec a b o) (.schedProcessExec a' b' o)
  | schedProcessExit {a b a' b' o} (ha : VisitedNonzero a a') (hb : VisitedNonzero b b') :
    Frame (.schedProcessExit a b o) (.schedProcessExit a' b' o)
  | schedProcessFork {a b a' b' o} (ha : VisitedNonzero a a') (hb : VisitedNonzero b b') :
    Frame (.schedProcessFork a b o) (.schedProcessFork a' b' o)
  | schedProcessFree {a a' o} (ha : VisitedNonzero a a') :
    Frame (.schedProcessFree a o) (.schedProcessFree a' o)
  | schedProcessHang {a a' o} (ha : VisitedNonzero a a') :
    Frame (.schedProcessHang a o) (.schedProcessHang a' o)
  | schedProcessWait {a a' o} (ha : VisitedNonzero a a') :
    Frame (.schedProcessWait a o) (.schedProcessWait a' o)
  | otherEvent (o : ρ) : Frame (.otherEvent o) (.otherEvent o)

structure FtraceEvent.Frame (shift : UInt64 → UInt64) (e e' : FtraceEvent ρ) : Prop where
  timestamp : e'.timestamp = e.timestamp.map shift
  pid : Visited e.pid e'.pid
  event : FtraceEventData.Frame e.event e'.event
  other : e'.other = e.other

structure FtraceEventBundle.Frame (shift : UInt64 → UInt64) (b b' : FtraceEventBundle ρ) : Prop where
  cpu : Visited b.cpu b'.cpu
  event : List.Forall₂ (FtraceEvent.Frame shift) b.event b'.event
  compactSched : b'.compactSched = b.compactSched
  other : b'.other = b.other

structure TrackEvent.Frame (te te' : TrackEvent ρ) : Prop where
  trackUuid : Visited te.trackUuid te'.trackUuid
  extraCounterTrackUuids : te'.extraCounterTrackUuids = te.extraCounterTrackUuids
  other : te'.other = te.other

structure TrackEventDefaults.Frame (ted ted' : TrackEventDefaults ρ) : Prop where
  trackUuid : Visited ted.trackUuid ted'.trackUuid
  extraCounterTrackUuids : ted'.extraCounterTrackUuids = ted.extraCounterTrackUuids
  other : ted'.other = ted.other

structure TracePacketDefaults.Frame (tpd tpd' : TracePacketDefaults ρ) : Prop where
  trackEventDefaults : Option.Rel TrackEventDefaults.Frame tpd.trackEventDefaults tpd'.trackEventDefaults
  other : tpd'.other = tpd.other

structure ProcessDescriptor.Frame (p p' : ProcessDescriptor ρ) : Prop where
  pid : Visited p.pid p'.pid
  other : p'.other = p.other

structure ThreadDescriptor.Frame (t t' : ThreadDescriptor ρ) : Prop where
  pid : Visited t.pid t'.pid
  tid : t'.tid = t.tid
  other : t'.other = t.other

structure TrackDescriptor.Frame (trd trd' : TrackDescriptor ρ) : Prop where
  uuid : Visited trd.uuid trd'.uuid
  parentUuid : Visited trd.parentUuid trd'.parentUuid
  process : Option.Rel ProcessDescriptor.Frame trd.process trd'.process
  thread : Option.Rel ThreadDescriptor.Frame trd.thread trd'.thread
  other : trd'.other = trd.other

structure Process.Frame (p p' : Process ρ) : Prop where
  pid : Visited p.pid p'.pid
  ppid : p'.ppid = p.ppid
  other : p'.other = p.other

structure Thread.Frame (t t' : Thread ρ) : Prop where
  tid : Visited t.tid t'.tid
  tgid : Visited t.tgid t'.tgid
  other : t'.other = t.other

structure ProcessTree.Frame (pt pt' : ProcessTree ρ) : Prop where
  processes : List.Forall₂ Process.Frame pt.processes pt'.processes
  threads : List.Forall₂ Thread.Frame pt.threads pt'.threads
  other : pt'.other = pt.other

/-- The two removed kinds leave the oneof unset; every other packet keeps its
case. -/
inductive PacketData.Frame (shift : UInt64 → UInt64) : PacketData ρ → PacketData ρ → Prop
  | notSet : Frame shift .notSet .notSet
  | clockSnapshot (cs : ClockSnapshot ρ) : Frame shift (.clockSnapshot cs) .notSet
  | serviceEvent (o : ρ) : Frame shift (.serviceEvent o) .notSet
  | processTree {pt pt'} (h : ProcessTree.Frame pt pt') : Frame shift (.processTree pt) (.processTree pt')
  | trackEvent {te te'} (h : TrackEvent.Frame te te') : Frame shift (.trackEvent te) (.trackEvent te')
  | trackDescriptor {trd trd'} (h : TrackDescriptor.Frame trd trd') :
    Frame shift (.trackDescriptor trd) (.trackDescriptor trd')
  | ftraceEvents {b b'} (h : FtraceEventBundle.Frame shift b b') :
    Frame shift (.ftraceEvents b) (.ftraceEvents b')
  | otherData (o : ρ) : Frame shift (.otherData o) (.otherData o)

structure TracePacket.Frame (shift : UInt64 → UInt64) (p p' : TracePacket ρ) : Prop where
  timestamp : p'.timestamp = p.timestamp.map shift
  trustedUid : Visited p.trustedUid p'.trustedUid
  trustedPacketSequenceId : Visited p.trustedPacketSequenceId p'.trustedPacketSequenceId
  tracePacketDefaults : Option.Rel TracePacketDefaults.Frame p.tracePacketDefaults p'.tracePacketDefaults
  data : PacketData.Frame shift p.data p'.data
  other : p'.other = p.other

/-- `(ts + diff) mod 2^64`, with `diff` signed. -/
def shiftTime (diff : Int64) (ts : UInt64) : UInt64 :=
  UInt64.ofNat (((ts.toNat : ℤ) + diff.toInt) % 2 ^ 64).toNat

theorem toUInt64_toNat (diff : Int64) : (diff.toUInt64.toNat : ℤ) = diff.toInt % 2 ^ 64 := by
  have hb : diff.toInt = (diff.toUInt64.toNat : ℤ).bmod (2 ^ 64) := by
    rw [Int64.toInt, BitVec.toInt_eq_toNat_bmod]
    rfl
  have hlt := diff.toUInt64.toNat_lt
  have hmod := Int.bmod_emod (x := (diff.toUInt64.toNat : ℤ)) (m := 2 ^ 64)
  rw [hb]
  omega

/-- The unsigned sum of the code is the shift modulo 2^64. -/
theorem add_toUInt64 (diff : Int64) (ts : UInt64) : ts + diff.toUInt64 = shiftTime diff ts := by
  have h := toUInt64_toNat diff
  apply UInt64.toNat_inj.mp
  rw [UInt64.toNat_add, shiftTime, UInt64.toNat_ofNat']
  omega

/-! ### The passes stay inside the frame -/

theorem visited_map {α : Type} (g : α → α) (o : Option α) : Visited o (o.map g) := by
  cases o <;> rfl

theorem visitedNonzero_map (g : Int32 → Int32) (o : Option Int32) :
    VisitedNonzero o (mapNonzero g o) := by
  cases o with
  | none => exact ⟨rfl, fun h => by cases h⟩
  | some p =>
    refine ⟨rfl, fun h => ?_⟩
    cases h
    simp [mapNonzero]

theorem rel_map {α : Type} {R : α → α → Prop} {g : α → α} (h : ∀ a, R a (g a)) (o : Option α) :
    Option.Rel R o (o.map g) := by
  cases o with
  | none => exact .none
  | some a => exact .some (h a)

theorem forall₂_map {α : Type} {R : α → α → Prop} {g : α → α} (h : ∀ a, R a (g a)) :
    ∀ l : List α, List.Forall₂ R l (l.map g)
  | [] => .nil
  | a :: l => .cons (h a) (forall₂_map h l)

theorem ftraceEventData_frame (g : Int32 → Int32) (e : FtraceEventData ρ) :
    FtraceEventData.Frame e (e.mapPids g) := by
  cases e <;> constructor <;> exact visitedNonzero_map g _

theorem ftraceEvent_frame (shift : UInt64 → UInt64) (g : Int32 → Int32) (e : FtraceEvent ρ) :
    FtraceEvent.Frame shift e ((e.mapTimestamp shift).mapPids g) where
  timestamp := rfl
  pid := visited_map _ _
  event := ftraceEventData_frame g e.event
  other := rfl

theorem trackDescriptor_frame (g : Int32 → Int32) (trd : TrackDescriptor ρ) :
    TrackDescriptor.Frame trd (trd.mapPids g) where
  uuid := rfl
  parentUuid := rfl
  process := rel_map (fun _ => ⟨visited_map _ _, rfl⟩) _
  thread := rel_map (fun _ => ⟨visited_map _ _, rfl, rfl⟩) _
  other := rfl

theorem processTree_frame (g : IdMap) (pt : ProcessTree ρ) : ProcessTree.Frame pt (pt.mapIds g) where
  processes := forall₂_map (fun _ => ⟨visited_map _ _, rfl, rfl⟩) _
  threads := forall₂_map (fun _ => ⟨visited_map _ _, visited_map _ _, rfl⟩) _
  other := rfl

theorem Visited.refl {α : Type} (o : Option α) : Visited o o := rfl

theorem rel_refl {α : Type} {R : α → α → Prop} (h : ∀ a, R a a) (o : Option α) : Option.Rel R o o := by
  have := rel_map (g := id) h o
  rwa [Option.map_id] at this

theorem defaults_refl (tpd : TracePacketDefaults ρ) : TracePacketDefaults.Frame tpd tpd :=
  ⟨rel_refl (fun _ => ⟨.refl _, rfl, rfl⟩) _, rfl⟩

/-- The first three passes on one packet: clear, shift, rewrite ids. -/
theorem packet_frame (shift : UInt64 → UInt64) (g : IdMap) (p : TracePacket ρ) :
    TracePacket.Frame shift p
      (((clearSnapshotAndServiceEvent p).mapTimestamps shift).mapIds g) where
  timestamp := rfl
  trustedUid := visited_map _ _
  trustedPacketSequenceId := visited_map _ _
  tracePacketDefaults := rel_refl defaults_refl _
  data := by
    rcases p with ⟨ts, uid, seq, tpd, data, o⟩
    cases data with
    | notSet => exact .notSet
    | processTree pt => exact .processTree (processTree_frame g pt)
    | clockSnapshot cs => exact .clockSnapshot cs
    | trackEvent te => exact .trackEvent ⟨.refl _, rfl, rfl⟩
    | serviceEvent o => exact .serviceEvent o
    | trackDescriptor trd => exact .trackDescriptor (trackDescriptor_frame g.pid trd)
    | ftraceEvents b =>
      refine .ftraceEvents ⟨visited_map _ _, ?_, rfl, rfl⟩
      have h := forall₂_map (ftraceEvent_frame shift g.pid) b.event
      simpa [FtraceEventBundle.mapIds, Function.comp_def] using h
    | otherData o => exact .otherData o
  other := rfl

/-! ### The uuid pass stays inside the frame -/

theorem onPresent_visited {σ α : Type} (f : α → StateM σ α) (a o : Option α) (s : σ)
    (h : Visited a o) : Visited a ((onPresent f o).run s).1 := by
  cases o <;> exact h

theorem onPresent_rel {σ α : Type} {R : α → α → Prop} (f : α → StateM σ α)
    (hf : ∀ a b s, R a b → R a ((f b).run s).1) {o o' : Option α} (s : σ) (h : Option.Rel R o o') :
    Option.Rel R o ((onPresent f o').run s).1 := by
  cases h with
  | none => exact .none
  | some h => exact .some (hf _ _ s h)

theorem mapM_forall₂ {σ α : Type} {R : α → α → Prop} (f : α → StateM σ α)
    (hf : ∀ a b s, R a b → R a ((f b).run s).1) : ∀ {l l' : List α} (s : σ), List.Forall₂ R l l' →
      List.Forall₂ R l ((l'.mapM f).run s).1
  | _, _, _, .nil => .nil
  | _, _, s, .cons (b := b) h hl => by
    rw [List.mapM_cons]
    exact .cons (hf _ _ s h) (mapM_forall₂ f hf ((f b).run s).2 hl)

theorem defaults_forEachUuid {σ : Type} (f : UInt64 → StateM σ UInt64) (a b : TracePacketDefaults ρ)
    (s : σ) (h : TracePacketDefaults.Frame a b) :
    TracePacketDefaults.Frame a ((b.forEachUuid f).run s).1 where
  trackEventDefaults := onPresent_rel _
    (fun _ _ s h => ⟨onPresent_visited f _ _ s h.trackUuid, h.extraCounterTrackUuids, h.other⟩)
    s h.trackEventDefaults
  other := h.other

theorem data_forEachUuid {σ : Type} (f : UInt64 → StateM σ UInt64) {shift : UInt64 → UInt64}
    {a b : PacketData ρ} (s : σ) (h : PacketData.Frame shift a b) :
    PacketData.Frame shift a ((b.forEachUuid f).run s).1 := by
  cases h with
  | trackEvent h =>
    exact .trackEvent ⟨onPresent_visited f _ _ s h.trackUuid, h.extraCounterTrackUuids, h.other⟩
  | trackDescriptor h =>
    exact .trackDescriptor ⟨onPresent_visited f _ _ s h.uuid, onPresent_visited f _ _ _ h.parentUuid,
      h.process, h.thread, h.other⟩
  | notSet => exact .notSet
  | clockSnapshot cs => exact .clockSnapshot cs
  | serviceEvent o => exact .serviceEvent o
  | processTree h => exact .processTree h
  | ftraceEvents h => exact .ftraceEvents h
  | otherData o => exact .otherData o

theorem packet_forEachUuid {σ : Type} (f : UInt64 → StateM σ UInt64) {shift : UInt64 → UInt64}
    (a b : TracePacket ρ) (s : σ) (h : TracePacket.Frame shift a b) :
    TracePacket.Frame shift a ((b.forEachUuid f).run s).1 where
  timestamp := h.timestamp
  trustedUid := h.trustedUid
  trustedPacketSequenceId := h.trustedPacketSequenceId
  tracePacketDefaults := onPresent_rel _ (defaults_forEachUuid f) s h.tracePacketDefaults
  data := data_forEachUuid f _ h.data
  other := h.other

/-! ### The merge -/

/-- The pure callbacks of `constructCombinedTrace`. -/
def offsets (maxMain : MaxIds) : IdMap where
  trustedUid uid := uid + maxMain.trustedUid
  sequenceId seqid := seqid + maxMain.sequenceId
  pid pid := if pid = 0 then 0 else (pid.toUInt32 + maxMain.pid).toInt32
  tid tid := if tid = 0 then 0 else (tid.toUInt32 + maxMain.tid).toInt32
  cpu cpu := (cpu.toUInt32 + maxMain.cpu + 1).toInt32

/-- The addon trace after the first three passes. -/
def shiftedAddon (maxMain : MaxIds) (diff : Int64) (addon : Trace ρ) : Trace ρ :=
  addon.map fun p =>
    ((clearSnapshotAndServiceEvent p).mapTimestamps (shiftTime diff)).mapIds (offsets maxMain)

/-- The uuid pass runs when some descriptor's pid changed. -/
theorem rewriteAddon_eq (gen : ℕ → UInt64) (maxMain : MaxIds) (diff : Int64) (addon : Trace ρ) :
    rewriteAddon gen maxMain diff addon =
      if (uuidRemap gen (offsets maxMain).pid addon).needRemapUuids then
        ((iterateTraceTrackDescriptorUuids (shiftedAddon maxMain diff addon) remapUuid).run
          (uuidRemap gen (offsets maxMain).pid addon).uuidMap).1
      else shiftedAddon maxMain diff addon := by
  have hdesc : ((addon.map clearSnapshotAndServiceEvent).map
      (TracePacket.mapTimestamps (shiftTime diff))).flatMap TracePacket.descriptorPids =
      addon.flatMap TracePacket.descriptorPids := by
    rw [List.map_map, List.flatMap_map]
    apply List.flatMap_congr
    intro p _
    rcases p with ⟨ts, uid, seq, tpd, data, o⟩
    cases data <;> rfl
  have hshift : (fun ts : UInt64 => ts + diff.toUInt64) = shiftTime diff :=
    funext (add_toUInt64 diff)
  simp only [rewriteAddon, mutateTracePackets, iterateTraceTimestamps, hshift]
  rw [show offsetCallbacks maxMain = (offsets maxMain).toCallbacks from rfl, iterateTraceIds_pure]
  simp only [uuidRemap, hdesc]
  rw [List.map_map, List.map_map]
  rfl

theorem rewriteAddon_frame (gen : ℕ → UInt64) (maxMain : MaxIds) (diff : Int64) (addon : Trace ρ) :
    List.Forall₂ (TracePacket.Frame (shiftTime diff)) addon (rewriteAddon gen maxMain diff addon) := by
  have h : List.Forall₂ (TracePacket.Frame (shiftTime diff)) addon (shiftedAddon maxMain diff addon) :=
    forall₂_map (packet_frame (shiftTime diff) (offsets maxMain)) addon
  rw [rewriteAddon_eq]
  split
  · exact mapM_forall₂ _ (packet_forEachUuid remapUuid) _ h
  · exact h

/-- **A merge changes only what it visits.** When the addon parses, the
combined trace is the main trace's bytes followed by the serialization of
packets that are, one for one and in order, the addon's packets up to the
frame. -/
theorem constructCombinedTrace_frame (P : Protobuf ρ) (gen : ℕ → UInt64) (mainTrace addonTrace : Bytes)
    (mainTimeDiff : Int64) {addon : Trace ρ} (h : P.parseFromString addonTrace = some addon) :
    ∃ packets, constructCombinedTrace P gen mainTrace addonTrace mainTimeDiff =
        mainTrace ++ P.serializeToString packets ∧
      List.Forall₂ (TracePacket.Frame (shiftTime mainTimeDiff)) addon packets := by
  refine ⟨rewriteAddon gen (sCalcMaxIds P gen mainTrace) mainTimeDiff addon, ?_,
    rewriteAddon_frame gen _ mainTimeDiff addon⟩
  simp only [constructCombinedTrace, h]

/-- A clock snapshot, a process tree and a track event, merged with a difference of -2. -/
theorem constructCombinedTrace_frame_snapshot :
    let main : Trace Unit := [⟨some 3, none, some 1, none, .processTree ⟨[⟨some 4, none, ()⟩], [], ()⟩, ()⟩]
    let addon : Trace Unit := [⟨some 5, none, none, none, .clockSnapshot ⟨[], ()⟩, ()⟩,
      ⟨some 6, none, some 1, none, .processTree ⟨[⟨some 4, some 0, ()⟩], [], ()⟩, ()⟩,
      ⟨some 7, none, some 1, none, .trackEvent ⟨some 8, [], ()⟩, ()⟩]
    ∃ packets, constructCombinedTrace wire (fun _ => 7) (wire.serializeToString main)
          (wire.serializeToString addon) (-2) = wire.serializeToString main ++ wire.serializeToString packets ∧
      List.Forall₂ (TracePacket.Frame (shiftTime (-2))) addon packets :=
  constructCombinedTrace_frame wire _ _ _ _ (wire_lawful.parse_serialize _)

end Merge
end VPerfetto
