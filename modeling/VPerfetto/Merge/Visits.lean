/-
# What the traversal of ids visits

`TracePacket.visits` lists, in the order of the code, the values
`iterateTraceIds` hands to its callbacks. Two facts about the traversal say
all the rest needs: with callbacks that return their argument it leaves the
trace alone and runs the callbacks' effects along `visits`
(`iterateTraceIds_observe`), and with pure callbacks it is a map on each
packet followed by the uuid pass (`iterateTraceIds_pure`).

Key definitions: `Visit`, `TracePacket.visits`, `TracePacket.mapIds`,
`TracePacket.descriptorPids`, `recordUuid`.
-/
import VPerfetto.Merge.Combine

namespace VPerfetto
namespace Merge

universe u

/-- A value handed to one of the callbacks of `iterateTraceIds`. -/
inductive Visit where
  | trustedUid (uid : UInt32)
  | sequenceId (seqid : UInt32)
  | pid (pid : Int32)
  | tid (tid : Int32)
  | cpu (cpu : Int32)
  deriving DecidableEq

variable {ρ : Type}

/-- The value of a field that is visited only when present and not 0. -/
def nonzero (o : Option Int32) : List Int32 := o.toList.filter (· ≠ 0)

def FtraceEventData.pids : FtraceEventData ρ → List Int32
  | .schedSwitch prevPid nextPid _ => nonzero prevPid ++ nonzero nextPid
  | .schedWakeup pid _ => nonzero pid
  | .schedBlockedReason pid _ => nonzero pid
  | .schedWaking pid _ => nonzero pid
  | .schedWakeupNew pid _ => nonzero pid
  | .schedProcessExec pid oldPid _ => nonzero pid ++ nonzero oldPid
  | .schedProcessExit pid tgid _ => nonzero pid ++ nonzero tgid
  | .schedProcessFork parentPid childPid _ => nonzero parentPid ++ nonzero childPid
  | .schedProcessFree pid _ => nonzero pid
  | .schedProcessHang pid _ => nonzero pid
  | .schedProcessWait pid _ => nonzero pid
  | .notSet => []
  | .otherEvent _ => []

def FtraceEvent.pids (ftev : FtraceEvent ρ) : List Int32 :=
  ftev.pid.toList.map UInt32.toInt32 ++ ftev.event.pids

def FtraceEventBundle.visits (ftevts : FtraceEventBundle ρ) : List Visit :=
  ftevts.cpu.toList.map (fun cpu => .cpu cpu.toInt32) ++
    ftevts.event.flatMap fun ftev => ftev.pids.map .pid

/-- The pids of the process and thread of a descriptor. -/
def TrackDescriptor.pids (trd : TrackDescriptor ρ) : List Int32 :=
  trd.process.toList.flatMap (fun p => p.pid.toList) ++
    trd.thread.toList.flatMap (fun t => t.pid.toList)

def ProcessTree.visits (pt : ProcessTree ρ) : List Visit :=
  pt.processes.flatMap (fun p => p.pid.toList.map .pid) ++
    pt.threads.flatMap fun t => t.tid.toList.map .tid ++ t.tgid.toList.map .pid

def PacketData.visits : PacketData ρ → List Visit
  | .ftraceEvents ftevts => ftevts.visits
  | .trackDescriptor trd => trd.pids.map .pid
  | .processTree pt => pt.visits
  | _ => []

def TracePacket.visits (packet : TracePacket ρ) : List Visit :=
  packet.trustedUid.toList.map (fun uid => .trustedUid uid.toUInt32) ++
    packet.trustedPacketSequenceId.toList.map .sequenceId ++ packet.data.visits

/-! ### Callbacks that return their argument -/

section Observe

variable {m : Type → Type u} [Monad m]

/-- Callbacks with an effect on each visit that return their argument. -/
def observe (act : Visit → m PUnit) : IdCallbacks m where
  forEachTrustedUid uid := do act (.trustedUid uid); pure uid
  forEachSequenceId seqid := do act (.sequenceId seqid); pure seqid
  forEachPid pid := do act (.pid pid); pure pid
  forEachTid tid := do act (.tid tid); pure tid
  forEachCpu cpu := do act (.cpu cpu); pure cpu

variable [LawfulMonad m]

theorem onPresent_observe {α : Type} (act : Visit → m PUnit) (v : α → Visit) (f : α → m α)
    (h : ∀ a, f a = (do act (v a); pure a)) (o : Option α) :
    onPresent f o = (do (o.toList.map v).forM act; pure o) := by
  cases o <;> simp [onPresent, h]

theorem onPresent_pid (act : Visit → m PUnit) (o : Option Int32) :
    onPresent (observe act).forEachPid o = (do (o.toList.map Visit.pid).forM act; pure o) :=
  onPresent_observe act _ _ (fun _ => rfl) o

theorem onPresent_tid (act : Visit → m PUnit) (o : Option Int32) :
    onPresent (observe act).forEachTid o = (do (o.toList.map Visit.tid).forM act; pure o) :=
  onPresent_observe act _ _ (fun _ => rfl) o

theorem onNonzero_observe (act : Visit → m PUnit) (o : Option Int32) :
    onNonzero (observe act).forEachPid o = (do ((nonzero o).map Visit.pid).forM act; pure o) := by
  cases o with
  | none => simp [onNonzero, nonzero]
  | some p => by_cases hp : p = 0 <;> simp [onNonzero, nonzero, hp, observe]

theorem ftraceEventData_observe (act : Visit → m PUnit) (e : FtraceEventData ρ) :
    e.forEachPid (observe act).forEachPid = (do (e.pids.map Visit.pid).forM act; pure e) := by
  cases e <;> simp [FtraceEventData.forEachPid, FtraceEventData.pids, onNonzero_observe]

theorem ftraceEvent_observe (act : Visit → m PUnit) (ftev : FtraceEvent ρ) :
    ftev.forEachPid (observe act).forEachPid =
      (do (ftev.pids.map Visit.pid).forM act; pure ftev) := by
  rw [FtraceEvent.forEachPid, ftraceEventData_observe,
    onPresent_observe act (fun p : UInt32 => Visit.pid p.toInt32) _ fun a => by simp [observe]]
  simp [FtraceEvent.pids, Function.comp_def]

/-- A list traversed by functions that return their argument. -/
theorem mapM_observe {α : Type} (act : Visit → m PUnit) (f : α → m α) (v : α → List Visit)
    (h : ∀ a, f a = (do (v a).forM act; pure a)) :
    ∀ l : List α, l.mapM f = (do (l.flatMap v).forM act; pure l)
  | [] => by simp
  | a :: l => by simp [h a, mapM_observe act f v h l]

theorem bundle_observe (act : Visit → m PUnit) (ftevts : FtraceEventBundle ρ) :
    ftevts.forEachId (observe act) = (do ftevts.visits.forM act; pure ftevts) := by
  rw [FtraceEventBundle.forEachId, mapM_observe act _ _ (ftraceEvent_observe act),
    onPresent_observe act (fun c : UInt32 => Visit.cpu c.toInt32) _ fun a => by simp [observe]]
  simp [FtraceEventBundle.visits]

theorem processTree_observe (act : Visit → m PUnit) (pt : ProcessTree ρ) :
    pt.forEachId (observe act) = (do pt.visits.forM act; pure pt) := by
  rw [ProcessTree.forEachId,
    mapM_observe act _ (fun p => p.pid.toList.map Visit.pid)
      fun p => by simp [Process.forEachPid, onPresent_pid],
    mapM_observe act _ (fun t => t.tid.toList.map Visit.tid ++ t.tgid.toList.map Visit.pid)
      fun t => by simp [Thread.forEachId, onPresent_pid, onPresent_tid]]
  simp [ProcessTree.visits]

/-- A callback that returns its argument records no uuid. -/
theorem transform_observe (gen : ℕ → UInt64) (act : Visit → m PUnit) (prev : Int32) (uuid : UInt64) :
    transformPidWithUuidRemapTracking gen (observe act).forEachPid prev uuid =
      liftM (do act (Visit.pid prev); pure prev) := by
  ext s
  simp [transformPidWithUuidRemapTracking, observe]

theorem trackDescriptor_observe (gen : ℕ → UInt64) (act : Visit → m PUnit) (trd : TrackDescriptor ρ) :
    trd.forEachPid gen (observe act).forEachPid =
      liftM (do (trd.pids.map Visit.pid).forM act; pure trd) := by
  rcases trd with ⟨uuid, parent, _ | ⟨_ | p, po⟩, _ | ⟨_ | t, ttid, tother⟩, o⟩ <;> ext s <;>
    simp [TrackDescriptor.forEachPid, TrackDescriptor.pids, onPresent, ProcessDescriptor.forEachPid,
      ThreadDescriptor.forEachPid, transform_observe]

theorem packetData_observe (gen : ℕ → UInt64) (act : Visit → m PUnit) (d : PacketData ρ) :
    d.forEachId gen (observe act) = liftM (do d.visits.forM act; pure d) := by
  cases d <;> ext s <;>
    simp [PacketData.forEachId, PacketData.visits, bundle_observe, processTree_observe,
      trackDescriptor_observe]

theorem packet_observe (gen : ℕ → UInt64) (act : Visit → m PUnit) (packet : TracePacket ρ) :
    packet.forEachId gen (observe act) = liftM (do packet.visits.forM act; pure packet) := by
  rw [TracePacket.forEachId, packetData_observe,
    onPresent_observe act (fun u : Int32 => Visit.trustedUid u.toUInt32) _ fun a => by simp [observe],
    onPresent_observe act Visit.sequenceId (observe act).forEachSequenceId fun a => rfl]
  ext s
  simp [TracePacket.visits]

theorem packets_observe (gen : ℕ → UInt64) (act : Visit → m PUnit) :
    ∀ t : Trace ρ, t.mapM (TracePacket.forEachId gen (observe act)) =
      liftM (do (t.flatMap TracePacket.visits).forM act; pure t)
  | [] => by ext s; simp
  | p :: t => by
    ext s
    simp [packet_observe, packets_observe gen act t]

/-- With callbacks that return their argument the trace stays as it is and
their effects run along the visits. -/
theorem iterateTraceIds_observe (gen : ℕ → UInt64) (act : Visit → m PUnit) (t : Trace ρ) :
    iterateTraceIds gen t (observe act) = (do (t.flatMap TracePacket.visits).forM act; pure t) := by
  rw [iterateTraceIds, packets_observe]
  simp

end Observe

/-! ### Pure callbacks -/

/-- Pure callbacks. -/
structure IdMap where
  trustedUid : UInt32 → UInt32
  sequenceId : UInt32 → UInt32
  pid : Int32 → Int32
  tid : Int32 → Int32
  cpu : Int32 → Int32

def IdMap.toCallbacks (g : IdMap) : IdCallbacks Id :=
  ⟨g.trustedUid, g.sequenceId, g.pid, g.tid, g.cpu⟩

/-- A pid field that is rewritten only when not 0. -/
def mapNonzero (g : Int32 → Int32) (o : Option Int32) : Option Int32 :=
  o.map fun pid => if pid ≠ 0 then g pid else pid

def FtraceEventData.mapPids (g : Int32 → Int32) : FtraceEventData ρ → FtraceEventData ρ
  | .schedSwitch prevPid nextPid o => .schedSwitch (mapNonzero g prevPid) (mapNonzero g nextPid) o
  | .schedWakeup pid o => .schedWakeup (mapNonzero g pid) o
  | .schedBlockedReason pid o => .schedBlockedReason (mapNonzero g pid) o
  | .schedWaking pid o => .schedWaking (mapNonzero g pid) o
  | .schedWakeupNew pid o => .schedWakeupNew (mapNonzero g pid) o
  | .schedProcessExec pid oldPid o => .schedProcessExec (mapNonzero g pid) (mapNonzero g oldPid) o
  | .schedProcessExit pid tgid o => .schedProcessExit (mapNonzero g pid) (mapNonzero g tgid) o
  | .schedProcessFork parentPid childPid o =>
    .schedProcessFork (mapNonzero g parentPid) (mapNonzero g childPid) o
  | .schedProcessFree pid o => .schedProcessFree (mapNonzero g pid) o
  | .schedProcessHang pid o => .schedProcessHang (mapNonzero g pid) o
  | .schedProcessWait pid o => .schedProcessWait (mapNonzero g pid) o
  | .notSet => .notSet
  | .otherEvent o => .otherEvent o

def FtraceEvent.mapPids (g : Int32 → Int32) (ftev : FtraceEvent ρ) : FtraceEvent ρ :=
  { ftev with
    pid := ftev.pid.map fun pid => (g pid.toInt32).toUInt32
    event := ftev.event.mapPids g }

def FtraceEventBundle.mapIds (g : IdMap) (ftevts : FtraceEventBundle ρ) : FtraceEventBundle ρ :=
  { ftevts with
    cpu := ftevts.cpu.map fun cpu => (g.cpu cpu.toInt32).toUInt32
    event := ftevts.event.map (FtraceEvent.mapPids g.pid) }

def TrackDescriptor.mapPids (g : Int32 → Int32) (trd : TrackDescriptor ρ) : TrackDescriptor ρ :=
  { trd with
    process := trd.process.map fun p => { p with pid := p.pid.map g }
    thread := trd.thread.map fun t => { t with pid := t.pid.map g } }

def ProcessTree.mapIds (g : IdMap) (pt : ProcessTree ρ) : ProcessTree ρ :=
  { pt with
    processes := pt.processes.map fun p => { p with pid := p.pid.map g.pid }
    threads := pt.threads.map fun t => { t with tid := t.tid.map g.tid, tgid := t.tgid.map g.pid } }

def PacketData.mapIds (g : IdMap) : PacketData ρ → PacketData ρ
  | .ftraceEvents ftevts => .ftraceEvents (ftevts.mapIds g)
  | .trackDescriptor trd => .trackDescriptor (trd.mapPids g.pid)
  | .processTree pt => .processTree (pt.mapIds g)
  | data => data

def TracePacket.mapIds (g : IdMap) (packet : TracePacket ρ) : TracePacket ρ :=
  { packet with
    trustedUid := packet.trustedUid.map fun uid => (g.trustedUid uid.toUInt32).toInt32
    trustedPacketSequenceId := packet.trustedPacketSequenceId.map g.sequenceId
    data := packet.data.mapIds g }

/-- The pids of a packet's descriptor, each with the descriptor's uuid: what
`transformPidWithUuidRemapTracking` is called with. -/
def TracePacket.descriptorPids (packet : TracePacket ρ) : List (Int32 × UInt64) :=
  match packet.data with
  | .trackDescriptor trd => trd.pids.map fun pid => (pid, trd.uuid.getD 0)
  | _ => []

/-- The effect of one call of `transformPidWithUuidRemapTracking`. -/
def recordUuid (gen : ℕ → UInt64) (g : Int32 → Int32) (s : UuidRemap) (p : Int32 × UInt64) :
    UuidRemap :=
  if p.1 = g p.1 then s
  else if (s.uuidMap.lookup p.2).isSome then s
  else ⟨true, (p.2, gen s.generated) :: s.uuidMap, s.generated + 1⟩

theorem onPresent_pure {α : Type} (g : α → α) (o : Option α) :
    onPresent (m := Id) g o = o.map g := by
  cases o <;> rfl

theorem onNonzero_pure (g : Int32 → Int32) (o : Option Int32) :
    onNonzero (m := Id) g o = mapNonzero g o := by
  cases o with
  | none => rfl
  | some p => by_cases hp : p = 0 <;> simp [onNonzero, mapNonzero, hp] <;> rfl

theorem ftraceEventData_pure (g : Int32 → Int32) (e : FtraceEventData ρ) :
    e.forEachPid (m := Id) g = e.mapPids g := by
  cases e <;> simp only [FtraceEventData.forEachPid, FtraceEventData.mapPids, onNonzero_pure] <;> rfl

theorem ftraceEvent_pure (g : Int32 → Int32) (ftev : FtraceEvent ρ) :
    ftev.forEachPid (m := Id) g = ftev.mapPids g := by
  simp only [FtraceEvent.forEachPid, ftraceEventData_pure, onPresent_pure]
  rfl

theorem mapM_pure {α : Type} (f : α → Id α) (g : α → α) (h : ∀ a, f a = g a) (l : List α) :
    l.mapM f = (l.map g : Id (List α)) := by
  have : f = fun a => (pure (g a) : Id α) := funext h
  rw [this, List.mapM_pure]
  rfl

theorem bundle_pure (g : IdMap) (ftevts : FtraceEventBundle ρ) :
    ftevts.forEachId g.toCallbacks = ftevts.mapIds g := by
  simp only [FtraceEventBundle.forEachId]
  rw [mapM_pure (FtraceEvent.forEachPid g.toCallbacks.forEachPid) (FtraceEvent.mapPids g.pid)
    (ftraceEvent_pure g.pid)]
  simp only [onPresent_pure]
  rfl

theorem processTree_pure (g : IdMap) (pt : ProcessTree ρ) :
    pt.forEachId g.toCallbacks = pt.mapIds g := by
  simp only [ProcessTree.forEachId]
  rw [mapM_pure _ (fun p => { p with pid := p.pid.map g.pid }) fun p => by
      simp only [Process.forEachPid, onPresent_pure]; rfl,
    mapM_pure _ (fun t => { t with tid := t.tid.map g.tid, tgid := t.tgid.map g.pid }) fun t => by
      simp only [Thread.forEachId, onPresent_pure]; rfl]
  rfl

theorem transform_pure (gen : ℕ → UInt64) (g : Int32 → Int32) (prev : Int32) (uuid : UInt64)
    (s : UuidRemap) :
    (transformPidWithUuidRemapTracking (m := Id) gen g prev uuid).run s =
      (g prev, recordUuid gen g s (prev, uuid)) := by
  rw [transformPidWithUuidRemapTracking, StateT.run_bind]
  change StateT.run (if prev = g prev then pure (g prev) else _) s = _
  by_cases h1 : prev = g prev
  · rw [if_pos h1, recordUuid, if_pos h1]
    rfl
  · rw [if_neg h1, recordUuid, if_neg h1]
    change StateT.run (if (s.uuidMap.lookup uuid).isSome = true then pure (g prev) else _) s = _
    by_cases h2 : (s.uuidMap.lookup uuid).isSome = true
    · rw [if_pos h2, if_pos h2]
      rfl
    · rw [if_neg h2, if_neg h2]
      rfl

theorem trackDescriptor_pure (gen : ℕ → UInt64) (g : Int32 → Int32) (trd : TrackDescriptor ρ)
    (s : UuidRemap) :
    (trd.forEachPid (m := Id) gen g).run s =
      (trd.mapPids g, (trd.pids.map fun pid => (pid, trd.uuid.getD 0)).foldl (recordUuid gen g) s) := by
  rcases trd with ⟨uuid, parent, _ | ⟨_ | p, po⟩, _ | ⟨_ | t, ttid, tother⟩, o⟩ <;>
    simp [TrackDescriptor.forEachPid, TrackDescriptor.mapPids, TrackDescriptor.pids, onPresent,
      ProcessDescriptor.forEachPid, ThreadDescriptor.forEachPid, transform_pure] <;> rfl

theorem packet_pure (gen : ℕ → UInt64) (g : IdMap) (packet : TracePacket ρ) (s : UuidRemap) :
    (packet.forEachId gen g.toCallbacks).run s =
      (packet.mapIds g, packet.descriptorPids.foldl (recordUuid gen g.pid) s) := by
  have hd : (packet.data.forEachId gen g.toCallbacks).run s =
      (packet.data.mapIds g, packet.descriptorPids.foldl (recordUuid gen g.pid) s) := by
    unfold TracePacket.descriptorPids
    cases packet.data with
    | ftraceEvents ftevts => simp only [PacketData.forEachId, bundle_pure]; rfl
    | processTree pt => simp only [PacketData.forEachId, processTree_pure]; rfl
    | trackDescriptor trd =>
      have h := trackDescriptor_pure gen g.pid trd s
      simp only [PacketData.forEachId, StateT.run_bind]
      exact congrArg (fun x => (PacketData.trackDescriptor x.1, x.2)) h
    | notSet | clockSnapshot cs | trackEvent te | serviceEvent o | otherData o => rfl
  simp only [TracePacket.forEachId, onPresent_pure]
  exact congrArg (fun x => ({ packet.mapIds g with data := x.1 }, x.2)) hd

theorem packets_pure (gen : ℕ → UInt64) (g : IdMap) : ∀ (t : Trace ρ) (s : UuidRemap),
    (t.mapM (TracePacket.forEachId gen g.toCallbacks)).run s =
      (t.map (TracePacket.mapIds g), (t.flatMap TracePacket.descriptorPids).foldl (recordUuid gen g.pid) s)
  | [], _ => rfl
  | p :: t, s => by
    rw [List.mapM_cons, StateT.run_bind, packet_pure]
    simp only [StateT.run_bind, List.flatMap_cons, List.foldl_append]
    exact congrArg (fun x => (p.mapIds g :: x.1, x.2)) (packets_pure gen g t _)

/-- What the first pass of `iterateTraceIds` records about uuids. -/
def uuidRemap (gen : ℕ → UInt64) (g : Int32 → Int32) (t : Trace ρ) : UuidRemap :=
  (t.flatMap TracePacket.descriptorPids).foldl (recordUuid gen g) {}

/-- With pure callbacks the first pass is a map on the packets; the uuid pass
runs on its result. -/
theorem iterateTraceIds_pure (gen : ℕ → UInt64) (g : IdMap) (t : Trace ρ) :
    iterateTraceIds gen t g.toCallbacks =
      if (uuidRemap gen g.pid t).needRemapUuids then
        ((iterateTraceTrackDescriptorUuids (t.map (TracePacket.mapIds g)) remapUuid).run
          (uuidRemap gen g.pid t).uuidMap).1
      else t.map (TracePacket.mapIds g) := by
  rw [iterateTraceIds, packets_pure]
  simp only [uuidRemap]
  rfl

/-! ### The visits of a rewritten trace -/

def Visit.map (g : IdMap) : Visit → Visit
  | .trustedUid u => .trustedUid (g.trustedUid u)
  | .sequenceId s => .sequenceId (g.sequenceId s)
  | .pid p => .pid (g.pid p)
  | .tid t => .tid (g.tid t)
  | .cpu c => .cpu (g.cpu c)

/-- `g` makes none of the pids 0 that is not. A scheduling field that became
0 would no longer be visited. -/
def KeepsNonzero (g : Int32 → Int32) (pids : List Int32) : Prop :=
  ∀ pid ∈ pids, pid ≠ 0 → g pid ≠ 0

theorem KeepsNonzero.mono {g : Int32 → Int32} {l l' : List Int32} (h : KeepsNonzero g l)
    (hs : ∀ x ∈ l', x ∈ l) : KeepsNonzero g l' :=
  fun pid hp => h pid (hs pid hp)

theorem nonzero_mapNonzero {g : Int32 → Int32} {o : Option Int32} (h : KeepsNonzero g (nonzero o)) :
    nonzero (mapNonzero g o) = (nonzero o).map g := by
  cases o with
  | none => rfl
  | some p =>
    by_cases hp : p = 0
    · simp [nonzero, mapNonzero, hp]
    · have := h p (by simp [nonzero, hp]) hp
      simp [nonzero, mapNonzero, hp, this]

theorem ftraceEventData_pids_map {g : Int32 → Int32} {e : FtraceEventData ρ}
    (h : KeepsNonzero g e.pids) : (e.mapPids g).pids = e.pids.map g := by
  cases e with
  | schedSwitch a b o | schedProcessExec a b o | schedProcessExit a b o | schedProcessFork a b o =>
    simp only [FtraceEventData.pids] at h
    simp only [FtraceEventData.mapPids, FtraceEventData.pids, List.map_append,
      nonzero_mapNonzero (h.mono fun x hx => List.mem_append_left _ hx),
      nonzero_mapNonzero (h.mono fun x hx => List.mem_append_right _ hx)]
  | notSet | otherEvent o => rfl
  | schedWakeup a o | schedBlockedReason a o | schedWaking a o | schedWakeupNew a o
  | schedProcessFree a o | schedProcessHang a o | schedProcessWait a o =>
    exact nonzero_mapNonzero h

theorem ftraceEvent_pids_map {g : Int32 → Int32} {ftev : FtraceEvent ρ}
    (h : KeepsNonzero g ftev.pids) : (ftev.mapPids g).pids = ftev.pids.map g := by
  have he := ftraceEventData_pids_map (h.mono fun x hx => List.mem_append_right _ hx)
  cases hp : ftev.pid <;> simp [FtraceEvent.pids, FtraceEvent.mapPids, he, hp]

/-- The pids among visits. -/
def visitedPids (vs : List Visit) : List Int32 :=
  vs.filterMap fun v => match v with
    | .pid pid => some pid
    | _ => none

theorem mem_visitedPids {vs : List Visit} {pid : Int32} : pid ∈ visitedPids vs ↔ .pid pid ∈ vs := by
  simp only [visitedPids, List.mem_filterMap]
  constructor
  · intro hex
    obtain ⟨v, hv, hp⟩ := hex
    cases v <;> simp_all
  · exact fun h => ⟨_, h, rfl⟩

theorem bundle_visits_map {g : IdMap} {ftevts : FtraceEventBundle ρ}
    (h : KeepsNonzero g.pid (visitedPids ftevts.visits)) :
    (ftevts.mapIds g).visits = ftevts.visits.map (Visit.map g) := by
  have hev : ∀ ftev ∈ ftevts.event, (ftev.mapPids g.pid).pids = ftev.pids.map g.pid := by
    intro ftev hm
    refine ftraceEvent_pids_map (h.mono fun x hx => mem_visitedPids.mpr ?_)
    exact List.mem_append_right _ (List.mem_flatMap.mpr ⟨ftev, hm, List.mem_map_of_mem hx⟩)
  have hev' : (ftevts.event.map (FtraceEvent.mapPids g.pid)).flatMap (fun ftev => ftev.pids.map Visit.pid) =
      (ftevts.event.flatMap fun ftev => ftev.pids.map Visit.pid).map (Visit.map g) := by
    rw [List.flatMap_map, List.map_flatMap, List.flatMap_congr]
    intro ftev hm
    simp [hev ftev hm, Visit.map]
  simp only [FtraceEventBundle.visits, FtraceEventBundle.mapIds, hev', List.map_append]
  cases ftevts.cpu <;> simp [Visit.map]

theorem processTree_visits_map (g : IdMap) (pt : ProcessTree ρ) :
    (pt.mapIds g).visits = pt.visits.map (Visit.map g) := by
  simp only [ProcessTree.visits, ProcessTree.mapIds, List.map_append, List.map_flatMap, List.flatMap_map]
  congr 1
  · apply List.flatMap_congr
    intro p _
    cases p.pid <;> rfl
  · apply List.flatMap_congr
    intro t _
    cases t.tid <;> cases t.tgid <;> rfl

theorem trackDescriptor_pids_map (g : Int32 → Int32) (trd : TrackDescriptor ρ) :
    (trd.mapPids g).pids = trd.pids.map g := by
  rcases trd with ⟨uuid, parent, _ | ⟨_ | p, po⟩, _ | ⟨_ | t, ttid, tother⟩, o⟩ <;> rfl

theorem packet_visits_map {g : IdMap} {packet : TracePacket ρ}
    (h : KeepsNonzero g.pid (visitedPids packet.visits)) :
    (packet.mapIds g).visits = packet.visits.map (Visit.map g) := by
  have hd : (packet.data.mapIds g).visits = packet.data.visits.map (Visit.map g) := by
    have h' : KeepsNonzero g.pid (visitedPids packet.data.visits) :=
      h.mono fun x hx => mem_visitedPids.mpr (List.mem_append_right _ (mem_visitedPids.mp hx))
    cases hc : packet.data with
    | ftraceEvents ftevts => rw [hc] at h'; exact bundle_visits_map h'
    | processTree pt => exact processTree_visits_map g pt
    | trackDescriptor trd =>
      simp [PacketData.mapIds, PacketData.visits, trackDescriptor_pids_map, Visit.map]
    | notSet | clockSnapshot cs | trackEvent te | serviceEvent o | otherData o => rfl
  simp only [TracePacket.visits, TracePacket.mapIds, hd, List.map_append]
  cases packet.trustedUid <;> cases packet.trustedPacketSequenceId <;> simp [Visit.map]

@[simp] theorem visits_clear (packet : TracePacket ρ) :
    (clearSnapshotAndServiceEvent packet).visits = packet.visits := by
  rcases packet with ⟨ts, uid, seq, tpd, data, o⟩
  cases data <;> rfl

@[simp] theorem visits_mapTimestamps (f : UInt64 → UInt64) (packet : TracePacket ρ) :
    (packet.mapTimestamps f).visits = packet.visits := by
  rcases packet with ⟨ts, uid, seq, tpd, data, o⟩
  cases data with
  | ftraceEvents ftevts =>
    simp [TracePacket.visits, TracePacket.mapTimestamps, PacketData.visits, FtraceEventBundle.visits,
      FtraceEvent.mapTimestamp, List.flatMap_map, FtraceEvent.pids]
  | _ => rfl

end Merge
end VPerfetto
