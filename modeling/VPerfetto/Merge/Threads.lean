/-
# Kernel threads through a merge

One kernel thread is named by its id in several fields: in scheduling and
ftrace events, in the process tree and in thread descriptors. A merge moves
the first by the main trace's maximal pid, the second by its maximal tid and
leaves `ThreadDescriptor.tid` alone, as it does the compact scheduling events
and the fields of events it does not look into (`tidRefs_rewriteAddon`).

So a thread keeps one id exactly when these offsets agree wherever it occurs
(`sameThreads_iff`). The thread ids in the events the merge does not look into
are whatever `otherPids` says they are.

Key definitions: `TidRef`, `tidRefs`, `SameThreads`, `ThreadsTogether`,
`EventsMoveAlong`.
Key theorems: `tidRefs_rewriteAddon`, `sameThreads_iff_moveAlong`,
`sameThreads_iff`.
-/
import VPerfetto.Merge.Rewrite

namespace VPerfetto
namespace Merge

variable {ρ : Type}

/-- The fields that hold the id of a kernel thread. -/
inductive TidField where
  | ftraceEvent
  | otherEvent
  | compactSched
  | processTreeThread
  | threadDescriptor
  deriving DecidableEq

/-- The fields of scheduling and ftrace events. -/
def TidField.isEvent : TidField → Bool
  | .ftraceEvent => true
  | .otherEvent => true
  | .compactSched => true
  | .processTreeThread => false
  | .threadDescriptor => false

/-- What the merge adds to a non-zero id in the field. -/
def TidField.shift (maxMain : MaxIds) : TidField → UInt32
  | .ftraceEvent => maxMain.pid
  | .processTreeThread => maxMain.tid
  | .otherEvent => 0
  | .compactSched => 0
  | .threadDescriptor => 0

/-- An occurrence of a kernel thread id. -/
structure TidRef where
  field : TidField
  tid : UInt32
  deriving DecidableEq

def TidRef.ofPid (field : TidField) (pid : Int32) : TidRef := ⟨field, pid.toUInt32⟩

section

variable (otherPids : ρ → List Int32)

/-- The pid fields of an event that are set, zeros included. -/
def FtraceEventData.pidFields : FtraceEventData ρ → List Int32
  | .schedSwitch prevPid nextPid _ => prevPid.toList ++ nextPid.toList
  | .schedWakeup pid _ => pid.toList
  | .schedBlockedReason pid _ => pid.toList
  | .schedWaking pid _ => pid.toList
  | .schedWakeupNew pid _ => pid.toList
  | .schedProcessExec pid oldPid _ => pid.toList ++ oldPid.toList
  | .schedProcessExit pid tgid _ => pid.toList ++ tgid.toList
  | .schedProcessFork parentPid childPid _ => parentPid.toList ++ childPid.toList
  | .schedProcessFree pid _ => pid.toList
  | .schedProcessHang pid _ => pid.toList
  | .schedProcessWait pid _ => pid.toList
  | .notSet => []
  | .otherEvent _ => []

def FtraceEventData.tidRefs (e : FtraceEventData ρ) : List TidRef :=
  e.pidFields.map (TidRef.ofPid .ftraceEvent) ++
    match e with
    | .otherEvent o => (otherPids o).map (TidRef.ofPid .otherEvent)
    | _ => []

def FtraceEvent.tidRefs (ftev : FtraceEvent ρ) : List TidRef :=
  ftev.pid.toList.map (⟨.ftraceEvent, ·⟩) ++ ftev.event.tidRefs otherPids

def CompactSched.tidRefs (c : CompactSched ρ) : List TidRef :=
  (c.switchNextPid ++ c.wakingPid).map (TidRef.ofPid .compactSched)

def FtraceEventBundle.tidRefs (ftevts : FtraceEventBundle ρ) : List TidRef :=
  ftevts.event.flatMap (FtraceEvent.tidRefs otherPids) ++
    ftevts.compactSched.toList.flatMap CompactSched.tidRefs

def PacketData.tidRefs : PacketData ρ → List TidRef
  | .ftraceEvents ftevts => ftevts.tidRefs otherPids
  | .trackDescriptor trd =>
    trd.thread.toList.flatMap fun t => t.tid.toList.map (TidRef.ofPid .threadDescriptor)
  | .processTree pt => pt.threads.flatMap fun t => t.tid.toList.map (TidRef.ofPid .processTreeThread)
  | _ => []

/-- All occurrences of kernel thread ids in a trace, in order. -/
def tidRefs (t : Trace ρ) : List TidRef := t.flatMap fun p => p.data.tidRefs otherPids

end

/-- The id occurs in an event and as a thread id elsewhere. -/
def OccursBoth (refs : List TidRef) (tid : UInt32) : Prop :=
  (∃ r ∈ refs, r.tid = tid ∧ r.field.isEvent = true) ∧ ∃ r ∈ refs, r.tid = tid ∧ r.field.isEvent = false

/-- Two occurrences of one non-zero id that occurs both in events and elsewhere
hold one id afterwards. -/
structure SameThreads (before after : List TidRef) : Prop where
  length_eq : after.length = before.length
  same : ∀ p ∈ before.zip after, ∀ q ∈ before.zip after, p.1.tid = q.1.tid → p.1.tid ≠ 0 →
    OccursBoth before p.1.tid → p.2.tid = q.2.tid

/-- The offsets agree wherever a thread occurs in an event and elsewhere. -/
structure ThreadsTogether (maxPid maxTid : ℕ) (refs : List TidRef) : Prop where
  event_tree : ∀ tid ≠ 0, ⟨.ftraceEvent, tid⟩ ∈ refs → ⟨.processTreeThread, tid⟩ ∈ refs → maxPid = maxTid
  event_descriptor : ∀ tid ≠ 0, ⟨.ftraceEvent, tid⟩ ∈ refs → ⟨.threadDescriptor, tid⟩ ∈ refs → maxPid = 0
  compact_tree : ∀ tid ≠ 0, ⟨.compactSched, tid⟩ ∈ refs → ⟨.processTreeThread, tid⟩ ∈ refs → maxTid = 0
  other_tree : ∀ tid ≠ 0, ⟨.otherEvent, tid⟩ ∈ refs → ⟨.processTreeThread, tid⟩ ∈ refs → maxTid = 0

/-! ### The occurrences after a merge -/

/-- What the merge makes of an occurrence. -/
def TidRef.rewrite (maxMain : MaxIds) (r : TidRef) : TidRef :=
  { r with tid := offset .pid (r.field.shift maxMain) r.tid }

theorem offset_pid_zero (v : UInt32) : offset .pid 0 v = v := by
  simp only [offset]
  split_ifs with h
  · exact h.symm
  · exact UInt32.add_zero v

/-- A field that keeps its value. -/
theorem rewrite_unshifted (maxMain : MaxIds) (field : TidField) (h : field.shift maxMain = 0) (l : List Int32) :
    (l.map (TidRef.ofPid field)).map (TidRef.rewrite maxMain) = l.map (TidRef.ofPid field) := by
  rw [List.map_map]
  apply List.map_congr_left
  intro p _
  simp only [Function.comp_apply, TidRef.rewrite, TidRef.ofPid, h, offset_pid_zero]

theorem offsets_pid (maxMain : MaxIds) (pid : Int32) :
    ((offsets maxMain).pid pid).toUInt32 = offset .pid maxMain.pid pid.toUInt32 :=
  map_value maxMain (.pid pid)

theorem offsets_tid (maxMain : MaxIds) (tid : Int32) :
    ((offsets maxMain).tid tid).toUInt32 = offset .pid maxMain.tid tid.toUInt32 :=
  map_value maxMain (.tid tid)

theorem pidFields_mapPids (maxMain : MaxIds) (e : FtraceEventData ρ) :
    ((e.mapPids (offsets maxMain).pid).pidFields.map (TidRef.ofPid .ftraceEvent)) =
      (e.pidFields.map (TidRef.ofPid .ftraceEvent)).map (TidRef.rewrite maxMain) := by
  have hone : ∀ o : Option Int32, (mapNonzero (offsets maxMain).pid o).toList.map (TidRef.ofPid .ftraceEvent) =
      (o.toList.map (TidRef.ofPid .ftraceEvent)).map (TidRef.rewrite maxMain) := by
    intro o
    cases o with
    | none => rfl
    | some p =>
      have hz : (if p ≠ 0 then (offsets maxMain).pid p else p) = (offsets maxMain).pid p := by
        by_cases hp : p = 0 <;> simp [hp, offsets]
      simp only [mapNonzero, Option.map_some, Option.toList_some, List.map_cons, List.map_nil, hz,
        TidRef.ofPid, TidRef.rewrite, offsets_pid, TidField.shift]
  cases e <;>
    simp only [FtraceEventData.mapPids, FtraceEventData.pidFields, List.map_append, List.map_nil, hone]

theorem event_tidRefs (otherPids : ρ → List Int32) (shift : UInt64 → UInt64) (maxMain : MaxIds)
    (ftev : FtraceEvent ρ) :
    ((ftev.mapTimestamp shift).mapPids (offsets maxMain).pid).tidRefs otherPids =
      (ftev.tidRefs otherPids).map (TidRef.rewrite maxMain) := by
  have hdata : (ftev.event.mapPids (offsets maxMain).pid).tidRefs otherPids =
      (ftev.event.tidRefs otherPids).map (TidRef.rewrite maxMain) := by
    simp only [FtraceEventData.tidRefs, List.map_append, pidFields_mapPids]
    congr 1
    cases ftev.event with
    | otherEvent o => exact (rewrite_unshifted maxMain .otherEvent rfl _).symm
    | _ => rfl
  have hpid : (ftev.pid.map fun pid => ((offsets maxMain).pid pid.toInt32).toUInt32).toList.map
        (TidRef.mk .ftraceEvent) =
      (ftev.pid.toList.map (TidRef.mk .ftraceEvent)).map (TidRef.rewrite maxMain) := by
    cases ftev.pid <;> simp [TidRef.rewrite, offsets_pid, TidField.shift]
  simp only [FtraceEvent.tidRefs, FtraceEvent.mapPids, FtraceEvent.mapTimestamp, List.map_append, hdata, hpid]

theorem data_tidRefs (otherPids : ρ → List Int32) (maxMain : MaxIds) (diff : Int64)
    (rename : UInt64 → UInt64) (d : PacketData ρ) :
    (d.rewrite maxMain diff rename).tidRefs otherPids =
      (d.tidRefs otherPids).map (TidRef.rewrite maxMain) := by
  cases d with
  | notSet | clockSnapshot cs | trackEvent te | serviceEvent o | otherData o => rfl
  | ftraceEvents b =>
    have hcompact : (b.compactSched.toList.flatMap CompactSched.tidRefs).map (TidRef.rewrite maxMain) =
        b.compactSched.toList.flatMap CompactSched.tidRefs := by
      rw [List.map_flatMap]
      exact List.flatMap_congr fun c _ => rewrite_unshifted maxMain .compactSched rfl _
    simp only [PacketData.rewrite, PacketData.tidRefs, FtraceEventBundle.tidRefs, List.map_append, hcompact]
    rw [List.flatMap_map, List.map_flatMap, List.flatMap_congr]
    exact fun e _ => event_tidRefs otherPids _ maxMain e
  | processTree pt =>
    simp only [PacketData.rewrite, PacketData.tidRefs, ProcessTree.mapIds]
    rw [List.flatMap_map, List.map_flatMap]
    apply List.flatMap_congr
    intro t _
    cases t.tid <;> simp [TidRef.rewrite, TidRef.ofPid, offsets_tid, TidField.shift]
  | trackDescriptor trd =>
    simp only [PacketData.rewrite, PacketData.tidRefs, TrackDescriptor.mapPids]
    rw [List.map_flatMap]
    cases trd.thread with
    | none => rfl
    | some t =>
      simp only [Option.map_some, Option.toList_some, List.flatMap_cons, List.flatMap_nil,
        rewrite_unshifted maxMain .threadDescriptor rfl]

/-- Every occurrence is moved by the offset of its field. -/
theorem tidRefs_rewriteAddon (otherPids : ρ → List Int32) (gen : ℕ → UInt64) (maxMain : MaxIds)
    (diff : Int64) (addon : Trace ρ) :
    tidRefs otherPids (rewriteAddon gen maxMain diff addon) =
      (tidRefs otherPids addon).map (TidRef.rewrite maxMain) := by
  rw [rewriteAddon_packets, tidRefs, List.flatMap_map, tidRefs, List.map_flatMap]
  apply List.flatMap_congr
  intro p _
  rw [rewritePacket_data, data_tidRefs]

/-! ### When they stay together -/

theorem offset_pid_inj {a b v : UInt32} (hv : v ≠ 0) : offset .pid a v = offset .pid b v ↔ a = b := by
  simp only [offset, hv, if_false]
  exact UInt32.add_right_inj v

/-- Where a thread occurs in two fields, the offsets of these fields agree. -/
theorem sameThreads_map (maxMain : MaxIds) (refs : List TidRef) :
    SameThreads refs (refs.map (TidRef.rewrite maxMain)) ↔
      ∀ r ∈ refs, ∀ r' ∈ refs, r.tid = r'.tid → r.tid ≠ 0 → OccursBoth refs r.tid →
        r.field.shift maxMain = r'.field.shift maxMain := by
  constructor
  · intro h r hr r' hr' heq hne hboth
    have hsame := h.same _ (mem_zip_map.mpr ⟨r, hr, rfl⟩) _ (mem_zip_map.mpr ⟨r', hr', rfl⟩) heq hne hboth
    simp only [TidRef.rewrite, ← heq] at hsame
    exact (offset_pid_inj hne).mp hsame
  · intro h
    refine ⟨List.length_map _, fun p hp q hq heq hne hboth => ?_⟩
    obtain ⟨r, hr, rfl⟩ := mem_zip_map.mp hp
    obtain ⟨r', hr', rfl⟩ := mem_zip_map.mp hq
    have hshift := h r hr r' hr' heq hne hboth
    simp only [TidRef.rewrite]
    rw [hshift, heq]

/-- An event field and another field with the same thread move alike. -/
def EventsMoveAlong (maxMain : MaxIds) (refs : List TidRef) : Prop :=
  ∀ f f' : TidField, f.isEvent = true → f'.isEvent = false → ∀ tid ≠ 0, ⟨f, tid⟩ ∈ refs → ⟨f', tid⟩ ∈ refs →
    f.shift maxMain = f'.shift maxMain

/-- Two occurrences of one thread move alike if each moves as an occurrence of the other kind does. -/
theorem sameThreads_iff_moveAlong (maxMain : MaxIds) (refs : List TidRef) :
    SameThreads refs (refs.map (TidRef.rewrite maxMain)) ↔ EventsMoveAlong maxMain refs := by
  rw [sameThreads_map]
  constructor
  · intro h f f' hf hf' tid hne hr hr'
    exact h _ hr _ hr' rfl hne ⟨⟨_, hr, rfl, hf⟩, _, hr', rfl, hf'⟩
  · intro h r hr r' hr' heq hne hboth
    obtain ⟨⟨e, he, hetid, hev⟩, o, ho, hotid, hoth⟩ := hboth
    have hother : ∀ x ∈ refs, x.tid = r.tid → ⟨x.field, r.tid⟩ ∈ refs := fun x hx hxt => hxt ▸ hx
    -- every occurrence agrees with the one in an event
    have hall : ∀ x ∈ refs, x.tid = r.tid → x.field.shift maxMain = e.field.shift maxMain := by
      intro x hx hxt
      have heo : e.field.shift maxMain = o.field.shift maxMain :=
        h _ _ hev hoth r.tid hne (hother e he hetid) (hother o ho hotid)
      cases hxe : x.field.isEvent with
      | true => exact (h _ _ hxe hoth r.tid hne (hother x hx hxt) (hother o ho hotid)).trans heo.symm
      | false => exact (h _ _ hev hxe r.tid hne (hother e he hetid) (hother x hx hxt)).symm
    calc r.field.shift maxMain = e.field.shift maxMain := hall r hr rfl
      _ = r'.field.shift maxMain := (hall r' hr' heq.symm).symm

/-- Which fields can differ, and when they do. -/
theorem moveAlong_iff (maxMain : MaxIds) (refs : List TidRef) :
    EventsMoveAlong maxMain refs ↔ ThreadsTogether maxMain.pid.toNat maxMain.tid.toNat refs := by
  constructor
  · intro h
    constructor
    · intro tid hne hr hr'
      exact congrArg UInt32.toNat (h .ftraceEvent .processTreeThread rfl rfl tid hne hr hr')
    · intro tid hne hr hr'
      exact congrArg UInt32.toNat (h .ftraceEvent .threadDescriptor rfl rfl tid hne hr hr')
    · intro tid hne hr hr'
      exact congrArg UInt32.toNat (h .compactSched .processTreeThread rfl rfl tid hne hr hr').symm
    · intro tid hne hr hr'
      exact congrArg UInt32.toNat (h .otherEvent .processTreeThread rfl rfl tid hne hr hr').symm
  · intro h f f' hf hf' tid hne hr hr'
    have hzero : ∀ {v : UInt32}, v.toNat = 0 → v = 0 := fun hv => UInt32.toNat_inj.mp hv
    cases f <;> cases f' <;> simp only [TidField.isEvent, Bool.false_eq_true, Bool.true_eq_false] at hf hf'
    · exact UInt32.toNat_inj.mp (h.event_tree tid hne hr hr')
    · exact hzero (h.event_descriptor tid hne hr hr')
    · exact (hzero (h.other_tree tid hne hr hr')).symm
    · rfl
    · exact (hzero (h.compact_tree tid hne hr hr')).symm
    · rfl

/-- **When a kernel thread keeps one identity.** All occurrences of a thread
that occurs in an event and elsewhere hold one id in the combined trace, if
and only if the main trace's maximal pid and tid agree, or are 0, wherever
such a thread occurs. -/
theorem sameThreads_iff (P : Protobuf ρ) (gen : ℕ → UInt64) (otherPids : ρ → List Int32)
    (main addonTrace : Bytes) (diff : Int64) {addon : Trace ρ} (hA : P.parseFromString addonTrace = some addon) :
    constructCombinedTrace P gen main addonTrace diff =
        main ++ P.serializeToString (rewriteAddon gen (sCalcMaxIds P gen main) diff addon) ∧
      (SameThreads (tidRefs otherPids addon)
          (tidRefs otherPids (rewriteAddon gen (sCalcMaxIds P gen main) diff addon)) ↔
        ThreadsTogether (maxId .pid (mainPackets P main)) (maxId .tid (mainPackets P main))
          (tidRefs otherPids addon)) := by
  refine ⟨constructCombinedTrace_eq P gen main diff hA, ?_⟩
  have hpid : (sCalcMaxIds P gen main).pid.toNat = maxId .pid (mainPackets P main) := maxMain_get P gen main .pid
  have htid : (sCalcMaxIds P gen main).tid.toNat = maxId .tid (mainPackets P main) := maxMain_get P gen main .tid
  rw [tidRefs_rewriteAddon, sameThreads_iff_moveAlong, moveAlong_iff, hpid, htid]

/-- A packet with one ftrace event of a thread, and one with the thread. -/
def threadPackets (tid : UInt32) : Trace Unit :=
  [⟨none, none, none, none, .ftraceEvents ⟨none, [⟨none, some tid, .notSet, ()⟩], none, ()⟩, ()⟩,
    ⟨none, none, none, none, .processTree ⟨[], [⟨some tid.toInt32, none, ()⟩], ()⟩, ()⟩]

/-- The main trace has a process 7 and a thread 7, the addon a thread 5. -/
theorem sameThreads_seven :
    SameThreads (tidRefs (fun _ => []) (threadPackets 5))
      (tidRefs (fun _ => []) (rewriteAddon (fun _ => 9)
        (sCalcMaxIds wire (fun _ => 9) [10, 10, 18, 8, 10, 2, 8, 7, 18, 2, 8, 7]) 0 (threadPackets 5))) := by
  have hA : wire.parseFromString [10, 6, 10, 4, 18, 2, 16, 5, 10, 6, 18, 4, 18, 2, 8, 5] =
      some (threadPackets 5) := by decide +kernel
  obtain ⟨-, h⟩ := sameThreads_iff wire (fun _ => 9) (fun _ => [])
    [10, 10, 18, 8, 10, 2, 8, 7, 18, 2, 8, 7] _ 0 hA
  have hmax : maxId .pid (mainPackets wire [10, 10, 18, 8, 10, 2, 8, 7, 18, 2, 8, 7]) =
      maxId .tid (mainPackets wire [10, 10, 18, 8, 10, 2, 8, 7, 18, 2, 8, 7]) := by decide +kernel
  have hrefs : tidRefs (fun _ => []) (threadPackets 5) =
      [⟨.ftraceEvent, 5⟩, ⟨.processTreeThread, 5⟩] := by decide +kernel
  refine h.mpr ⟨fun _ _ _ _ => hmax, ?_, ?_, ?_⟩ <;> simp [hrefs]

/-- The main trace has a process 7 and no thread: the events of thread 5 are
those of thread 12 afterwards. -/
theorem thread_torn : ∃ (gen : ℕ → UInt64) (main addonTrace : Bytes) (addon : Trace Unit),
    (wire.parseFromString main).isSome = true ∧ wire.parseFromString addonTrace = some addon ∧
      ¬ SameThreads (tidRefs (fun _ => []) addon)
        (tidRefs (fun _ => []) (rewriteAddon gen (sCalcMaxIds wire gen main) 0 addon)) := by
  refine ⟨fun _ => 9, [10, 6, 18, 4, 10, 2, 8, 7],
    [10, 6, 10, 4, 18, 2, 16, 5, 10, 6, 18, 4, 18, 2, 8, 5], threadPackets 5, by decide +kernel,
    by decide +kernel, fun h => ?_⟩
  have hsame := h.same (⟨.ftraceEvent, 5⟩, ⟨.ftraceEvent, 12⟩) (by decide +kernel)
    (⟨.processTreeThread, 5⟩, ⟨.processTreeThread, 5⟩) (by decide +kernel) rfl (by decide)
    ⟨⟨⟨.ftraceEvent, 5⟩, by decide +kernel, rfl, rfl⟩, ⟨.processTreeThread, 5⟩, by decide +kernel, rfl, rfl⟩
  exact absurd hsame (by decide)

end Merge
end VPerfetto
