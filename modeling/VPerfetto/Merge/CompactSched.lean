/-
# Compact scheduling events

A bundle holds its scheduling events one by one or as a structure of arrays,
`compact_sched`, whose timestamps are relative to their predecessors. `expand`
turns the second form into the first. None of the traversals looks into
`compact_sched`, so merging and expanding do not commute, and the maximal pid
of a trace depends on the form; `compactAsVerbose_iff` says for which traces
they do and it does not.

Key definitions: `CompactSched.expand`, `expandTrace`, `CompactAsVerbose`,
`CompactUntouched`.
Key theorems: `expand_rewrite_iff`, `maxId_expand_iff`, `compactAsVerbose_iff`.
-/
import VPerfetto.Merge.Rewrite

namespace VPerfetto
namespace Merge

variable {ρ : Type}

/-- Delta-encoded timestamps after the time `last`. -/
def absoluteFrom (last : UInt64) : List UInt64 → List UInt64
  | [] => []
  | delta :: deltas => (last + delta) :: absoluteFrom (last + delta) deltas

/-- The first timestamp is absolute, each next one is relative to its predecessor. -/
def absoluteTimes (deltas : List UInt64) : List UInt64 := absoluteFrom 0 deltas

/-- Times and next pids of the switches. -/
def CompactSched.switches (c : CompactSched ρ) : List (UInt64 × Int32) :=
  (absoluteTimes c.switchTimestamp).zip c.switchNextPid

/-- Times and pids of the wakings. -/
def CompactSched.wakings (c : CompactSched ρ) : List (UInt64 × Int32) :=
  (absoluteTimes c.wakingTimestamp).zip c.wakingPid

/-- A `sched_switch` with a next pid. -/
def switchTo (o : ρ) (pid : Int32) : FtraceEventData ρ := .schedSwitch none (some pid) o

/-- A `sched_waking` of a pid. -/
def wakingOf (o : ρ) (pid : Int32) : FtraceEventData ρ := .schedWaking (some pid) o

/-- A verbose event at a time about a pid; `o` is what else it holds. -/
def verboseEvent (data : Int32 → FtraceEventData ρ) (o : ρ) (e : UInt64 × Int32) : FtraceEvent ρ :=
  ⟨some e.1, none, data e.2, o⟩

def CompactSched.expand (o : ρ) (c : CompactSched ρ) : List (FtraceEvent ρ) :=
  c.switches.map (verboseEvent (switchTo o) o) ++ c.wakings.map (verboseEvent (wakingOf o) o)

def FtraceEventBundle.expand (o : ρ) (b : FtraceEventBundle ρ) : FtraceEventBundle ρ :=
  { b with
    event := b.event ++ b.compactSched.toList.flatMap (CompactSched.expand o)
    compactSched := none }

def PacketData.expand (o : ρ) : PacketData ρ → PacketData ρ
  | .ftraceEvents b => .ftraceEvents (b.expand o)
  | data => data

def TracePacket.expand (o : ρ) (p : TracePacket ρ) : TracePacket ρ := { p with data := p.data.expand o }

/-- The trace with all its scheduling events in verbose form. -/
def expandTrace (o : ρ) (t : Trace ρ) : Trace ρ := t.map (TracePacket.expand o)

def PacketData.compactEvents : PacketData ρ → List (UInt64 × Int32)
  | .ftraceEvents b => b.compactSched.toList.flatMap fun c => c.switches ++ c.wakings
  | _ => []

/-- Times and pids of the scheduling events a trace holds in compact form. -/
def compactEvents (t : Trace ρ) : List (UInt64 × Int32) := t.flatMap fun p => p.data.compactEvents

/-- Compact and verbose events are merged alike: expanding the merged trace and
merging the expanded one give the same events, and the maximal pid is the same
for both forms of the main trace. -/
structure CompactAsVerbose (P : Protobuf ρ) (gen : ℕ → UInt64) (o : ρ) (main : Bytes) (diff : Int64)
    (addon : Trace ρ) : Prop where
  merged : expandTrace o (rewriteAddon gen (sCalcMaxIds P gen main) diff addon) =
    rewriteAddon gen (sCalcMaxIds P gen main) diff (expandTrace o addon)
  maximum : (sCalcMaxIds P gen (P.serializeToString (expandTrace o (mainPackets P main)))).pid =
    (sCalcMaxIds P gen main).pid

/-- A merge would change no compact event of the addon, and no pid of the main
trace's compact events is above the others. -/
structure CompactUntouched (diff : Int64) (main addon : Trace ρ) : Prop where
  addon : ∀ e ∈ compactEvents addon, diff = 0 ∧ (e.2 = 0 ∨ maxId .pid main = 0)
  main : ∀ e ∈ compactEvents main, e.2.toUInt32.toNat ≤ maxId .pid main

/-! ### Expanding and merging -/

theorem shiftTime_eq_self (diff : Int64) (ts : UInt64) : shiftTime diff ts = ts ↔ diff = 0 := by
  rw [← add_toUInt64]
  constructor
  · intro h
    have hz : diff.toUInt64 = 0 := by
      have h0 : ts + diff.toUInt64 = ts + 0 := by rw [h, UInt64.add_zero]
      exact (UInt64.add_right_inj ts).mp h0
    have hd := congrArg UInt64.toInt64 hz
    rw [Int64.toInt64_toUInt64] at hd
    exact hd
  · rintro rfl
    exact UInt64.add_zero ts

theorem offsets_pid_eq_self {maxMain : MaxIds} {pid : Int32} :
    (offsets maxMain).pid pid = pid ↔ pid = 0 ∨ maxMain.pid = 0 := by
  have h := not_congr (pid_moves maxMain pid)
  rw [not_not, not_and_or, not_not, not_not] at h
  rw [eq_comm, h, or_comm]

/-- What the merge makes of a verbose event. -/
def FtraceEvent.rewrite (maxMain : MaxIds) (diff : Int64) (e : FtraceEvent ρ) : FtraceEvent ρ :=
  (e.mapTimestamp (shiftTime diff)).mapPids (offsets maxMain).pid

theorem mapNonzero_eq (maxMain : MaxIds) (pid : Int32) :
    mapNonzero (offsets maxMain).pid (some pid) = some ((offsets maxMain).pid pid) := by
  by_cases hp : pid = 0 <;> simp [mapNonzero, hp, offsets]

theorem switchTo_mapPids (maxMain : MaxIds) (o : ρ) (pid : Int32) :
    (switchTo o pid).mapPids (offsets maxMain).pid = switchTo o ((offsets maxMain).pid pid) := by
  simp only [switchTo, FtraceEventData.mapPids, mapNonzero_eq]
  rfl

theorem wakingOf_mapPids (maxMain : MaxIds) (o : ρ) (pid : Int32) :
    (wakingOf o pid).mapPids (offsets maxMain).pid = wakingOf o ((offsets maxMain).pid pid) := by
  simp only [wakingOf, FtraceEventData.mapPids, mapNonzero_eq]

theorem switchTo_injective (o : ρ) : Function.Injective (switchTo o) := by
  intro a b h
  injection h with _ h
  exact Option.some.inj h

theorem wakingOf_injective (o : ρ) : Function.Injective (wakingOf o) := by
  intro a b h
  injection h with h
  exact Option.some.inj h

/-- The merge changes none of the verbose events of a kind, exactly if it
changes no time and no pid of them. -/
theorem verboseEvents_fixed {maxMain : MaxIds} (diff : Int64) (o : ρ) {data : Int32 → FtraceEventData ρ}
    (hinj : Function.Injective data)
    (hmap : ∀ pid, (data pid).mapPids (offsets maxMain).pid = data ((offsets maxMain).pid pid))
    (es : List (UInt64 × Int32)) :
    (es.map (verboseEvent data o)).map (FtraceEvent.rewrite maxMain diff) = es.map (verboseEvent data o) ↔
      ∀ e ∈ es, diff = 0 ∧ (e.2 = 0 ∨ maxMain.pid = 0) := by
  have hone : ∀ e : UInt64 × Int32, (verboseEvent data o e).rewrite maxMain diff = verboseEvent data o e ↔
      diff = 0 ∧ (e.2 = 0 ∨ maxMain.pid = 0) := by
    intro e
    rw [← shiftTime_eq_self diff e.1, ← offsets_pid_eq_self, ← hinj.eq_iff, ← hmap]
    constructor
    · intro h
      injection h with h1 _ h2
      exact ⟨Option.some.inj h1, h2⟩
    · intro hex
      obtain ⟨h1, h2⟩ := hex
      simp only [FtraceEvent.rewrite, verboseEvent, FtraceEvent.mapTimestamp, FtraceEvent.mapPids, h2,
        Option.map_some, Option.map_none, h1]
  rw [List.map_map, List.map_inj_left]
  exact forall₂_congr fun e _ => hone e

theorem expand_fixed {maxMain : MaxIds} {diff : Int64} {o : ρ} {c : CompactSched ρ} :
    (c.expand o).map (FtraceEvent.rewrite maxMain diff) = c.expand o ↔
      ∀ e ∈ c.switches ++ c.wakings, diff = 0 ∧ (e.2 = 0 ∨ maxMain.pid = 0) := by
  have hswitch := verboseEvents_fixed diff o (switchTo_injective o) (switchTo_mapPids maxMain o)
    c.switches
  have hwaking := verboseEvents_fixed diff o (wakingOf_injective o) (wakingOf_mapPids maxMain o)
    c.wakings
  rw [CompactSched.expand, List.map_append, List.forall_mem_append, ← hswitch, ← hwaking]
  constructor
  · exact fun h => List.append_inj h (by rw [List.length_map])
  · intro hex
    obtain ⟨h1, h2⟩ := hex
    rw [h1, h2]

/-- Expanding and merging commute on the data of a packet, exactly if the
merge would change none of its compact events. -/
theorem data_expand_rewrite {maxMain : MaxIds} {diff : Int64} {rename : UInt64 → UInt64} {o : ρ}
    {d : PacketData ρ} :
    (d.rewrite maxMain diff rename).expand o = (d.expand o).rewrite maxMain diff rename ↔
      ∀ e ∈ d.compactEvents, diff = 0 ∧ (e.2 = 0 ∨ maxMain.pid = 0) := by
  cases d with
  | notSet | processTree pt | clockSnapshot cs | trackEvent te | serviceEvent o | trackDescriptor trd
  | otherData o => simp [PacketData.expand, PacketData.rewrite, PacketData.compactEvents]
  | ftraceEvents b =>
    simp only [PacketData.expand, PacketData.rewrite, FtraceEventBundle.expand, PacketData.compactEvents,
      PacketData.ftraceEvents.injEq, FtraceEventBundle.mk.injEq, true_and, and_true, List.map_append,
      List.append_cancel_left_eq]
    cases b.compactSched with
    | none => simp
    | some c =>
      simp only [Option.toList_some, List.flatMap_cons, List.flatMap_nil, List.append_nil]
      rw [eq_comm]
      exact expand_fixed

/-- Expanding changes no descriptor, so the same uuids are renamed. -/
theorem renamedUuid_expand (gen : ℕ → UInt64) (maxMain : MaxIds) (o : ρ) (addon : Trace ρ) :
    renamedUuid gen maxMain (expandTrace o addon) = renamedUuid gen maxMain addon := by
  have hdesc : (expandTrace o addon).flatMap TracePacket.descriptorPids =
      addon.flatMap TracePacket.descriptorPids := by
    rw [expandTrace, List.flatMap_map]
    apply List.flatMap_congr
    intro p _
    rcases p with ⟨ts, uid, seq, tpd, data, other⟩
    cases data <;> rfl
  simp only [renamedUuid, uuidRemap, hdesc]
  rfl

theorem expand_rewrite_iff (gen : ℕ → UInt64) (maxMain : MaxIds) (diff : Int64) (o : ρ) (addon : Trace ρ) :
    expandTrace o (rewriteAddon gen maxMain diff addon) = rewriteAddon gen maxMain diff (expandTrace o addon) ↔
      ∀ e ∈ compactEvents addon, diff = 0 ∧ (e.2 = 0 ∨ maxMain.pid = 0) := by
  rw [rewriteAddon_packets, rewriteAddon_packets, renamedUuid_expand, expandTrace, expandTrace, List.map_map,
    List.map_map, List.map_inj_left]
  have hpacket : ∀ (rename : UInt64 → UInt64) (p : TracePacket ρ),
      (rewritePacket maxMain diff rename p).expand o = rewritePacket maxMain diff rename (p.expand o) ↔
        (p.data.rewrite maxMain diff rename).expand o = (p.data.expand o).rewrite maxMain diff rename := by
    intro rename p
    have hdata := rewritePacket_data maxMain diff rename p
    have hdata' := rewritePacket_data maxMain diff rename (p.expand o)
    constructor
    · intro h
      have h' := congrArg TracePacket.data h
      rw [hdata'] at h'
      rw [← hdata]
      exact h'
    · intro h
      have hd : ((rewritePacket maxMain diff rename p).expand o).data =
          (rewritePacket maxMain diff rename (p.expand o)).data := by
        rw [hdata']
        exact (congrArg (PacketData.expand o) hdata).trans h
      exact congrArg (fun d => { rewritePacket maxMain diff rename p with data := d }) hd
  simp only [Function.comp_apply, hpacket, data_expand_rewrite, compactEvents, List.mem_flatMap]
  constructor
  · rintro h e ⟨p, hp, he⟩
    exact h p hp e he
  · intro h p hp e he
    exact h e ⟨p, hp, he⟩

/-! ### The maximal pid -/

theorem mem_ids {k : IdKind} {t : Trace ρ} {v : UInt32} :
    v ∈ ids k t ↔ ∃ p ∈ t, ∃ x ∈ p.visits, x.kind = k ∧ x.value = v := by
  simp only [ids, valuesOf, List.mem_map, List.mem_filter, List.mem_flatMap, decide_eq_true_eq]
  constructor
  · intro h
    obtain ⟨x, ⟨⟨p, hp, hx⟩, hk⟩, hv⟩ := h
    exact ⟨p, hp, x, hx, hk, hv⟩
  · intro h
    obtain ⟨p, hp, x, hx, hk, hv⟩ := h
    exact ⟨x, ⟨⟨p, hp, hx⟩, hk⟩, hv⟩

/-- The pid of a verbose event is visited, unless it is 0. -/
theorem verboseEvents_visits {data : Int32 → FtraceEventData ρ} (hpids : ∀ pid, (data pid).pids = nonzero (some pid))
    (o : ρ) (es : List (UInt64 × Int32)) :
    ((es.map (verboseEvent data o)).flatMap fun ftev => ftev.pids.map Visit.pid) =
      es.flatMap fun e => (nonzero (some e.2)).map Visit.pid := by
  rw [List.flatMap_map]
  apply List.flatMap_congr
  intro e _
  simp [FtraceEvent.pids, verboseEvent, hpids]

/-- Expanding adds the pids of the compact events to the visits. -/
theorem expand_visits (o : ρ) (p : TracePacket ρ) :
    (p.expand o).visits = p.visits ++ p.data.compactEvents.flatMap fun e => (nonzero (some e.2)).map Visit.pid := by
  rcases p with ⟨ts, uid, seq, tpd, data, other⟩
  cases data with
  | notSet | processTree pt | clockSnapshot cs | trackEvent te | serviceEvent o | trackDescriptor trd
  | otherData o => simp [TracePacket.visits, TracePacket.expand, PacketData.expand, PacketData.compactEvents]
  | ftraceEvents b =>
    have hexpand : ∀ c : CompactSched ρ, ((c.expand o).flatMap fun ftev => ftev.pids.map Visit.pid) =
        (c.switches ++ c.wakings).flatMap fun e => (nonzero (some e.2)).map Visit.pid := by
      intro c
      rw [CompactSched.expand, List.flatMap_append, verboseEvents_visits (fun _ => rfl),
        verboseEvents_visits (fun _ => rfl), List.flatMap_append]
    simp only [TracePacket.visits, TracePacket.expand, PacketData.expand, PacketData.visits,
      FtraceEventBundle.visits, FtraceEventBundle.expand, PacketData.compactEvents, List.flatMap_append,
      List.append_assoc]
    cases b.compactSched with
    | none => simp
    | some c => simp [hexpand]

theorem mem_ids_expand {o : ρ} {t : Trace ρ} {v : UInt32} :
    v ∈ ids .pid (expandTrace o t) ↔
      v ∈ ids .pid t ∨ ∃ e ∈ compactEvents t, e.2 ≠ 0 ∧ e.2.toUInt32 = v := by
  have hmem : ∀ {e : UInt64 × Int32} {x : Visit}, x ∈ (nonzero (some e.2)).map Visit.pid ↔
      e.2 ≠ 0 ∧ x = .pid e.2 := by
    intro e x
    by_cases he : e.2 = 0 <;> simp [nonzero, he]
  simp only [mem_ids, expandTrace, List.mem_map, compactEvents, List.mem_flatMap]
  constructor
  · intro h
    obtain ⟨_, ⟨p, hp, rfl⟩, x, hx, hk, hv⟩ := h
    rw [expand_visits, List.mem_append, List.mem_flatMap] at hx
    rcases hx with hx | ⟨e, he, hx⟩
    · exact Or.inl ⟨p, hp, x, hx, hk, hv⟩
    · obtain ⟨hne, rfl⟩ := hmem.mp hx
      exact Or.inr ⟨e, ⟨p, hp, he⟩, hne, hv⟩
  · intro h
    rcases h with ⟨p, hp, x, hx, hk, hv⟩ | ⟨e, ⟨p, hp, he⟩, hne, hv⟩
    · exact ⟨_, ⟨p, hp, rfl⟩, x, by rw [expand_visits]; exact List.mem_append_left _ hx, hk, hv⟩
    · refine ⟨_, ⟨p, hp, rfl⟩, .pid e.2, ?_, rfl, hv⟩
      rw [expand_visits]
      exact List.mem_append_right _ (List.mem_flatMap.mpr ⟨e, he, hmem.mpr ⟨hne, rfl⟩⟩)

theorem maxId_expand_iff {o : ρ} {t : Trace ρ} :
    maxId .pid (expandTrace o t) = maxId .pid t ↔
      ∀ e ∈ compactEvents t, e.2.toUInt32.toNat ≤ maxId .pid t := by
  constructor
  · intro h e he
    by_cases hz : e.2 = 0
    · rw [hz]
      exact Nat.zero_le _
    · rw [← h]
      exact le_maxId (mem_ids_expand.mpr (Or.inr ⟨e, he, hz, rfl⟩))
  · intro h
    refine Nat.le_antisymm (maxId_le fun v hv => ?_) (maxId_le fun v hv => ?_)
    · rcases mem_ids_expand.mp hv with hv | ⟨e, he, -, rfl⟩
      · exact le_maxId hv
      · exact h e he
    · exact le_maxId (mem_ids_expand.mpr (Or.inl hv))

/-- **When compact and verbose scheduling events are merged alike.** -/
theorem compactAsVerbose_iff {P : Protobuf ρ} (hP : P.Lawful) (gen : ℕ → UInt64) (o : ρ)
    (main addonTrace : Bytes) (diff : Int64) {addon : Trace ρ} (hA : P.parseFromString addonTrace = some addon) :
    constructCombinedTrace P gen main addonTrace diff =
        main ++ P.serializeToString (rewriteAddon gen (sCalcMaxIds P gen main) diff addon) ∧
      (CompactAsVerbose P gen o main diff addon ↔ CompactUntouched diff (mainPackets P main) addon) := by
  refine ⟨constructCombinedTrace_eq P gen main diff hA, ?_⟩
  have hmax : (sCalcMaxIds P gen main).pid.toNat = maxId .pid (mainPackets P main) :=
    maxMain_get P gen main .pid
  have hmax' : (sCalcMaxIds P gen (P.serializeToString (expandTrace o (mainPackets P main)))).pid.toNat =
      maxId .pid (expandTrace o (mainPackets P main)) :=
    sCalcMaxIds_get P gen (hP.parse_serialize _) .pid
  have hzero : (sCalcMaxIds P gen main).pid = 0 ↔ maxId .pid (mainPackets P main) = 0 := by
    rw [← hmax, ← UInt32.toNat_inj]
    rfl
  have hmain : (sCalcMaxIds P gen (P.serializeToString (expandTrace o (mainPackets P main)))).pid =
      (sCalcMaxIds P gen main).pid ↔
        ∀ e ∈ compactEvents (mainPackets P main), e.2.toUInt32.toNat ≤ maxId .pid (mainPackets P main) := by
    rw [← UInt32.toNat_inj, hmax, hmax', maxId_expand_iff]
  have haddon := expand_rewrite_iff gen (sCalcMaxIds P gen main) diff o addon
  simp only [hzero] at haddon
  constructor
  · exact fun h => ⟨haddon.mp h.merged, hmain.mp h.maximum⟩
  · exact fun h => ⟨haddon.mpr h.addon, hmain.mpr h.main⟩

/-- A packet with one compact switch. -/
def compactPacket (time : UInt64) (pid : Int32) : TracePacket Unit :=
  ⟨none, none, none, none, .ftraceEvents ⟨none, [], some ⟨[time], [pid], [], [], ()⟩, ()⟩, ()⟩

/-- A switch to the idle task, merged without a time difference. -/
theorem compactAsVerbose_idle :
    constructCombinedTrace wire (fun _ => 9) [10, 6, 18, 4, 10, 2, 8, 7] [10, 8, 10, 6, 34, 4, 8, 100, 24, 0] 0 =
        [10, 6, 18, 4, 10, 2, 8, 7] ++ wire.serializeToString
          (rewriteAddon (fun _ => 9) (sCalcMaxIds wire (fun _ => 9) [10, 6, 18, 4, 10, 2, 8, 7]) 0
            [compactPacket 100 0]) ∧
      CompactAsVerbose wire (fun _ => 9) () [10, 6, 18, 4, 10, 2, 8, 7] 0 [compactPacket 100 0] := by
  have hA : wire.parseFromString [10, 8, 10, 6, 34, 4, 8, 100, 24, 0] = some [compactPacket 100 0] := by
    decide +kernel
  have hmain : compactEvents (mainPackets wire [10, 6, 18, 4, 10, 2, 8, 7]) = [] := by decide +kernel
  have haddon : compactEvents [compactPacket 100 0] = [(100, 0)] := by decide +kernel
  obtain ⟨h1, h2⟩ := compactAsVerbose_iff wire_lawful (fun _ => 9) () [10, 6, 18, 4, 10, 2, 8, 7] _ 0 hA
  refine ⟨h1, h2.mpr ⟨fun e he => ?_, fun e he => ?_⟩⟩
  · rw [haddon, List.mem_singleton] at he
    exact ⟨rfl, Or.inl (by rw [he])⟩
  · rw [hmain] at he
    exact absurd he List.not_mem_nil

/-- The switch to thread 5 at time 100, merged with a difference of 10: it stays
at time 100 in compact form and moves to time 110 in verbose form. -/
theorem compact_left_behind : ∃ (gen : ℕ → UInt64) (main addonTrace : Bytes) (addon : Trace Unit),
    (wire.parseFromString main).isSome = true ∧ wire.parseFromString addonTrace = some addon ∧
      ¬ CompactAsVerbose wire gen () main 10 addon := by
  refine ⟨fun _ => 9, [10, 6, 18, 4, 10, 2, 8, 7], [10, 8, 10, 6, 34, 4, 8, 100, 24, 5],
    [compactPacket 100 5], by decide +kernel, by decide +kernel, fun h => ?_⟩
  exact absurd h.merged (by decide +kernel)

end Merge
end VPerfetto
