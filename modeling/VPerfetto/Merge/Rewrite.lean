/-
# A merge rewrites packet by packet

The three passes over the addon trace, the uuid pass included, are one map
over its packets: which uuids are renamed is settled by the whole trace, what
happens to a packet then depends on the packet alone (`rewriteAddon_packets`).
What a field of the combined trace holds is read off from `rewritePacket`.

The first use is the trusted uids. The offset is the main trace's maximum, so
the uid 0 of the addon lands on that maximum (`uidsApart_iff`); the callback
for cpus adds one more.

Key definitions: `rewritePacket`, `mainPackets`, `UidsApart`.
Key theorems: `rewriteAddon_packets`, `maxMain_get`, `uidsApart_iff`.
-/
import VPerfetto.Merge.Uuids

namespace VPerfetto
namespace Merge

variable {ρ : Type}

/-- What the merge makes of a uuid in a field the uuid pass visits. -/
def renamedUuid (gen : ℕ → UInt64) (maxMain : MaxIds) (addon : Trace ρ) : UInt64 → UInt64 :=
  let s := uuidRemap gen (offsets maxMain).pid addon
  if s.needRemapUuids then remapped s.uuidMap else id

/-- What the merge makes of one packet. -/
def rewritePacket (maxMain : MaxIds) (diff : Int64) (rename : UInt64 → UInt64) (packet : TracePacket ρ) :
    TracePacket ρ :=
  (((clearSnapshotAndServiceEvent packet).mapTimestamps (shiftTime diff)).mapIds
    (offsets maxMain)).mapUuids rename

/-- What the merge makes of a packet's data. -/
def PacketData.rewrite (maxMain : MaxIds) (diff : Int64) (rename : UInt64 → UInt64) :
    PacketData ρ → PacketData ρ
  | .ftraceEvents b => .ftraceEvents
    { b with
      cpu := b.cpu.map fun cpu => ((offsets maxMain).cpu cpu.toInt32).toUInt32
      event := b.event.map fun e => (e.mapTimestamp (shiftTime diff)).mapPids (offsets maxMain).pid }
  | .processTree pt => .processTree (pt.mapIds (offsets maxMain))
  | .trackDescriptor trd => .trackDescriptor
    { trd.mapPids (offsets maxMain).pid with
      uuid := trd.uuid.map rename, parentUuid := trd.parentUuid.map rename }
  | .trackEvent te => .trackEvent { te with trackUuid := te.trackUuid.map rename }
  | .clockSnapshot _ => .notSet
  | .serviceEvent _ => .notSet
  | .notSet => .notSet
  | .otherData o => .otherData o

@[simp] theorem rewritePacket_data (maxMain : MaxIds) (diff : Int64) (rename : UInt64 → UInt64)
    (packet : TracePacket ρ) :
    (rewritePacket maxMain diff rename packet).data = packet.data.rewrite maxMain diff rename := by
  rcases packet with ⟨ts, uid, seq, tpd, data, o⟩
  cases data with
  | ftraceEvents b =>
    simp [rewritePacket, clearSnapshotAndServiceEvent, TracePacket.mapTimestamps, TracePacket.mapIds,
      PacketData.mapIds, FtraceEventBundle.mapIds, TracePacket.mapUuids, PacketData.mapUuids,
      PacketData.rewrite, Function.comp_def]
  | notSet | processTree pt | clockSnapshot cs | trackEvent te | serviceEvent o | trackDescriptor trd
  | otherData o => rfl

@[simp] theorem rewritePacket_timestamp (maxMain : MaxIds) (diff : Int64) (rename : UInt64 → UInt64)
    (packet : TracePacket ρ) :
    (rewritePacket maxMain diff rename packet).timestamp = packet.timestamp.map (shiftTime diff) := rfl

theorem mapUuids_id (packet : TracePacket ρ) : packet.mapUuids id = packet := by
  rcases packet with ⟨ts, uid, seq, _ | ⟨_ | ⟨_ | u, extra, o⟩, o'⟩, data, other⟩ <;>
    rcases data with _ | _ | _ | ⟨_ | u, extra, o⟩ | _ | ⟨_ | u, _ | v, p, t, o⟩ | _ | _ <;> rfl

/-- **The passes are one map.** -/
theorem rewriteAddon_packets (gen : ℕ → UInt64) (maxMain : MaxIds) (diff : Int64) (addon : Trace ρ) :
    rewriteAddon gen maxMain diff addon =
      addon.map (rewritePacket maxMain diff (renamedUuid gen maxMain addon)) := by
  rw [rewriteAddon_eq]
  unfold renamedUuid
  dsimp only
  split
  · rw [uuidPass_eq, shiftedAddon, List.map_map]
    rfl
  · rw [shiftedAddon]
    apply List.map_congr_left
    intro p _
    rw [rewritePacket, mapUuids_id]

/-- The combined trace is the main trace followed by the rewritten addon. -/
theorem constructCombinedTrace_eq (P : Protobuf ρ) (gen : ℕ → UInt64) (main : Bytes) {addonTrace : Bytes}
    (diff : Int64) {addon : Trace ρ} (h : P.parseFromString addonTrace = some addon) :
    constructCombinedTrace P gen main addonTrace diff =
      main ++ P.serializeToString (rewriteAddon gen (sCalcMaxIds P gen main) diff addon) := by
  simp only [constructCombinedTrace, h]

/-- The packets of the main trace, none if it does not parse. -/
def mainPackets (P : Protobuf ρ) (main : Bytes) : Trace ρ := (P.parseFromString main).getD []

theorem maxMain_get (P : Protobuf ρ) (gen : ℕ → UInt64) (main : Bytes) (k : IdKind) :
    ((sCalcMaxIds P gen main).get k).toNat = maxId k (mainPackets P main) := by
  unfold mainPackets
  cases h : P.parseFromString main with
  | none =>
    simp only [sCalcMaxIds, h]
    cases k <;> rfl
  | some M => exact sCalcMaxIds_get P gen h k

/-- What stands at one place before and after a map. -/
theorem mem_zip_map {α β : Type} {l : List α} {f : α → β} {p : α × β} :
    p ∈ l.zip (l.map f) ↔ ∃ a ∈ l, (a, f a) = p := by
  rw [← List.map_prod_left_eq_zip, List.mem_map]

/-- A maximum is one of the ids, unless there are none. -/
theorem exists_maxId {k : IdKind} {t : Trace ρ} (h : ids k t ≠ []) : ∃ v ∈ ids k t, v.toNat = maxId k t := by
  have hmem : ∀ l : List ℕ, l ≠ [] → l.foldr max 0 ∈ l := by
    intro l
    induction l with
    | nil => exact fun h => absurd rfl h
    | cons a l ih =>
      intro _
      rw [List.foldr_cons, List.mem_cons]
      by_cases hl : l = []
      · exact Or.inl (by rw [hl]; simp)
      · rcases Nat.le_total (l.foldr max 0) a with hle | hle
        · exact Or.inl (Nat.max_eq_left hle)
        · exact Or.inr (by rw [Nat.max_eq_right hle]; exact ih hl)
  exact List.mem_map.mp (hmem ((ids k t).map UInt32.toNat) (by simpa using h))

/-! ### Trusted uids -/

/-- The trusted uids on the packets of a trace. -/
def trustedUids (t : Trace ρ) : List Int32 := t.filterMap TracePacket.trustedUid

theorem ids_trustedUid (t : Trace ρ) : ids .trustedUid t = (trustedUids t).map Int32.toUInt32 := by
  have hnone : ∀ d : PacketData ρ, valuesOf .trustedUid d.visits = [] := by
    intro d
    refine List.map_eq_nil_iff.mpr (List.filter_eq_nil_iff.mpr fun v hv => ?_)
    cases d <;> simp only [PacketData.visits, List.not_mem_nil] at hv
    case processTree pt =>
      simp only [ProcessTree.visits, List.mem_append, List.mem_flatMap, List.mem_map] at hv
      obtain ⟨_, _, _, _, rfl⟩ | ⟨_, _, ⟨_, _, rfl⟩ | ⟨_, _, rfl⟩⟩ := hv <;> simp [Visit.kind]
    case trackDescriptor trd =>
      obtain ⟨_, _, rfl⟩ := List.mem_map.mp hv
      simp [Visit.kind]
    case ftraceEvents b =>
      simp only [FtraceEventBundle.visits, List.mem_append, List.mem_flatMap, List.mem_map] at hv
      obtain ⟨_, _, rfl⟩ | ⟨_, _, _, _, rfl⟩ := hv <;> simp [Visit.kind]
  induction t with
  | nil => rfl
  | cons p t ih =>
    rw [← List.singleton_append, ids_append, ih]
    have hp : ids .trustedUid [p] = p.trustedUid.toList.map Int32.toUInt32 := by
      have hd := hnone p.data
      simp only [valuesOf] at hd
      simp only [ids, valuesOf, List.flatMap_cons, List.flatMap_nil, List.append_nil, TracePacket.visits,
        List.filter_append, List.map_append, hd]
      cases p.trustedUid <;> cases p.trustedPacketSequenceId <;> simp [Visit.kind, Visit.value]
    rw [hp]
    cases h : p.trustedUid <;> simp [trustedUids, h]

/-- The trusted uids of the rewritten addon trace, in order. -/
theorem trustedUids_rewriteAddon (gen : ℕ → UInt64) (maxMain : MaxIds) (diff : Int64) (addon : Trace ρ) :
    trustedUids (rewriteAddon gen maxMain diff addon) =
      (trustedUids addon).map fun uid => (uid.toUInt32 + maxMain.trustedUid).toInt32 := by
  rw [rewriteAddon_packets, trustedUids, List.filterMap_map, trustedUids, List.map_filterMap]
  rfl

/-- A uid of the addon moves up by the main trace's maximum. -/
theorem movedUid_toNat (P : Protobuf ρ) (gen : ℕ → UInt64) (main : Bytes) {addon : Trace ρ}
    (hmax : maxId .trustedUid (mainPackets P main) + maxId .trustedUid addon < 2 ^ 31) {u : Int32}
    (hu : u ∈ trustedUids addon) :
    (u.toUInt32 + (sCalcMaxIds P gen main).trustedUid).toNat =
      u.toUInt32.toNat + maxId .trustedUid (mainPackets P main) := by
  have hget : (sCalcMaxIds P gen main).trustedUid.toNat = maxId .trustedUid (mainPackets P main) :=
    maxMain_get P gen main .trustedUid
  have hmem : u.toUInt32 ∈ ids .trustedUid addon := by
    rw [ids_trustedUid]
    exact List.mem_map_of_mem hu
  have hle : u.toUInt32.toNat ≤ maxId .trustedUid addon := le_maxId hmem
  rw [add_toNat (by omega), hget]

/-- Uid 0 lands on the largest uid of the main trace. -/
theorem rootUid_lands (P : Protobuf ρ) (gen : ℕ → UInt64) {main : Bytes}
    (hne : trustedUids (mainPackets P main) ≠ []) :
    ((0 : Int32).toUInt32 + (sCalcMaxIds P gen main).trustedUid).toInt32 ∈ trustedUids (mainPackets P main) := by
  have hids : ids .trustedUid (mainPackets P main) ≠ [] := by
    rw [ids_trustedUid]
    simpa using hne
  obtain ⟨v, hv, hvmax⟩ := exists_maxId hids
  rw [ids_trustedUid] at hv
  obtain ⟨b, hb, rfl⟩ := List.mem_map.mp hv
  have heq : (0 : Int32).toUInt32 + (sCalcMaxIds P gen main).trustedUid = b.toUInt32 := by
    apply UInt32.toNat_inj.mp
    calc ((0 : Int32).toUInt32 + (sCalcMaxIds P gen main).trustedUid).toNat
        = (sCalcMaxIds P gen main).trustedUid.toNat := congrArg UInt32.toNat (UInt32.zero_add _)
      _ = maxId .trustedUid (mainPackets P main) := maxMain_get P gen main .trustedUid
      _ = b.toUInt32.toNat := hvmax.symm
  rw [heq, Int32.toInt32_toUInt32]
  exact hb

/-- Any other uid lands above those of the main trace. -/
theorem movedUid_ne (P : Protobuf ρ) (gen : ℕ → UInt64) {main : Bytes} {addon : Trace ρ}
    (hmax : maxId .trustedUid (mainPackets P main) + maxId .trustedUid addon < 2 ^ 31) {u b : Int32}
    (hu : u ∈ trustedUids addon) (h0 : u ≠ 0) (hb : b ∈ trustedUids (mainPackets P main)) :
    (u.toUInt32 + (sCalcMaxIds P gen main).trustedUid).toInt32 ≠ b := by
  rintro rfl
  have hpos : u.toUInt32.toNat ≠ 0 := fun hz => h0 (toUInt32_eq_zero.mp (UInt32.toNat_inj.mp hz))
  have hmem : u.toUInt32 + (sCalcMaxIds P gen main).trustedUid ∈ ids .trustedUid (mainPackets P main) := by
    rw [ids_trustedUid]
    simpa only [UInt32.toUInt32_toInt32] using List.mem_map_of_mem (f := Int32.toUInt32) hb
  have hle := le_maxId hmem
  have hm := movedUid_toNat P gen main hmax hu
  omega

theorem movedUid_inj {u w : Int32} {m : UInt32} (h : (u.toUInt32 + m).toInt32 = (w.toUInt32 + m).toInt32) :
    u = w := by
  have hsum : u.toUInt32 + m = w.toUInt32 + m := by
    simpa only [UInt32.toUInt32_toInt32] using congrArg Int32.toUInt32 h
  have huw : u.toUInt32 = w.toUInt32 := (UInt32.add_left_inj _).mp hsum
  simpa only [Int32.toInt32_toUInt32] using congrArg UInt32.toInt32 huw

/-- No uid of the rewritten addon is one of the main trace, and different
uids of the addon stay different. -/
structure UidsApart (main addon after : Trace ρ) : Prop where
  apart : ∀ a ∈ trustedUids after, ∀ b ∈ trustedUids main, a ≠ b
  length_eq : (trustedUids after).length = (trustedUids addon).length
  injective : ∀ p ∈ (trustedUids addon).zip (trustedUids after),
    ∀ q ∈ (trustedUids addon).zip (trustedUids after), p.2 = q.2 → p.1 = q.1

/-- **When trusted uids stay apart.** The uids of the addon meet none of the
main trace if and only if the addon has no packet of uid 0, or the main trace
no packet with a uid. -/
theorem uidsApart_iff (P : Protobuf ρ) (gen : ℕ → UInt64) (main addonTrace : Bytes) (diff : Int64)
    {addon : Trace ρ} (hA : P.parseFromString addonTrace = some addon)
    (hmax : maxId .trustedUid (mainPackets P main) + maxId .trustedUid addon < 2 ^ 31) :
    constructCombinedTrace P gen main addonTrace diff =
        main ++ P.serializeToString (rewriteAddon gen (sCalcMaxIds P gen main) diff addon) ∧
      (UidsApart (mainPackets P main) addon (rewriteAddon gen (sCalcMaxIds P gen main) diff addon) ↔
        0 ∉ trustedUids addon ∨ trustedUids (mainPackets P main) = []) := by
  refine ⟨constructCombinedTrace_eq P gen main diff hA, ?_⟩
  have hafter := trustedUids_rewriteAddon gen (sCalcMaxIds P gen main) diff addon
  constructor
  · intro h
    by_contra hcon
    rw [not_or, not_not] at hcon
    obtain ⟨h0, hne⟩ := hcon
    have hmoved : ((0 : Int32).toUInt32 + (sCalcMaxIds P gen main).trustedUid).toInt32 ∈
        trustedUids (rewriteAddon gen (sCalcMaxIds P gen main) diff addon) := by
      rw [hafter]
      exact List.mem_map_of_mem h0
    exact h.apart _ hmoved _ (rootUid_lands P gen hne) rfl
  · intro h
    refine ⟨fun a ha b hb => ?_, by rw [hafter, List.length_map], fun p hp q hq hpq => ?_⟩
    · rw [hafter] at ha
      obtain ⟨u, hu, rfl⟩ := List.mem_map.mp ha
      rcases h with h0 | hnil
      · exact movedUid_ne P gen hmax hu (fun hz => h0 (hz ▸ hu)) hb
      · rw [hnil] at hb
        exact absurd hb List.not_mem_nil
    · rw [hafter] at hp hq
      obtain ⟨u, hu, rfl⟩ := mem_zip_map.mp hp
      obtain ⟨w, hw, rfl⟩ := mem_zip_map.mp hq
      exact movedUid_inj hpq

/-- A packet with a trusted uid. -/
def uidPacket (uid : Int32) : TracePacket Unit := ⟨none, some uid, none, none, .notSet, ()⟩

/-- Uids 0 and 1000 in the main trace, uid 5 in the addon. -/
theorem uidsApart_five :
    constructCombinedTrace wire (fun _ => 9) [10, 2, 24, 0, 10, 3, 24, 232, 7] [10, 2, 24, 5] 0 =
        [10, 2, 24, 0, 10, 3, 24, 232, 7] ++ wire.serializeToString
          (rewriteAddon (fun _ => 9) (sCalcMaxIds wire (fun _ => 9) [10, 2, 24, 0, 10, 3, 24, 232, 7]) 0
            [uidPacket 5]) ∧
      UidsApart (mainPackets wire [10, 2, 24, 0, 10, 3, 24, 232, 7]) [uidPacket 5]
        (rewriteAddon (fun _ => 9) (sCalcMaxIds wire (fun _ => 9) [10, 2, 24, 0, 10, 3, 24, 232, 7]) 0
          [uidPacket 5]) := by
  have hA : wire.parseFromString [10, 2, 24, 5] = some [uidPacket 5] := by decide +kernel
  obtain ⟨h1, h2⟩ := uidsApart_iff wire (fun _ => 9) [10, 2, 24, 0, 10, 3, 24, 232, 7] _ 0 hA
    (by decide +kernel)
  exact ⟨h1, h2.mpr (Or.inl (by decide +kernel))⟩

/-- A root producer in each trace: both have uid 0 in the combined trace. -/
theorem rootUids_meet : ∃ (gen : ℕ → UInt64) (main addonTrace : Bytes) (addon : Trace Unit),
    wire.parseFromString addonTrace = some addon ∧
      maxId .trustedUid (mainPackets wire main) + maxId .trustedUid addon < 2 ^ 31 ∧
      ¬ UidsApart (mainPackets wire main) addon (rewriteAddon gen (sCalcMaxIds wire gen main) 0 addon) := by
  refine ⟨fun _ => 9, [10, 2, 24, 0], [10, 2, 24, 0], [uidPacket 0], by decide +kernel, by decide +kernel, ?_⟩
  intro h
  have hapart := h.apart 0 (by decide +kernel) 0 (by decide +kernel)
  exact hapart rfl

end Merge
end VPerfetto
