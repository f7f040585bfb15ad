/-
# Track uuids through a merge

An occurrence of a track uuid is a field and a value (`UuidRef`). When some
process or thread descriptor of the addon has its pid moved, the second pass
of `iterateTraceIds` replaces the uuid of every `uuid`, `parent_uuid` and
`track_uuid` field by what the first pass recorded for it, and by 0 when it
recorded nothing; `extra_counter_track_uuids` are left as they are
(`uuidRefs_rewriteAddon`).

So references survive exactly when at most one value of these fields was not
recorded and no extra counter uuid meets a value that moved
(`sameTracks_iff`). Counter tracks and tracks without a process are not
recorded: two of them in one addon become one track.

Key definitions: `UuidRef`, `TracePacket.uuidRefs`, `SameTracks`,
`movedUuid`, `UuidsSurvive`.
Key theorems: `uuidRefs_rewriteAddon`, `sameTracks_iff`.
-/
import VPerfetto.Merge.Codec
import VPerfetto.Merge.Namespaces

namespace VPerfetto
namespace Merge

variable {ρ : Type}

/-- The fields that hold a track uuid. -/
inductive UuidField where
  | defaultsTrackUuid
  | defaultsExtraCounter
  | eventTrackUuid
  | eventExtraCounter
  | descriptorUuid
  | descriptorParentUuid
  deriving DecidableEq

/-- The fields `iterateTraceTrackDescriptorUuids` visits. -/
def UuidField.visited : UuidField → Bool
  | .defaultsExtraCounter => false
  | .eventExtraCounter => false
  | _ => true

/-- An occurrence of a track uuid. -/
structure UuidRef where
  field : UuidField
  uuid : UInt64
  deriving DecidableEq

def TracePacketDefaults.uuidRefs (tpd : TracePacketDefaults ρ) : List UuidRef :=
  tpd.trackEventDefaults.toList.flatMap fun ted =>
    ted.trackUuid.toList.map (⟨.defaultsTrackUuid, ·⟩) ++
      ted.extraCounterTrackUuids.map (⟨.defaultsExtraCounter, ·⟩)

def PacketData.uuidRefs : PacketData ρ → List UuidRef
  | .trackEvent te =>
    te.trackUuid.toList.map (⟨.eventTrackUuid, ·⟩) ++
      te.extraCounterTrackUuids.map (⟨.eventExtraCounter, ·⟩)
  | .trackDescriptor trd =>
    trd.uuid.toList.map (⟨.descriptorUuid, ·⟩) ++ trd.parentUuid.toList.map (⟨.descriptorParentUuid, ·⟩)
  | _ => []

def TracePacket.uuidRefs (packet : TracePacket ρ) : List UuidRef :=
  packet.tracePacketDefaults.toList.flatMap TracePacketDefaults.uuidRefs ++ packet.data.uuidRefs

/-- All occurrences of track uuids in a trace, in order. -/
def uuidRefs (t : Trace ρ) : List UuidRef := t.flatMap TracePacket.uuidRefs

/-- Two occurrences hold the same uuid after as they did before. -/
def SameTracks (before after : List UuidRef) : Prop :=
  before.length = after.length ∧
    ∀ p ∈ before.zip after, ∀ q ∈ before.zip after, p.2.uuid = q.2.uuid ↔ p.1.uuid = q.1.uuid

instance (before after : List UuidRef) : Decidable (SameTracks before after) :=
  inferInstanceAs (Decidable (_ ∧ _))

/-! ### Computations that return a known value -/

/-- From every state in `I` the computation returns `a`, and ends in `I`. -/
def Returns {σ α : Type} (I : σ → Prop) (x : StateM σ α) (a : α) : Prop :=
  ∀ s, I s → (x.run s).1 = a ∧ I (x.run s).2

section Returns

variable {σ α β : Type} {I : σ → Prop}

theorem Returns.pure (a : α) : Returns I (Pure.pure a) a := fun _ h => ⟨rfl, h⟩

theorem Returns.bind {x : StateM σ α} {a : α} {f : α → StateM σ β} {b : β} (hx : Returns I x a)
    (hf : Returns I (f a) b) : Returns I (x >>= f) b := by
  intro s hs
  obtain ⟨h1, h2⟩ := hx s hs
  have hrun : (x >>= f).run s = (f (x.run s).1).run (x.run s).2 := rfl
  rw [hrun, h1]
  exact hf _ h2

theorem Returns.onPresent {f : α → StateM σ α} {g : α → α} (h : ∀ a, Returns I (f a) (g a)) :
    ∀ o : Option α, Returns I (onPresent f o) (o.map g)
  | none => .pure _
  | some a => (h a).bind (f := fun b => Pure.pure (some b)) (.pure _)

theorem Returns.mapM {f : α → StateM σ α} {g : α → α} (h : ∀ a, Returns I (f a) (g a)) :
    ∀ l : List α, Returns I (l.mapM f) (l.map g)
  | [] => .pure _
  | a :: l => by
    rw [List.mapM_cons]
    exact (h a).bind ((Returns.mapM h l).bind (.pure _))

end Returns

/-! ### The uuid pass as a map -/

def TracePacketDefaults.mapUuids (g : UInt64 → UInt64) (tpd : TracePacketDefaults ρ) :
    TracePacketDefaults ρ :=
  { tpd with
    trackEventDefaults := tpd.trackEventDefaults.map fun ted =>
      { ted with trackUuid := ted.trackUuid.map g } }

def PacketData.mapUuids (g : UInt64 → UInt64) : PacketData ρ → PacketData ρ
  | .trackEvent te => .trackEvent { te with trackUuid := te.trackUuid.map g }
  | .trackDescriptor trd =>
    .trackDescriptor { trd with uuid := trd.uuid.map g, parentUuid := trd.parentUuid.map g }
  | data => data

def TracePacket.mapUuids (g : UInt64 → UInt64) (packet : TracePacket ρ) : TracePacket ρ :=
  { packet with
    tracePacketDefaults := packet.tracePacketDefaults.map (TracePacketDefaults.mapUuids g)
    data := packet.data.mapUuids g }

theorem returns_forEachUuid {σ : Type} {I : σ → Prop} {f : UInt64 → StateM σ UInt64}
    {g : UInt64 → UInt64} (h : ∀ u, Returns I (f u) (g u)) (packet : TracePacket ρ) :
    Returns I (packet.forEachUuid f) (packet.mapUuids g) := by
  have hted : ∀ ted : TrackEventDefaults ρ, Returns I (ted.forEachUuid f)
      { ted with trackUuid := ted.trackUuid.map g } :=
    fun ted => (Returns.onPresent h _).bind (.pure _)
  have htpd : ∀ tpd : TracePacketDefaults ρ, Returns I (tpd.forEachUuid f) (tpd.mapUuids g) :=
    fun tpd => (Returns.onPresent hted _).bind (.pure _)
  have hdata : ∀ d : PacketData ρ, Returns I (d.forEachUuid f) (d.mapUuids g) := by
    intro d
    cases d with
    | trackEvent te => exact (Returns.onPresent h _).bind (.pure _)
    | trackDescriptor trd => exact (Returns.onPresent h _).bind ((Returns.onPresent h _).bind (.pure _))
    | notSet | processTree pt | clockSnapshot cs | serviceEvent o | ftraceEvents b | otherData o =>
      exact .pure _
  exact (Returns.onPresent htpd _).bind ((hdata _).bind (.pure _))

/-- What the second pass makes of a uuid. -/
def remapped (uuidMap : UuidMap) (uuid : UInt64) : UInt64 := (uuidMap.lookup uuid).getD 0

/-- Inserting 0 for an unknown uuid changes no later answer. -/
theorem returns_remapUuid (uuidMap : UuidMap) (uuid : UInt64) :
    Returns (fun s => remapped s = remapped uuidMap) (remapUuid uuid) (remapped uuidMap uuid) := by
  intro s hs
  have hrun : (remapUuid uuid).run s =
      (s.lookup uuid).elim (0, (uuid, 0) :: s) fun next => (next, s) := by
    simp only [remapUuid]
    cases h : s.lookup uuid <;> simp [h] <;> rfl
  have hu : remapped uuidMap uuid = remapped s uuid := by rw [hs]
  rw [hrun, hu]
  cases h : s.lookup uuid with
  | some next => exact ⟨by simp [remapped, h], hs⟩
  | none =>
    refine ⟨by simp [remapped, h], ?_⟩
    rw [← hs]
    funext v
    by_cases hv : v = uuid
    · subst hv
      simp [remapped, h]
    · simp [remapped, List.lookup_cons, beq_eq_false_iff_ne.mpr hv]

theorem uuidPass_eq (t : Trace ρ) (uuidMap : UuidMap) :
    ((iterateTraceTrackDescriptorUuids t remapUuid).run uuidMap).1 =
      t.map (TracePacket.mapUuids (remapped uuidMap)) :=
  ((Returns.mapM (returns_forEachUuid (returns_remapUuid uuidMap)) t) uuidMap rfl).1

/-- An occurrence after a pass that rewrites the visited fields. -/
def UuidRef.map (g : UInt64 → UInt64) (r : UuidRef) : UuidRef :=
  if r.field.visited then { r with uuid := g r.uuid } else r

theorem packet_uuidRefs_map (g : UInt64 → UInt64) (packet : TracePacket ρ) :
    (packet.mapUuids g).uuidRefs = packet.uuidRefs.map (UuidRef.map g) := by
  have hdefaults : (packet.tracePacketDefaults.map (TracePacketDefaults.mapUuids g)).toList.flatMap
      TracePacketDefaults.uuidRefs =
      (packet.tracePacketDefaults.toList.flatMap TracePacketDefaults.uuidRefs).map (UuidRef.map g) := by
    rcases packet.tracePacketDefaults with _ | ⟨_ | ⟨_ | u, extra, o⟩, o'⟩ <;>
      simp [TracePacketDefaults.uuidRefs, TracePacketDefaults.mapUuids, UuidRef.map, UuidField.visited,
        Function.comp_def]
  have hdata : (packet.data.mapUuids g).uuidRefs = packet.data.uuidRefs.map (UuidRef.map g) := by
    rcases packet.data with _ | _ | _ | ⟨_ | u, extra, o⟩ | _ | ⟨_ | u, _ | v, p, t, o⟩ | _ | _ <;>
      simp [PacketData.uuidRefs, PacketData.mapUuids, UuidRef.map, UuidField.visited, Function.comp_def]
  simp only [TracePacket.uuidRefs, TracePacket.mapUuids, hdefaults, hdata, List.map_append]

theorem uuidRefs_shiftedAddon (maxMain : MaxIds) (diff : Int64) (addon : Trace ρ) :
    uuidRefs (shiftedAddon maxMain diff addon) = uuidRefs addon := by
  rw [uuidRefs, shiftedAddon, List.flatMap_map, uuidRefs]
  apply List.flatMap_congr
  intro p _
  rcases p with ⟨ts, uid, seq, tpd, data, o⟩
  cases data <;> rfl

/-- The occurrences of a rewritten addon trace: unchanged if no descriptor's
pid changed, else rewritten in every visited field. -/
theorem uuidRefs_rewriteAddon (gen : ℕ → UInt64) (maxMain : MaxIds) (diff : Int64) (addon : Trace ρ) :
    uuidRefs (rewriteAddon gen maxMain diff addon) =
      if (uuidRemap gen (offsets maxMain).pid addon).needRemapUuids then
        (uuidRefs addon).map
          (UuidRef.map (remapped (uuidRemap gen (offsets maxMain).pid addon).uuidMap))
      else uuidRefs addon := by
  rw [rewriteAddon_eq]
  split
  · rw [uuidPass_eq, uuidRefs, List.flatMap_map, ← uuidRefs_shiftedAddon maxMain diff, uuidRefs,
      List.map_flatMap]
    exact List.flatMap_congr fun p _ => packet_uuidRefs_map _ p
  · exact uuidRefs_shiftedAddon maxMain diff addon

/-! ### What the first pass records -/

/-- The state of the first pass after the descriptors `ds`: it holds the
uuids of those whose pid changed, each with a generated uuid of its own. -/
structure Recorded (gen : ℕ → UInt64) (g : Int32 → Int32) (ds : List (Int32 × UInt64))
    (s : UuidRemap) : Prop where
  need : s.needRemapUuids = true ↔ ∃ d ∈ ds, d.1 ≠ g d.1
  key : ∀ u, (s.uuidMap.lookup u).isSome = true ↔ ∃ d ∈ ds, d.2 = u ∧ d.1 ≠ g d.1
  val : ∀ u v, s.uuidMap.lookup u = some v → ∃ i < s.generated, v = gen i
  count : s.generated ≤ ds.length
  inj : (∀ i < s.generated, ∀ j < s.generated, gen i = gen j → i = j) → ∀ u u' v,
    s.uuidMap.lookup u = some v → s.uuidMap.lookup u' = some v → u = u'

/-- A descriptor that adds no entry. -/
theorem Recorded.skip {gen : ℕ → UInt64} {g : Int32 → Int32} {ds : List (Int32 × UInt64)}
    {s : UuidRemap} (h : Recorded gen g ds s) {d : Int32 × UInt64}
    (hd : d.1 = g d.1 ∨ (s.uuidMap.lookup d.2).isSome = true) : Recorded gen g (ds ++ [d]) s := by
  -- a known uuid comes from an earlier descriptor whose pid changed
  have hold : d.1 ≠ g d.1 → ∃ e ∈ ds, e.2 = d.2 ∧ e.1 ≠ g e.1 := fun hne =>
    (h.key d.2).mp (hd.resolve_left hne)
  have hcount : s.generated ≤ (ds ++ [d]).length := by
    calc s.generated ≤ ds.length := h.count
      _ ≤ (ds ++ [d]).length := by
          rw [List.length_append]
          apply Nat.le_add_right
  refine ⟨h.need.trans ⟨?_, ?_⟩, fun u => (h.key u).trans ⟨?_, ?_⟩, h.val, hcount, h.inj⟩
  · intro hex
    obtain ⟨e, he, hne⟩ := hex
    exact ⟨e, List.mem_append_left _ he, hne⟩
  · intro hex
    obtain ⟨e, he, hne⟩ := hex
    rcases List.mem_append.mp he with he | he
    · exact ⟨e, he, hne⟩
    · obtain rfl := List.mem_singleton.mp he
      obtain ⟨e', he', -, hne'⟩ := hold hne
      exact ⟨e', he', hne'⟩
  · intro hex
    obtain ⟨e, he, hu, hne⟩ := hex
    exact ⟨e, List.mem_append_left _ he, hu, hne⟩
  · intro hex
    obtain ⟨e, he, hu, hne⟩ := hex
    rcases List.mem_append.mp he with he | he
    · exact ⟨e, he, hu, hne⟩
    · obtain rfl := List.mem_singleton.mp he
      obtain ⟨e', he', hu', hne'⟩ := hold hne
      exact ⟨e', he', hu'.trans hu, hne'⟩

theorem lookup_cons_ne {uuidMap : UuidMap} {u k v : UInt64} (h : u ≠ k) :
    ((k, v) :: uuidMap).lookup u = uuidMap.lookup u := by
  rw [List.lookup_cons, beq_eq_false_iff_ne.mpr h]

/-- A descriptor with a new uuid whose pid changed. -/
theorem Recorded.add {gen : ℕ → UInt64} {g : Int32 → Int32} {ds : List (Int32 × UInt64)}
    {s : UuidRemap} (h : Recorded gen g ds s) {d : Int32 × UInt64} (hne : d.1 ≠ g d.1)
    (hnew : s.uuidMap.lookup d.2 = none) :
    Recorded gen g (ds ++ [d])
      ⟨true, (d.2, gen s.generated) :: s.uuidMap, s.generated + 1⟩ := by
  have hself : ((d.2, gen s.generated) :: s.uuidMap).lookup d.2 = some (gen s.generated) := by simp
  refine ⟨⟨fun _ => ⟨d, by simp, hne⟩, fun _ => rfl⟩, fun u => ?_, fun u v hv => ?_,
    by simpa using h.count, ?_⟩
  · by_cases hu : u = d.2
    · subst hu
      simp only [hself, Option.isSome_some, true_iff]
      exact ⟨d, by simp, rfl, hne⟩
    · rw [lookup_cons_ne hu, h.key u]
      constructor
      · intro hex
        obtain ⟨e, he, hx⟩ := hex
        exact ⟨e, List.mem_append_left _ he, hx⟩
      · intro hex
        obtain ⟨e, he, hx⟩ := hex
        rcases List.mem_append.mp he with he | he
        · exact ⟨e, he, hx⟩
        · obtain rfl := List.mem_singleton.mp he
          exact absurd hx.1.symm hu
  · by_cases hu : u = d.2
    · subst hu
      rw [hself] at hv
      exact ⟨s.generated, by simp, (Option.some.inj hv).symm⟩
    · rw [lookup_cons_ne hu] at hv
      obtain ⟨i, hi, rfl⟩ := h.val u v hv
      exact ⟨i, by simp only; omega, rfl⟩
  · intro hinj u u' v hu hu'
    -- an earlier entry has an earlier generated value
    have hlate : ∀ w, w ≠ d.2 → s.uuidMap.lookup w ≠ some (gen s.generated) := by
      intro w _ hw
      obtain ⟨i, hi, he⟩ := h.val w _ hw
      have := hinj s.generated (Nat.lt_succ_self _) i (Nat.lt_succ_of_lt hi) he
      omega
    by_cases h1 : u = d.2 <;> by_cases h2 : u' = d.2
    · rw [h1, h2]
    · subst h1
      rw [hself] at hu
      rw [lookup_cons_ne h2, ← hu] at hu'
      exact absurd hu' (hlate u' h2)
    · subst h2
      rw [hself] at hu'
      rw [lookup_cons_ne h1, ← hu'] at hu
      exact absurd hu (hlate u h1)
    · rw [lookup_cons_ne h1] at hu
      rw [lookup_cons_ne h2] at hu'
      exact h.inj (fun i hi j hj => hinj i (Nat.lt_succ_of_lt hi) j (Nat.lt_succ_of_lt hj)) u u' v hu hu'

theorem Recorded.step {gen : ℕ → UInt64} {g : Int32 → Int32} {ds : List (Int32 × UInt64)}
    {s : UuidRemap} (h : Recorded gen g ds s) (d : Int32 × UInt64) :
    Recorded gen g (ds ++ [d]) (recordUuid gen g s d) := by
  unfold recordUuid
  split_ifs with h1 h2
  · exact h.skip (.inl h1)
  · exact h.skip (.inr h2)
  · exact h.add h1 (Option.not_isSome_iff_eq_none.mp h2)

theorem Recorded.run {gen : ℕ → UInt64} {g : Int32 → Int32} :
    ∀ (ds' ds : List (Int32 × UInt64)) (s : UuidRemap), Recorded gen g ds s →
      Recorded gen g (ds ++ ds') (ds'.foldl (recordUuid gen g) s)
  | [], ds, s, h => by simpa using h
  | d :: ds', ds, s, h => by
    have := Recorded.run ds' (ds ++ [d]) _ (h.step d)
    rwa [List.append_assoc, List.singleton_append] at this

theorem recorded_uuidRemap (gen : ℕ → UInt64) (g : Int32 → Int32) (t : Trace ρ) :
    Recorded gen g (t.flatMap TracePacket.descriptorPids) (uuidRemap gen g t) := by
  have h0 : Recorded gen g [] {} := by
    constructor <;> simp
  exact Recorded.run (t.flatMap TracePacket.descriptorPids) [] {} h0

/-! ### When references survive -/

/-- References survive a pass that replaces the visited uuids in `moved` by
fresh ones and the others by 0: the visited ones outside `moved` are all one
value, and an extra counter uuid meets no visited value that changes, nor the
0 it changes to. -/
def UuidsSurvive (moved : UInt64 → Prop) (refs : List UuidRef) : Prop :=
  (∀ r ∈ refs, ∀ r' ∈ refs, r.field.visited = true → r'.field.visited = true →
    ¬ moved r.uuid → ¬ moved r'.uuid → r.uuid = r'.uuid) ∧
  (∀ e ∈ refs, ∀ r ∈ refs, e.field.visited = false → r.field.visited = true →
    moved r.uuid ∨ r.uuid ≠ 0 → e.uuid ≠ r.uuid ∧ (¬ moved r.uuid → e.uuid ≠ 0))

theorem sameTracks_map (refs : List UuidRef) (g : UuidRef → UuidRef) :
    SameTracks refs (refs.map g) ↔
      ∀ r ∈ refs, ∀ r' ∈ refs, (g r).uuid = (g r').uuid ↔ r.uuid = r'.uuid := by
  have hz : refs.zip (refs.map g) = refs.map fun r => (r, g r) := by
    have := List.zip_map' (f := id) (g := g) (l := refs)
    simpa using this
  simp [SameTracks, hz]

theorem sameTracks_refl (refs : List UuidRef) : SameTracks refs refs := by
  have := (sameTracks_map refs id).mpr fun r _ r' _ => Iff.rfl
  simpa using this

/-- A pass with fresh values for the moved uuids and 0 for the others. -/
theorem sameTracks_moved {moved : UInt64 → Prop} {g : UInt64 → UInt64} {refs : List UuidRef}
    (hfresh : ∀ u, moved u → g u ≠ 0 ∧ ∀ r ∈ refs, g u ≠ r.uuid)
    (hinj : ∀ u v, moved u → moved v → g u = g v → u = v) (hzero : ∀ u, ¬ moved u → g u = 0) :
    SameTracks refs (refs.map (UuidRef.map g)) ↔ UuidsSurvive moved refs := by
  classical
  have hv : ∀ r : UuidRef, r.field.visited = true → (r.map g).uuid = g r.uuid := fun r h => by
    simp [UuidRef.map, h]
  have hk : ∀ r : UuidRef, r.field.visited = false → (r.map g).uuid = r.uuid := fun r h => by
    simp [UuidRef.map, h]
  rw [sameTracks_map]
  constructor
  · intro h
    refine ⟨fun r hr r' hr' hvr hvr' hm hm' => ?_, fun e he r hr hke hvr hmr => ?_⟩
    · rw [← h r hr r' hr', hv r hvr, hv r' hvr', hzero _ hm, hzero _ hm']
    · have hiff := h e he r hr
      rw [hk e hke, hv r hvr] at hiff
      by_cases hm : moved r.uuid
      · exact ⟨fun heq => (hfresh _ hm).2 e he (hiff.mpr heq).symm, fun hn => absurd hm hn⟩
      · have hr0 : r.uuid ≠ 0 := hmr.resolve_left hm
        rw [hzero _ hm] at hiff
        refine ⟨fun heq => hr0 ?_, fun _ he0 => hr0 ?_⟩
        · rw [← heq, hiff.mpr heq]
        · rw [← hiff.mp he0, he0]
  · rintro ⟨h1, h2⟩ r hr r' hr'
    -- an extra counter uuid against a visited one
    have hmix : ∀ e ∈ refs, ∀ q ∈ refs, e.field.visited = false → q.field.visited = true →
        (e.uuid = g q.uuid ↔ e.uuid = q.uuid) := by
      intro e he q hq hke hvq
      by_cases hm : moved q.uuid
      · have hne := (h2 e he q hq hke hvq (.inl hm)).1
        exact ⟨fun heq => absurd heq.symm ((hfresh _ hm).2 e he), fun heq => absurd heq hne⟩
      · rw [hzero _ hm]
        by_cases hq0 : q.uuid = 0
        · rw [hq0]
        · obtain ⟨hne, he0⟩ := h2 e he q hq hke hvq (.inr hq0)
          exact ⟨fun heq => absurd heq (he0 hm), fun heq => absurd heq hne⟩
    cases hvr : r.field.visited <;> cases hvr' : r'.field.visited
    · rw [hk r hvr, hk r' hvr']
    · rw [hk r hvr, hv r' hvr']
      exact hmix r hr r' hr' hvr hvr'
    · rw [hv r hvr, hk r' hvr', eq_comm, hmix r' hr' r hr hvr' hvr, eq_comm]
    · rw [hv r hvr, hv r' hvr']
      refine ⟨fun heq => ?_, fun heq => by rw [heq]⟩
      by_cases hm : moved r.uuid <;> by_cases hm' : moved r'.uuid
      · exact hinj _ _ hm hm' heq
      · exact absurd (heq.trans (hzero _ hm')) (hfresh _ hm).1
      · exact absurd (heq.symm.trans (hzero _ hm)) (hfresh _ hm').1
      · exact h1 r hr r' hr' hvr hvr' hm hm'

/-- The pids the traversal visits in the main trace, none if it does not
parse. -/
def mainPids (P : Protobuf ρ) (main : Bytes) : List UInt32 :=
  match P.parseFromString main with
  | none => []
  | some M => ids .pid M

/-- `u` is the uuid of an addon descriptor with a non-zero process or thread
pid, and the main trace has a non-zero pid, so that this pid moves. -/
def movedUuid (P : Protobuf ρ) (main : Bytes) (addon : Trace ρ) (u : UInt64) : Prop :=
  (∃ p ∈ mainPids P main, p ≠ 0) ∧ ∃ d ∈ addon.flatMap TracePacket.descriptorPids, d.2 = u ∧ d.1 ≠ 0

instance (P : Protobuf ρ) (main : Bytes) (addon : Trace ρ) : DecidablePred (movedUuid P main addon) :=
  fun _ => inferInstanceAs (Decidable (_ ∧ _))

theorem maxPid_ne_zero (P : Protobuf ρ) (gen : ℕ → UInt64) (main : Bytes) :
    (sCalcMaxIds P gen main).pid ≠ 0 ↔ ∃ p ∈ mainPids P main, p ≠ 0 := by
  cases h : P.parseFromString main with
  | none => simp [sCalcMaxIds, mainPids, h]
  | some M =>
    have hmax : (sCalcMaxIds P gen main).pid.toNat = maxId .pid M := sCalcMaxIds_get P gen h .pid
    have hz : ∀ v : UInt32, v ≠ 0 ↔ v.toNat ≠ 0 := fun v => by
      rw [ne_eq, ← UInt32.toNat_inj]
      rfl
    simp only [mainPids, h]
    rw [hz, hmax]
    constructor
    · intro hne
      by_contra hc
      refine hne (Nat.le_zero.mp (maxId_le fun v hv => ?_))
      by_contra hpos
      exact hc ⟨v, hv, (hz v).mpr (by omega)⟩
    · intro hex
      obtain ⟨v, hv, hv0⟩ := hex
      have h1 := le_maxId hv
      have h2 := (hz v).mp hv0
      omega

theorem pid_moves (maxMain : MaxIds) (pid : Int32) :
    pid ≠ (offsets maxMain).pid pid ↔ maxMain.pid ≠ 0 ∧ pid ≠ 0 := by
  by_cases hp : pid = 0
  · subst hp
    simp [offsets]
  · simp only [offsets, hp, if_false, ne_eq, not_false_eq_true, and_true]
    refine not_congr ⟨fun h => ?_, fun h => by simp [h]⟩
    have h1 := congrArg Int32.toUInt32 h
    rw [UInt32.toUInt32_toInt32] at h1
    have h2 : 0 + pid.toUInt32 = maxMain.pid + pid.toUInt32 := by rw [UInt32.zero_add, UInt32.add_comm, ← h1]
    exact ((UInt32.add_left_inj _).mp h2).symm

/-- What is assumed of `GenUuidv4Lsb`: the values of successive calls (there is
at most one for each descriptor pid) are non-zero, pairwise distinct and do
not occur in the trace. -/
structure FreshUuids (gen : ℕ → UInt64) (addon : Trace ρ) : Prop where
  ne_zero : ∀ i < (addon.flatMap TracePacket.descriptorPids).length, gen i ≠ 0
  ne_ref : ∀ i < (addon.flatMap TracePacket.descriptorPids).length, ∀ r ∈ uuidRefs addon,
    gen i ≠ r.uuid
  distinct : ∀ i < (addon.flatMap TracePacket.descriptorPids).length,
    ∀ j < (addon.flatMap TracePacket.descriptorPids).length, gen i = gen j → i = j

/-- **When a merge keeps the addon's tracks apart and together.** With fresh
uuids, two occurrences of a track uuid in the rewritten addon are equal
exactly when they were, if and only if no uuid moves or the references
survive the move. -/
theorem sameTracks_iff (P : Protobuf ρ) (gen : ℕ → UInt64) (main : Bytes) (diff : Int64)
    (addon : Trace ρ) (hgen : FreshUuids gen addon) :
    SameTracks (uuidRefs addon) (uuidRefs (rewriteAddon gen (sCalcMaxIds P gen main) diff addon)) ↔
      ((∃ u, movedUuid P main addon u) → UuidsSurvive (movedUuid P main addon) (uuidRefs addon)) := by
  set maxMain := sCalcMaxIds P gen main with hmm
  have hrec := recorded_uuidRemap gen (offsets maxMain).pid addon
  set s := uuidRemap gen (offsets maxMain).pid addon with hs
  have hmoved : ∀ u, movedUuid P main addon u ↔ (s.uuidMap.lookup u).isSome = true := by
    intro u
    rw [hrec.key u, movedUuid, ← maxPid_ne_zero P gen main, ← hmm]
    simp only [pid_moves]
    constructor
    · intro hall
      obtain ⟨h0, d, hd, hu, hp⟩ := hall
      exact ⟨d, hd, hu, h0, hp⟩
    · intro hall
      obtain ⟨d, hd, hu, h0, hp⟩ := hall
      exact ⟨h0, d, hd, hu, hp⟩
  have hneed : s.needRemapUuids = true ↔ ∃ u, movedUuid P main addon u := by
    rw [hrec.need]
    constructor
    · intro hall
      obtain ⟨d, hd, hne⟩ := hall
      exact ⟨d.2, (hmoved _).mpr ((hrec.key _).mpr ⟨d, hd, rfl, hne⟩)⟩
    · intro hall
      obtain ⟨u, hu⟩ := hall
      obtain ⟨d, hd, -, hne⟩ := (hrec.key u).mp ((hmoved u).mp hu)
      exact ⟨d, hd, hne⟩
  have hval : ∀ u, movedUuid P main addon u →
      ∃ i < (addon.flatMap TracePacket.descriptorPids).length, s.uuidMap.lookup u = some (gen i) ∧
        remapped s.uuidMap u = gen i := by
    intro u hu
    obtain ⟨v, hv⟩ := Option.isSome_iff_exists.mp ((hmoved u).mp hu)
    obtain ⟨i, hi, rfl⟩ := hrec.val u v hv
    exact ⟨i, Nat.lt_of_lt_of_le hi hrec.count, hv, by simp [remapped, hv]⟩
  rw [uuidRefs_rewriteAddon]
  split
  · rename_i hn
    have hex := hneed.mp hn
    rw [@sameTracks_moved (movedUuid P main addon)]
    · exact ⟨fun h _ => h, fun h => h hex⟩
    · intro u hu
      obtain ⟨i, hlt, -, hi⟩ := hval u hu
      rw [hi]
      exact ⟨hgen.ne_zero i hlt, hgen.ne_ref i hlt⟩
    · intro u v hu hv he
      obtain ⟨i, -, hi, hi'⟩ := hval u hu
      obtain ⟨j, -, hj, hj'⟩ := hval v hv
      rw [hi', hj'] at he
      rw [← he] at hj
      refine hrec.inj (fun a ha b hb => hgen.distinct a ?_ b ?_) u v _ hi hj
      · exact Nat.lt_of_lt_of_le ha hrec.count
      · exact Nat.lt_of_lt_of_le hb hrec.count
    · intro u hu
      rw [hmoved, Option.isSome_iff_ne_none, ne_eq, not_not] at hu
      rw [remapped, ← hs, hu]
      rfl
  · rename_i hn
    exact ⟨fun _ hex => absurd (hneed.mpr hex) hn, fun _ => sameTracks_refl _⟩

/-- A packet with a track descriptor: its uuid and the pid of its process. -/
def descriptorPacket (uuid : UInt64) (pid : Option Int32) : TracePacket Unit :=
  ⟨none, none, none, none,
    .trackDescriptor ⟨some uuid, none, pid.map fun pid => ⟨some pid, ()⟩, none, ()⟩, ()⟩

/-- A packet with a track event on a track. -/
def eventPacket (uuid : UInt64) : TracePacket Unit :=
  ⟨none, none, none, none, .trackEvent ⟨some uuid, [], ()⟩, ()⟩

/-- A main trace with process 1, and an addon with the track 10 of process 5
and an event on it: the reference survives. -/
theorem sameTracks_process :
    SameTracks (uuidRefs [descriptorPacket 10 (some 5), eventPacket 10])
      (uuidRefs (rewriteAddon (fun n => UInt64.ofNat (1000 + n))
        (sCalcMaxIds wire (fun n => UInt64.ofNat (1000 + n)) [10, 6, 18, 4, 10, 2, 8, 1]) 0
        [descriptorPacket 10 (some 5), eventPacket 10])) :=
  (sameTracks_iff wire _ _ 0 _ ⟨by decide +kernel, by decide +kernel, by decide +kernel⟩).mpr
    fun _ => ⟨by decide +kernel, by decide +kernel⟩

/-- The same main trace, and an addon with the process track 10 and the
counter tracks 20 and 30: both counter tracks become track 0. -/
theorem counterTracks_merged : ∃ (gen : ℕ → UInt64) (main addonTrace : Bytes) (addon : Trace Unit),
    (wire.parseFromString main).isSome = true ∧ wire.parseFromString addonTrace = some addon ∧
      FreshUuids gen addon ∧ ¬ SameTracks (uuidRefs addon)
        (uuidRefs (rewriteAddon gen (sCalcMaxIds wire gen main) 0 addon)) :=
  ⟨fun n => UInt64.ofNat (1000 + n), [10, 6, 18, 4, 10, 2, 8, 1],
    [10, 9, 226, 3, 6, 8, 10, 26, 2, 8, 5, 10, 5, 226, 3, 2, 8, 20, 10, 5, 226, 3, 2, 8, 30],
    [descriptorPacket 10 (some 5), descriptorPacket 20 none, descriptorPacket 30 none],
    by decide +kernel, by decide +kernel,
    ⟨by decide +kernel, by decide +kernel, by decide +kernel⟩, by decide +kernel⟩

end Merge
end VPerfetto
