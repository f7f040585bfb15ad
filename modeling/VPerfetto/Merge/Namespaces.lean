/-
# Id namespaces of merged traces

Each kind of id of the addon is moved above the main trace's maximum of that
kind, so no id of the addon meets one of the main trace, and merging one
trace after another keeps all of them apart (`merged_namespaces_apart`), as
long as the maxima do not add up to 2^31.

All kinds are treated alike: an id is a `uint32` value (an `int32` is the
same 32 bits), `ids k t` lists the ids of kind `k` that the traversal visits
in `t`, `maxId k t` is their maximum and `offset k max` is what the merge does
to one of them. A maximum below 2^31 says in particular that no id of the
kind is negative as an `int32`.

Key definitions: `IdKind`, `ids`, `maxId`, `offset`, `Apart`, `mergeAll`.
Key theorems: `sCalcMaxIds_get`, `ids_rewriteAddon`, `merged_namespaces_apart`.
-/
import VPerfetto.Merge.Frame

namespace VPerfetto
namespace Merge

variable {ρ : Type}

/-- The kinds of ids `iterateTraceIds` has a callback for. -/
inductive IdKind where
  | trustedUid
  | sequenceId
  | pid
  | tid
  | cpu
  deriving DecidableEq

def Visit.kind : Visit → IdKind
  | .trustedUid _ => .trustedUid
  | .sequenceId _ => .sequenceId
  | .pid _ => .pid
  | .tid _ => .tid
  | .cpu _ => .cpu

/-- The 32 bits of the visited value. -/
def Visit.value : Visit → UInt32
  | .trustedUid u => u
  | .sequenceId s => s
  | .pid p => p.toUInt32
  | .tid t => t.toUInt32
  | .cpu c => c.toUInt32

/-- The values of kind `k` among visits. -/
def valuesOf (k : IdKind) (vs : List Visit) : List UInt32 :=
  (vs.filter fun v => v.kind = k).map Visit.value

/-- The ids of kind `k` on the packets of a trace. -/
def ids (k : IdKind) (t : Trace ρ) : List UInt32 := valuesOf k (t.flatMap TracePacket.visits)

/-- The maximum of the ids of kind `k`, 0 if there are none. -/
def maxId (k : IdKind) (t : Trace ρ) : ℕ := ((ids k t).map UInt32.toNat).foldr max 0

def MaxIds.get (s : MaxIds) : IdKind → UInt32
  | .trustedUid => s.trustedUid
  | .sequenceId => s.sequenceId
  | .pid => s.pid
  | .tid => s.tid
  | .cpu => s.cpu

/-- What the merge does to an id of kind `k`, given the main trace's maximum. -/
def offset (k : IdKind) (max : UInt32) (v : UInt32) : UInt32 :=
  match k with
  | .trustedUid => v + max
  | .sequenceId => v + max
  | .pid => if v = 0 then 0 else v + max
  | .tid => if v = 0 then 0 else v + max
  | .cpu => v + max + 1

/-! ### The maxima -/

/-- One callback of `sCalcMaxIds`. -/
def MaxIds.record (s : MaxIds) (v : Visit) : MaxIds :=
  if v.value > s.get v.kind then
    match v.kind with
    | .trustedUid => { s with trustedUid := v.value }
    | .sequenceId => { s with sequenceId := v.value }
    | .pid => { s with pid := v.value }
    | .tid => { s with tid := v.value }
    | .cpu => { s with cpu := v.value }
  else s

theorem maxCallbacks_eq : maxCallbacks = observe fun v => modify fun s => s.record v := by
  simp only [maxCallbacks, observe, Int32.toInt32_toUInt32]
  rfl

theorem record_get (s : MaxIds) (v : Visit) (k : IdKind) :
    ((s.record v).get k).toNat =
      if v.kind = k then max (s.get k).toNat v.value.toNat else (s.get k).toNat := by
  unfold MaxIds.record
  by_cases hv : v.value > s.get v.kind
  · have hlt : (s.get v.kind).toNat < v.value.toNat := UInt32.lt_iff_toNat_lt.mp hv
    rw [if_pos hv]
    cases v <;> cases k <;> simp_all [Visit.kind, MaxIds.get] <;> omega
  · have hle : v.value.toNat ≤ (s.get v.kind).toNat := by
      rw [gt_iff_lt, UInt32.lt_iff_toNat_lt] at hv
      omega
    rw [if_neg hv]
    split_ifs with hk
    · subst hk
      omega
    · rfl

theorem forM_modify_run {σ α : Type} (f : σ → α → σ) : ∀ (l : List α) (s : σ),
    ((l.forM fun a => (modify fun s => f s a : StateM σ PUnit)).run s).2 = l.foldl f s
  | [], _ => rfl
  | a :: l, s => forM_modify_run f l (f s a)

theorem foldl_record_get (k : IdKind) : ∀ (vs : List Visit) (s : MaxIds),
    ((vs.foldl MaxIds.record s).get k).toNat =
      max (s.get k).toNat (((valuesOf k vs).map UInt32.toNat).foldr max 0)
  | [], _ => by simp [valuesOf]
  | v :: vs, s => by
    rw [List.foldl_cons, foldl_record_get k vs, record_get]
    by_cases hk : v.kind = k
    · simp [valuesOf, hk, Nat.max_assoc]
    · simp [valuesOf, hk]

/-- `sCalcMaxIds` computes the maximum of each kind. -/
theorem sCalcMaxIds_get (P : Protobuf ρ) (gen : ℕ → UInt64) {trace : Bytes} {t : Trace ρ}
    (h : P.parseFromString trace = some t) (k : IdKind) :
    ((sCalcMaxIds P gen trace).get k).toNat = maxId k t := by
  have hrun : sCalcMaxIds P gen trace = (t.flatMap TracePacket.visits).foldl MaxIds.record {} := by
    simp only [sCalcMaxIds, h]
    rw [maxCallbacks_eq, iterateTraceIds_observe, ← forM_modify_run MaxIds.record]
    rfl
  rw [hrun, foldl_record_get]
  cases k <;> simp [MaxIds.get, maxId, ids]

/-! ### The rewritten ids -/

theorem foldr_max_le {l : List ℕ} {x : ℕ} (hx : x ∈ l) : x ≤ l.foldr max 0 := by
  induction l with
  | nil => cases hx
  | cons a l ih =>
    rw [List.foldr_cons]
    rcases List.mem_cons.mp hx with rfl | hx
    · exact Nat.le_max_left _ _
    · exact Nat.le_trans (ih hx) (Nat.le_max_right _ _)

theorem foldr_max_le_of {b : ℕ} : ∀ {l : List ℕ}, (∀ x ∈ l, x ≤ b) → l.foldr max 0 ≤ b
  | [], _ => Nat.zero_le _
  | a :: l, h => by
    rw [List.foldr_cons]
    exact Nat.max_le.mpr ⟨h a List.mem_cons_self, foldr_max_le_of fun x hx => h x (List.mem_cons_of_mem _ hx)⟩

theorem le_maxId {k : IdKind} {t : Trace ρ} {v : UInt32} (h : v ∈ ids k t) : v.toNat ≤ maxId k t :=
  foldr_max_le (List.mem_map_of_mem h)

theorem maxId_le {k : IdKind} {t : Trace ρ} {b : ℕ} (h : ∀ v ∈ ids k t, v.toNat ≤ b) : maxId k t ≤ b :=
  foldr_max_le_of fun x hx => by
    obtain ⟨v, hv, rfl⟩ := List.mem_map.mp hx
    exact h v hv

theorem ids_append (k : IdKind) (s t : Trace ρ) : ids k (s ++ t) = ids k s ++ ids k t := by
  simp [ids, valuesOf]

theorem map_kind (maxMain : MaxIds) (v : Visit) : (v.map (offsets maxMain)).kind = v.kind := by
  cases v <;> rfl

theorem toUInt32_eq_zero {p : Int32} : p.toUInt32 = 0 ↔ p = 0 := by
  constructor
  · intro h
    rw [← Int32.toInt32_toUInt32 p, h]
    rfl
  · rintro rfl
    rfl

theorem map_value (maxMain : MaxIds) (v : Visit) :
    (v.map (offsets maxMain)).value = offset v.kind (maxMain.get v.kind) v.value := by
  cases v with
  | trustedUid u => rfl
  | sequenceId s => rfl
  | cpu c =>
    simp [Visit.map, Visit.value, offset, offsets, Visit.kind, MaxIds.get]
    rfl
  | pid p | tid p =>
    simp only [Visit.map, Visit.value, offset, offsets, Visit.kind, MaxIds.get, toUInt32_eq_zero]
    split_ifs
    · rfl
    · simp

theorem valuesOf_map (maxMain : MaxIds) (k : IdKind) (vs : List Visit) :
    valuesOf k (vs.map (Visit.map (offsets maxMain))) =
      (valuesOf k vs).map (offset k (maxMain.get k)) := by
  induction vs with
  | nil => rfl
  | cons v vs ih =>
    simp only [valuesOf] at ih ⊢
    by_cases hk : v.kind = k
    · simp [map_kind, hk, ih, map_value]
    · simp [map_kind, hk, ih]

theorem visits_forEachUuid {σ : Type} (f : UInt64 → StateM σ UInt64) (p : TracePacket ρ) (s : σ) :
    ((p.forEachUuid f).run s).1.visits = p.visits := by
  rcases p with ⟨ts, uid, seq, tpd, data, o⟩
  cases data <;> rfl

theorem flatMap_visits_forEachUuid {σ : Type} (f : UInt64 → StateM σ UInt64) :
    ∀ (t : Trace ρ) (s : σ),
      ((iterateTraceTrackDescriptorUuids t f).run s).1.flatMap TracePacket.visits =
        t.flatMap TracePacket.visits
  | [], _ => rfl
  | p :: t, s => by
    rw [iterateTraceTrackDescriptorUuids, List.mapM_cons, List.flatMap_cons,
      ← visits_forEachUuid f p s, ← flatMap_visits_forEachUuid f t ((p.forEachUuid f).run s).2]
    rfl

/-- The visits of a rewritten addon trace are the rewritten visits, as long as
no pid wraps to 0. -/
theorem visits_rewriteAddon (gen : ℕ → UInt64) (maxMain : MaxIds) (diff : Int64) (addon : Trace ρ)
    (h : KeepsNonzero (offsets maxMain).pid (visitedPids (addon.flatMap TracePacket.visits))) :
    (rewriteAddon gen maxMain diff addon).flatMap TracePacket.visits =
      (addon.flatMap TracePacket.visits).map (Visit.map (offsets maxMain)) := by
  have hs : (shiftedAddon maxMain diff addon).flatMap TracePacket.visits =
      (addon.flatMap TracePacket.visits).map (Visit.map (offsets maxMain)) := by
    rw [shiftedAddon, List.flatMap_map, List.map_flatMap]
    apply List.flatMap_congr
    intro p hp
    rw [packet_visits_map, visits_mapTimestamps, visits_clear]
    rw [visits_mapTimestamps, visits_clear]
    refine h.mono fun x hx => mem_visitedPids.mpr (List.mem_flatMap.mpr ⟨p, hp, ?_⟩)
    exact mem_visitedPids.mp hx
  rw [rewriteAddon_eq]
  split
  · rw [flatMap_visits_forEachUuid, hs]
  · exact hs

theorem mem_ids_pid {t : Trace ρ} {p : Int32} (h : p ∈ visitedPids (t.flatMap TracePacket.visits)) :
    p.toUInt32 ∈ ids .pid t := by
  refine List.mem_map.mpr ⟨.pid p, List.mem_filter.mpr ⟨mem_visitedPids.mp h, ?_⟩, rfl⟩
  simp [Visit.kind]

theorem offset_keepsNonzero {maxMain : MaxIds} {addon : Trace ρ}
    (h : maxMain.pid.toNat + maxId .pid addon < 2 ^ 32) :
    KeepsNonzero (offsets maxMain).pid (visitedPids (addon.flatMap TracePacket.visits)) := by
  intro p hp hne
  have hle := le_maxId (mem_ids_pid hp)
  have hpos : p.toUInt32.toNat ≠ 0 := fun h0 => hne (toUInt32_eq_zero.mp (UInt32.toNat_inj.mp h0))
  have hsum : (p.toUInt32 + maxMain.pid).toNat = p.toUInt32.toNat + maxMain.pid.toNat := by
    rw [UInt32.toNat_add, Nat.mod_eq_of_lt (by omega)]
  simp only [offsets, hne, if_false]
  intro h0
  have h1 := congrArg (fun x => x.toUInt32.toNat) h0
  simp only [UInt32.toUInt32_toInt32, hsum] at h1
  have : (0 : Int32).toUInt32.toNat = 0 := rfl
  omega

/-- The ids of the rewritten addon trace, kind by kind and in order. -/
theorem ids_rewriteAddon (gen : ℕ → UInt64) {maxMain : MaxIds} (diff : Int64) {addon : Trace ρ}
    (h : maxMain.pid.toNat + maxId .pid addon < 2 ^ 32) (k : IdKind) :
    ids k (rewriteAddon gen maxMain diff addon) = (ids k addon).map (offset k (maxMain.get k)) := by
  rw [ids, visits_rewriteAddon gen maxMain diff addon (offset_keepsNonzero h), valuesOf_map, ids]

/-! ### Apart -/

/-- The kinds whose namespaces are kept apart. -/
def separated : List IdKind := [.sequenceId, .pid, .tid, .cpu]

/-- 0 is not an id: it stays 0 in every trace. -/
def zeroStays (k : IdKind) : Bool := k = .pid ∨ k = .tid

/-- No id of kind `k` of `t` is an id of kind `k` of `s`, the 0 of the kinds
that keep it apart. -/
def Apart (k : IdKind) (s t : Trace ρ) : Prop :=
  ∀ a ∈ ids k t, ∀ b ∈ ids k s, (zeroStays k = true → a ≠ 0) → a ≠ b

theorem offset_zero {k : IdKind} (h : zeroStays k = true) (m : UInt32) : offset k m 0 = 0 := by
  cases k <;> simp_all [zeroStays, offset]

theorem add_toNat {v m : UInt32} (h : v.toNat + m.toNat < 2 ^ 32) :
    (v + m).toNat = v.toNat + m.toNat := by
  rw [UInt32.toNat_add, Nat.mod_eq_of_lt h]

/-- An id that is moved ends up above the maximum, by no more than itself
and one. -/
theorem offset_toNat {k : IdKind} {m v : UInt32} (h : m.toNat + v.toNat + 1 < 2 ^ 32)
    (hz : zeroStays k = true → v ≠ 0) :
    m.toNat + v.toNat ≤ (offset k m v).toNat ∧ (offset k m v).toNat ≤ m.toNat + v.toNat + 1 ∧
      (k = .cpu → m.toNat + v.toNat < (offset k m v).toNat) := by
  have hadd : (v + m).toNat = v.toNat + m.toNat := add_toNat (by omega)
  have hcpu : (v + m + 1).toNat = v.toNat + m.toNat + 1 := by
    rw [add_toNat (by rw [hadd]; simp; omega), hadd]
    rfl
  cases k with
  | trustedUid | sequenceId =>
    simp only [offset, hadd]
    exact ⟨by omega, by omega, fun h => by cases h⟩
  | pid | tid =>
    have hv : v ≠ 0 := hz rfl
    simp only [offset, hv, if_false, hadd]
    exact ⟨by omega, by omega, fun h => by cases h⟩
  | cpu =>
    simp only [offset, hcpu]
    exact ⟨by omega, by omega, fun _ => by omega⟩

theorem offset_le {k : IdKind} {m v : UInt32} (h : m.toNat + v.toNat + 1 < 2 ^ 32) :
    (offset k m v).toNat ≤ m.toNat + v.toNat + 1 := by
  by_cases hz : zeroStays k = true ∧ v = 0
  · rw [hz.2, offset_zero hz.1]
    simp
  · exact (offset_toNat h fun hk hv => hz ⟨hk, hv⟩).2.1

theorem offset_gt {k : IdKind} (hk : k ∈ separated) {m v : UInt32} (h : m.toNat + v.toNat + 1 < 2 ^ 32)
    (hz : zeroStays k = true → v ≠ 0) (hs : k = .sequenceId → v ≠ 0) :
    m.toNat < (offset k m v).toNat := by
  have hpos : v ≠ 0 → 0 < v.toNat := fun hv =>
    Nat.pos_of_ne_zero fun h0 => hv (UInt32.toNat_inj.mp h0)
  obtain ⟨h1, -, h3⟩ := offset_toNat h hz
  cases k with
  | trustedUid => simp [separated] at hk
  | sequenceId => have := hpos (hs rfl); omega
  | pid | tid => have := hpos (hz rfl); omega
  | cpu => have := h3 rfl; omega

theorem offset_injOn {k : IdKind} {m v w : UInt32} (hv : m.toNat + v.toNat + 1 < 2 ^ 32)
    (hw : m.toNat + w.toNat + 1 < 2 ^ 32) (h : offset k m v = offset k m w) : v = w := by
  have hadd : ∀ {x : UInt32}, m.toNat + x.toNat + 1 < 2 ^ 32 → (x + m).toNat = x.toNat + m.toNat :=
    fun hx => add_toNat (by omega)
  have hinj : v + m = w + m → v = w := fun he => by
    have := congrArg UInt32.toNat he
    rw [hadd hv, hadd hw] at this
    exact UInt32.toNat_inj.mp (by omega)
  -- 0 is kept and everything else moves up, so no two values meet
  have hzero : (if v = 0 then 0 else v + m) = (if w = 0 then 0 else w + m) → v = w := by
    intro he
    have hne : ∀ {x : UInt32}, m.toNat + x.toNat + 1 < 2 ^ 32 → x ≠ 0 → x + m ≠ 0 := by
      intro x hx hx0 h0
      have := congrArg UInt32.toNat h0
      rw [hadd hx] at this
      exact hx0 (UInt32.toNat_inj.mp (by simp at this ⊢; omega))
    split_ifs at he with h1 h2 h2
    · rw [h1, h2]
    · exact absurd he.symm (hne hw h2)
    · exact absurd he (hne hv h1)
    · exact hinj he
  cases k with
  | trustedUid | sequenceId => exact hinj h
  | pid | tid => exact hzero h
  | cpu => exact hinj ((UInt32.add_left_inj 1).mp h)

/-! ### Merging -/

/-- What one merge does to the ids of the addon. -/
theorem construct_ids {P : Protobuf ρ} (hP : P.Lawful) (gen : ℕ → UInt64) {main addon : Bytes}
    {M A : Trace ρ} (hM : P.parseFromString main = some M) (hA : P.parseFromString addon = some A)
    (d : Int64) (hseq : ∀ v ∈ ids .sequenceId A, v ≠ 0)
    (hmax : ∀ k ∈ separated, maxId k M + maxId k A + 1 < 2 ^ 31) :
    ∃ A', P.parseFromString (constructCombinedTrace P gen main addon d) = some (M ++ A') ∧
      A'.length = A.length ∧ ∀ k ∈ separated, Apart k M A' ∧
        ids k A' = (ids k A).map (offset k ((sCalcMaxIds P gen main).get k)) ∧
        maxId k A' ≤ maxId k M + maxId k A + 1 := by
  set maxMain := sCalcMaxIds P gen main with hmm
  have hget : ∀ k, (maxMain.get k).toNat = maxId k M := sCalcMaxIds_get P gen hM
  have hids : ∀ k, ids k (rewriteAddon gen maxMain d A) = (ids k A).map (offset k (maxMain.get k)) := by
    apply ids_rewriteAddon gen d
    have h1 := hmax .pid (by simp [separated])
    have h2 : maxMain.pid.toNat = maxId .pid M := hget .pid
    omega
  refine ⟨rewriteAddon gen maxMain d A, ?_, ?_, fun k hk => ⟨?_, hids k, ?_⟩⟩
  · simp only [constructCombinedTrace, hA]
    exact hP.parse_append _ _ _ _ hM (hP.parse_serialize _)
  · exact (rewriteAddon_frame gen maxMain d A).length_eq.symm
  · intro a ha b hb hz hab
    rw [hids k] at ha
    obtain ⟨v, hv, rfl⟩ := List.mem_map.mp ha
    have hvle := le_maxId hv
    have hble := le_maxId hb
    have hm := hmax k hk
    have hgt := offset_gt hk (m := maxMain.get k) (v := v) (by rw [hget]; omega)
      (fun hzk hv0 => hz hzk (by rw [hv0, offset_zero hzk])) (fun hks => by subst hks; exact hseq v hv)
    rw [hab, hget] at hgt
    omega
  · apply maxId_le
    intro a ha
    rw [hids k] at ha
    obtain ⟨v, hv, rfl⟩ := List.mem_map.mp ha
    have hvle := le_maxId hv
    have hm := hmax k hk
    have := offset_le (k := k) (m := maxMain.get k) (v := v) (by rw [hget]; omega)
    rw [hget] at this
    omega

/-- A trace to merge, with its time difference and the uuids generated
meanwhile. -/
structure Addon where
  trace : Bytes
  diff : Int64
  gen : ℕ → UInt64

/-- Merging one trace after another into the main trace. -/
def mergeAll (P : Protobuf ρ) (main : Bytes) (addons : List Addon) : Bytes :=
  addons.foldl (fun acc a => constructCombinedTrace P a.gen acc a.trace a.diff) main

/-- The room the traces need in kind `k`: their maxima and one for each. -/
def room (k : IdKind) (As : List (Trace ρ)) : ℕ := (As.map fun A => maxId k A + 1).sum

theorem maxId_append_le (k : IdKind) (s t : Trace ρ) :
    maxId k (s ++ t) ≤ max (maxId k s) (maxId k t) := by
  apply maxId_le
  intro v hv
  rw [ids_append, List.mem_append] at hv
  rcases hv with hv | hv
  · exact Nat.le_trans (le_maxId hv) (Nat.le_max_left _ _)
  · exact Nat.le_trans (le_maxId hv) (Nat.le_max_right _ _)

theorem ids_flatten (k : IdKind) (segs : List (Trace ρ)) :
    ids k segs.flatten = segs.flatMap (ids k) := by
  induction segs with
  | nil => rfl
  | cons s segs ih => rw [List.flatten_cons, ids_append, ih, List.flatMap_cons]

/-- The fold, from a trace that already consists of the segments `segs`. -/
theorem mergeAll_segments {P : Protobuf ρ} (hP : P.Lawful) :
    ∀ (addons : List Addon) (As : List (Trace ρ)) (main : Bytes) (segs : List (Trace ρ)),
      List.Forall₂ (fun a A => P.parseFromString a.trace = some A) addons As →
      P.parseFromString main = some segs.flatten →
      (∀ A ∈ As, ∀ v ∈ ids .sequenceId A, v ≠ 0) →
      (∀ k ∈ separated, maxId k segs.flatten + room k As < 2 ^ 31) →
      (∀ k ∈ separated, segs.Pairwise (Apart k)) →
      ∃ segs', P.parseFromString (mergeAll P main addons) = some (segs ++ segs').flatten ∧
        segs'.map List.length = As.map List.length ∧
        ∀ k ∈ separated, (segs ++ segs').Pairwise (Apart k)
  | [], _, main, segs, .nil, hmain, _, _, hpw => ⟨[], by simpa [mergeAll] using hmain, rfl, by simpa using hpw⟩
  | a :: addons, A :: As, main, segs, .cons hA hAs, hmain, hseq, hmax, hpw => by
    have hroom : ∀ k ∈ separated, maxId k segs.flatten + maxId k A + 1 + room k As < 2 ^ 31 := by
      intro k hk
      have := hmax k hk
      simp only [room, List.map_cons, List.sum_cons] at this ⊢
      omega
    obtain ⟨A', hp, hlen, hk'⟩ := construct_ids hP a.gen hmain hA a.diff
      (hseq A List.mem_cons_self) fun k hk => by have := hroom k hk; omega
    -- the new segment lies apart from all of the trace so far
    have hpw' : ∀ k ∈ separated, (segs ++ [A']).Pairwise (Apart k) := by
      intro k hk
      refine List.pairwise_append.mpr ⟨hpw k hk, List.pairwise_singleton _ _, ?_⟩
      intro s hs t ht
      obtain rfl := List.mem_singleton.mp ht
      intro x hx y hy
      refine (hk' k hk).1 x hx y ?_
      rw [ids_flatten]
      exact List.mem_flatMap.mpr ⟨s, hs, hy⟩
    have hmax' : ∀ k ∈ separated, maxId k (segs ++ [A']).flatten + room k As < 2 ^ 31 := by
      intro k hk
      have h1 := maxId_append_le k segs.flatten A'
      have h2 := (hk' k hk).2.2
      have h3 := hroom k hk
      rw [List.flatten_append, List.flatten_singleton]
      omega
    obtain ⟨segs', h1, h2, h3⟩ := mergeAll_segments hP addons As
      (constructCombinedTrace P a.gen main a.trace a.diff) (segs ++ [A']) hAs
      (by rw [hp, List.flatten_append, List.flatten_singleton])
      (fun B hB => hseq B (List.mem_cons_of_mem _ hB)) hmax' hpw'
    refine ⟨A' :: segs', ?_, by simp [hlen, h2], ?_⟩
    · rw [← List.append_cons] at h1
      exact h1
    · intro k hk
      have := h3 k hk
      rwa [← List.append_cons] at this

/-- **Merged traces share no ids.** In one merge, no sequence id, cpu, non-zero
pid or non-zero tid of the addon's packets occurs on a packet of the main
trace, and the ids of each kind are rewritten injectively, 0 staying 0 for
pids and tids; and merging any list of traces one after another leaves all
of them pairwise apart in each kind. -/
theorem merged_namespaces_apart {P : Protobuf ρ} (hP : P.Lawful) :
    (∀ (gen : ℕ → UInt64) (main addon : Bytes) (d : Int64) (M A : Trace ρ),
      P.parseFromString main = some M → P.parseFromString addon = some A →
      (∀ v ∈ ids .sequenceId A, v ≠ 0) →
      (∀ k ∈ separated, maxId k M + maxId k A + 1 < 2 ^ 31) →
      ∃ A', P.parseFromString (constructCombinedTrace P gen main addon d) = some (M ++ A') ∧
        A'.length = A.length ∧ ∀ k ∈ separated, Apart k M A' ∧
          ∃ f : UInt32 → UInt32, ids k A' = (ids k A).map f ∧
            (∀ v ∈ ids k A, ∀ w ∈ ids k A, f v = f w → v = w) ∧ (zeroStays k = true → f 0 = 0)) ∧
    (∀ (main : Bytes) (addons : List Addon) (M : Trace ρ) (As : List (Trace ρ)),
      P.parseFromString main = some M →
      List.Forall₂ (fun a A => P.parseFromString a.trace = some A) addons As →
      (∀ A ∈ As, ∀ v ∈ ids .sequenceId A, v ≠ 0) →
      (∀ k ∈ separated, maxId k M + room k As < 2 ^ 31) →
      ∃ segs, P.parseFromString (mergeAll P main addons) = some (M :: segs).flatten ∧
        segs.map List.length = As.map List.length ∧
        ∀ k ∈ separated, (M :: segs).Pairwise (Apart k)) := by
  constructor
  · intro gen main addon d M A hM hA hseq hmax
    obtain ⟨A', hp, hlen, hk'⟩ := construct_ids hP gen hM hA d hseq hmax
    refine ⟨A', hp, hlen, fun k hk => ⟨(hk' k hk).1, _, (hk' k hk).2.1, ?_, fun hz => offset_zero hz _⟩⟩
    have hbound : ∀ v ∈ ids k A, ((sCalcMaxIds P gen main).get k).toNat + v.toNat + 1 < 2 ^ 32 := by
      intro v hv
      have h1 := le_maxId hv
      have h2 := hmax k hk
      rw [sCalcMaxIds_get P gen hM]
      omega
    exact fun v hv w hw h => offset_injOn (hbound v hv) (hbound w hw) h
  · intro main addons M As hM hAs hseq hmax
    obtain ⟨segs, h1, h2, h3⟩ := mergeAll_segments hP addons As main [M] hAs (by simpa using hM) hseq
      (by simpa using hmax) (fun k _ => List.pairwise_singleton _ _)
    exact ⟨segs, h1, h2, h3⟩

/-- A process tree and an ftrace bundle, with ids of every kind. -/
def idTrace (seqid : UInt32) (pid tid : Int32) (cpu : UInt32) : Trace Unit :=
  [⟨none, none, some seqid, none, .processTree ⟨[⟨some pid, none, ()⟩], [⟨some tid, some pid, ()⟩], ()⟩, ()⟩,
    ⟨none, none, some seqid, none, .ftraceEvents ⟨some cpu, [], none, ()⟩, ()⟩]

theorem ids_idTrace_ne {seqid : UInt32} (hne : seqid ≠ 0) (pid tid : Int32) (cpu : UInt32) :
    ∀ v ∈ ids .sequenceId (idTrace seqid pid tid cpu), v ≠ 0 := by
  intro v hv
  obtain rfl | rfl := List.mem_pair.mp hv
  · exact hne
  · exact hne

/-- Three traces with the same ids, or nearly. -/
theorem merged_namespaces_apart_three :
    (∃ A', wire.parseFromString (constructCombinedTrace wire (fun _ => 9)
          (wire.serializeToString (idTrace 1 2 3 0)) (wire.serializeToString (idTrace 7 2 3 0)) 0) =
        some (idTrace 1 2 3 0 ++ A') ∧ ∀ k ∈ separated, Apart k (idTrace 1 2 3 0) A') ∧
    (∃ segs, wire.parseFromString (mergeAll wire (wire.serializeToString (idTrace 1 2 3 0))
          [⟨wire.serializeToString (idTrace 7 2 3 0), 0, fun _ => 9⟩,
            ⟨wire.serializeToString (idTrace 1 3 2 1), 3, fun _ => 9⟩]) =
          some (idTrace 1 2 3 0 :: segs).flatten ∧
        ∀ k ∈ separated, (idTrace 1 2 3 0 :: segs).Pairwise (Apart k)) := by
  have hread : ∀ t : Trace Unit, wire.parseFromString (wire.serializeToString t) = some t :=
    wire_lawful.parse_serialize
  obtain ⟨h1, h2⟩ := merged_namespaces_apart wire_lawful
  obtain ⟨A', hp, -, hk⟩ := h1 (fun _ => 9) _ _ 0 (idTrace 1 2 3 0) (idTrace 7 2 3 0) (hread _) (hread _)
    (ids_idTrace_ne (by decide) 2 3 0) (by decide +kernel)
  have hseq : ∀ A ∈ [idTrace 7 2 3 0, idTrace 1 3 2 1], ∀ v ∈ ids .sequenceId A, v ≠ 0 := by
    intro A hA
    rcases List.mem_pair.mp hA with rfl | rfl
    · exact ids_idTrace_ne (by decide) 2 3 0
    · exact ids_idTrace_ne (by decide) 3 2 1
  obtain ⟨segs, hs, -, hpw⟩ := h2 _ [⟨_, 0, fun _ => 9⟩, ⟨_, 3, fun _ => 9⟩] (idTrace 1 2 3 0)
    [idTrace 7 2 3 0, idTrace 1 3 2 1] (hread _) (.cons (hread _) (.cons (hread _) .nil)) hseq (by decide +kernel)
  exact ⟨⟨A', hp, fun k h => (hk k h).1⟩, segs, hs, hpw⟩

end Merge
end VPerfetto
