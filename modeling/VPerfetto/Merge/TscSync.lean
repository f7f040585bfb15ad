/-
# The clock offset by the cycle counter

`deriveGuestTimeDiff` of `vperfetto-sdk.cpp` on two traces with readings of
the cycle counter. Its sums are modulo 2^64 and its quotients are of doubles;
`deriveGuestTimeDiffWith` is the same over any arithmetic
(`deriveGuestTimeDiff_floatArith`). Over the rationals it finds the offset between the
clocks of guest and host up to the last cast, which drops what is less than a
nanosecond (`clockOffset_recovered`).

The counters must be less than 2^63 cycles apart, which `getSignedDifference`
assumes: at 2^63 cycles it returns one less (`clockOffset_lost`).

Key definitions: `Arith`, `deriveGuestTimeDiffWith`, `truncate`, `exactArith`,
`SyncedTrace`, `FitsInt64`.
Key theorems: `deriveGuestTimeDiff_floatArith`, `SyncedTrace.rate`, `clockOffset_recovered`.
-/
import Mathlib.Algebra.Order.Field.Rat
import Mathlib.Data.Rat.Floor
import Mathlib.Tactic.FieldSimp
import Mathlib.Tactic.Linarith
import VPerfetto.Merge.CpuSync

namespace VPerfetto
namespace Merge

open Host (getSignedDifference getSignedDifference_toUInt64 Within63)

variable {ρ : Type}

/-- The numbers that the rate and the offset are computed in. -/
structure Arith (α : Type) where
  ofUInt64 : UInt64 → α
  ofInt64 : Int64 → α
  div : α → α → α
  toInt64 : α → Int64

/-- `double`. -/
def floatArith : Arith Float := ⟨UInt64.toFloat, Int64.toFloat, (· / ·), Float.toInt64⟩

/-- `deriveGuestTimeDiff` with the rate of the counter in any arithmetic. -/
def deriveGuestTimeDiffWith {α : Type} (A : Arith α) (P : Protobuf ρ) (guestTrace hostTrace : Bytes)
    (tscOffset : Int64) : Int64 :=
  let byStartTimes := getSignedDifference (getTraceStartTime P guestTrace) (getTraceStartTime P hostTrace)
  match cpuSamples P hostTrace, cpuSamples P guestTrace with
  | some (hostFirst, hostLast), some (_, guestLast) =>
    if hostLast.clockId = guestLast.clockId then
      let cyclesPerNano :=
        A.div (A.ofUInt64 (hostLast.cpuTime - hostFirst.cpuTime)) (A.ofUInt64 (hostLast.clockTime - hostFirst.clockTime))
      let guestCpuTime := guestLast.cpuTime - tscOffset.toUInt64
      let cyclesDelta := A.ofInt64 (getSignedDifference hostLast.cpuTime guestCpuTime)
      let offsetNs := A.toInt64 (A.div cyclesDelta cyclesPerNano)
      (guestLast.clockTime + offsetNs.toUInt64 - hostLast.clockTime).toInt64
    else byStartTimes
  | _, _ => byStartTimes

theorem deriveGuestTimeDiff_floatArith (P : Protobuf ρ) (guestTrace hostTrace : Bytes) (tscOffset : Int64) :
    deriveGuestTimeDiff P guestTrace hostTrace tscOffset =
      deriveGuestTimeDiffWith floatArith P guestTrace hostTrace tscOffset := by
  unfold deriveGuestTimeDiff deriveGuestTimeDiffWith
  simp only [getTraceCpuTimeSync_eq]
  cases cpuSamples P hostTrace with
  | none => rfl
  | some h =>
    cases cpuSamples P guestTrace with
    | none => rfl
    | some g => rfl

/-! ### Exact arithmetic -/

/-- The cast to an integer, towards zero. -/
def truncate (q : ℚ) : ℤ := if 0 ≤ q then ⌊q⌋ else ⌈q⌉

theorem abs_truncate_sub_lt (q : ℚ) : |(truncate q : ℚ) - q| < 1 := by
  unfold truncate
  rw [abs_lt]
  split
  · have hle := Int.floor_le q
    have hlt := Int.lt_floor_add_one q
    constructor <;> linarith
  · have hle := Int.le_ceil q
    have hlt := Int.ceil_lt_add_one q
    constructor <;> linarith

theorem truncate_intCast (n : ℤ) : truncate (n : ℚ) = n := by
  unfold truncate
  split
  · exact Int.floor_intCast n
  · exact Int.ceil_intCast n

/-- The rationals. -/
def exactArith : Arith ℚ := ⟨fun n => n.toNat, fun n => n.toInt, (· / ·), fun q => Int64.ofInt (truncate q)⟩

/-- In the range of `int64_t`. -/
def FitsInt64 (q : ℚ) : Prop := -2 ^ 63 ≤ q ∧ q ≤ 2 ^ 63 - 1

instance (q : ℚ) : Decidable (FitsInt64 q) := inferInstanceAs (Decidable (_ ∧ _))

/-- An integer next to a number in the range is in the range. -/
theorem int_fits {z : ℤ} {q : ℚ} (hq : FitsInt64 q) (hz : |(z : ℚ) - q| < 1) : -2 ^ 63 ≤ z ∧ z < 2 ^ 63 := by
  obtain ⟨hlo, hhi⟩ := hq
  obtain ⟨hzlo, hzhi⟩ := abs_lt.mp hz
  have hlt : ((-2 ^ 63 - 1 : ℤ) : ℚ) < (z : ℚ) := by
    push_cast
    linarith
  have hlt' : (z : ℚ) < ((2 ^ 63 : ℤ) : ℚ) := by
    push_cast
    linarith
  have hz1 := Int.cast_lt.mp hlt
  have hz2 := Int.cast_lt.mp hlt'
  omega

/-- The offset as the code computes it, of which nothing is lost to the range. -/
theorem toInt_ofInt_truncate {q : ℚ} (h : FitsInt64 q) : (Int64.ofInt (truncate q)).toInt = truncate q := by
  obtain ⟨hlo, hhi⟩ := int_fits h (abs_truncate_sub_lt q)
  exact Int64.toInt_ofInt_of_le hlo hhi

theorem toInt_toInt64 (n : UInt64) : n.toInt64.toInt = (n.toNat : ℤ).bmod (2 ^ 64) :=
  BitVec.toInt_eq_toNat_bmod n.toBitVec

/-- The last sum, of unsigned and signed numbers. -/
theorem toInt_sum (a b : UInt64) (c : Int64) {z : ℤ} (hz : z = a.toNat + c.toInt - b.toNat)
    (hlo : -2 ^ 63 ≤ z) (hhi : z < 2 ^ 63) : (a + c.toUInt64 - b).toInt64.toInt = z := by
  have hsum : (a + c.toUInt64 - b).toInt64.toInt = (a.toNat + c.toInt - b.toNat : ℤ).bmod (2 ^ 64) := by
    rw [UInt64.toInt64_sub, UInt64.toInt64_add, Int64.toInt64_toUInt64 c, Int64.toInt_sub, Int64.toInt_add,
      toInt_toInt64 a, toInt_toInt64 b, Int.bmod_sub_bmod, Int.sub_bmod_bmod, add_sub_assoc, Int.bmod_add_bmod,
      ← add_sub_assoc]
  rw [hsum, ← hz]
  exact Int.bmod_eq_of_le (by omega) (by omega)

theorem getSignedDifference_toInt {a b : UInt64} (h : Within63 a b) :
    (getSignedDifference a b).toInt = a.toNat - b.toNat := by
  obtain ⟨hab, hba⟩ := id h
  have hdiff : getSignedDifference a b = (a + (0 : Int64).toUInt64 - b).toInt64 := by
    rw [← Int64.toInt64_toUInt64 (getSignedDifference a b), getSignedDifference_toUInt64 h]
    simp
  rw [hdiff]
  exact toInt_sum a b 0 (by simp) (by omega) (by omega)

/-- The guest's counter as the host sees it. -/
theorem toNat_sub_toUInt64 {n : UInt64} {offset : Int64} {c : ℕ} (hc : c < 2 ^ 64)
    (hn : (n.toNat : ℤ) = c + offset.toInt) : (n - offset.toUInt64).toNat = c := by
  have hoffset : offset.toInt = (offset.toUInt64.toNat : ℤ).bmod (2 ^ 64) := toInt_toInt64 offset.toUInt64
  have hlt := n.toNat_lt
  have hlt' := offset.toUInt64.toNat_lt
  rw [hoffset, Int.bmod_def] at hn
  rw [UInt64.toNat_sub]
  split at hn
  · omega
  · omega

/-! ### Two traces of one machine -/

/-- Every reading of the trace is of a counter that is `tscOffset` ahead of `c`
and of the clock `clock`, which shows `t0 + c / f`. -/
structure SyncedTrace (t : Trace ρ) (clock : UInt32) (f t0 : ℚ) (tscOffset : ℤ) : Prop where
  cpuClock : ∀ p ∈ t, p.HasCpuClock
  sameClock : ∀ s ∈ samples t, s.clockId = clock
  reading : ∀ s ∈ samples t, ∃ c : ℕ, c < 2 ^ 64 ∧ (s.cpuTime.toNat : ℤ) = c + tscOffset ∧
    (s.clockTime.toNat : ℚ) = t0 + c / f
  running : ∀ s ∈ samples t, s.cpuTime ≠ 0
  increasing : (samples t).Pairwise fun a b => a.cpuTime < b.cpuTime
  two : 2 ≤ (samples t).length

/-- The host's cycles at the last reading of a trace. -/
def lastCycles (t : Trace ρ) (tscOffset : ℤ) : ℤ := (lastSample t).elim 0 (fun s => s.cpuTime.toNat) - tscOffset

/-- From the guest's last reading to the host's. -/
def cyclesApart (guest host : Trace ρ) (tscOffset : Int64) : ℤ := lastCycles host 0 - lastCycles guest tscOffset.toInt

section

variable {P : Protobuf ρ} {trace guestTrace hostTrace : Bytes} {t guest host : Trace ρ} {clock : UInt32}
  {f t0 g0 h0 : ℚ} {tscOffset : ℤ}

/-- The rate is taken from the first and the last reading of all. -/
theorem SyncedTrace.ends (h : SyncedTrace t clock f t0 tscOffset) (hparse : P.parseFromString trace = some t) :
    ∃ first last, cpuSamples P trace = some (first, last) ∧ first ∈ samples t ∧ last ∈ samples t ∧
      lastSample t = some last ∧ first.cpuTime < last.cpuTime := by
  have htwo := h.two
  have hinc := h.increasing
  cases hs : samples t with
  | nil => simp [hs] at htwo
  | cons first rest =>
    rw [hs] at htwo hinc
    have hrest : rest ≠ [] := by
      intro hnil
      simp [hnil] at htwo
    obtain ⟨last, hlast⟩ : ∃ last, rest.getLast? = some last := ⟨rest.getLast hrest, List.getLast?_eq_some_getLast hrest⟩
    have hmem : last ∈ rest := List.mem_of_getLast? hlast
    have hlt : first.cpuTime < last.cpuTime := (List.pairwise_cons.mp hinc).1 last hmem
    have hne : first.cpuTime ≠ 0 := h.running first (by rw [hs]; exact List.mem_cons_self)
    have hfirst : firstSample t = some first := by
      unfold firstSample
      rw [hs, List.find?_cons_of_pos (by simpa using hne)]
    have hlast' : lastSample t = some last := by
      unfold lastSample
      rw [hs, List.getLast?_cons, hlast]
      rfl
    exact ⟨first, last, cpuSamples_of first last hparse h.cpuClock hfirst hlast' hlt, List.mem_cons_self,
      List.mem_cons_of_mem first hmem, hlast', hlt⟩

/-- **The rate is the counter's frequency.** -/
theorem SyncedTrace.rate (h : SyncedTrace t clock f t0 tscOffset) (hf : 0 < f) {first last : TraceCpuTimeSync}
    (hfirst : first ∈ samples t) (hlast : last ∈ samples t) (hlt : first.cpuTime < last.cpuTime) :
    ((last.cpuTime - first.cpuTime).toNat : ℚ) / ((last.clockTime - first.clockTime).toNat : ℚ) = f := by
  obtain ⟨c, -, hcpu, hclock⟩ := h.reading first hfirst
  obtain ⟨c', -, hcpu', hclock'⟩ := h.reading last hlast
  have hlt' : first.cpuTime.toNat < last.cpuTime.toNat := hlt
  have hcc : c < c' := by omega
  have hccq : (c : ℚ) < c' := by exact_mod_cast hcc
  have hcycles : (last.cpuTime - first.cpuTime).toNat = c' - c := by
    rw [UInt64.toNat_sub_of_le _ _ (UInt64.le_of_lt hlt)]
    omega
  have hquot : (c : ℚ) / f < c' / f := div_lt_div_of_pos_right hccq hf
  have hclocks : first.clockTime.toNat ≤ last.clockTime.toNat := by
    have hle : (first.clockTime.toNat : ℚ) ≤ last.clockTime.toNat := by
      rw [hclock, hclock']
      linarith
    exact_mod_cast hle
  have hnanos : ((last.clockTime - first.clockTime).toNat : ℚ) = (c' - c) / f := by
    rw [UInt64.toNat_sub_of_le _ _ hclocks, Nat.cast_sub hclocks, hclock, hclock']
    ring
  have hpos : (c' : ℚ) - c ≠ 0 := by
    apply ne_of_gt
    linarith
  calc ((last.cpuTime - first.cpuTime).toNat : ℚ) / ((last.clockTime - first.clockTime).toNat : ℚ)
      = ((c' : ℚ) - c) / ((c' - c) / f) := by rw [hcycles, Nat.cast_sub hcc.le, hnanos]
    _ = f := by field_simp

/-- The last reading of a trace, in the host's cycles. -/
theorem SyncedTrace.last_reading (h : SyncedTrace t clock f t0 tscOffset) {last : TraceCpuTimeSync}
    (hlast : lastSample t = some last) (hmem : last ∈ samples t) :
    ∃ c : ℕ, c < 2 ^ 64 ∧ (last.cpuTime.toNat : ℤ) = c + tscOffset ∧ lastCycles t tscOffset = c ∧
      (last.clockTime.toNat : ℚ) = t0 + c / f := by
  obtain ⟨c, hc, hcpu, hclock⟩ := h.reading last hmem
  have hcycles : lastCycles t tscOffset = c := by
    simp only [lastCycles, hlast, Option.elim_some]
    omega
  exact ⟨c, hc, hcpu, hcycles, hclock⟩

end

/-- **The offset between the clocks is found up to less than a nanosecond.** -/
theorem clockOffset_recovered (P : Protobuf ρ) {guestTrace hostTrace : Bytes} {guest host : Trace ρ}
    (hguestParse : P.parseFromString guestTrace = some guest) (hhostParse : P.parseFromString hostTrace = some host)
    {clock : UInt32} {f g0 h0 : ℚ} {tscOffset : Int64} (hf : 0 < f)
    (hguest : SyncedTrace guest clock f g0 tscOffset.toInt) (hhost : SyncedTrace host clock f h0 0)
    (hcycles : FitsInt64 (cyclesApart guest host tscOffset)) (hmin : cyclesApart guest host tscOffset ≠ -2 ^ 63)
    (hnanos : FitsInt64 (cyclesApart guest host tscOffset / f)) (hoffset : FitsInt64 (g0 - h0)) :
    |((deriveGuestTimeDiffWith exactArith P guestTrace hostTrace tscOffset).toInt : ℚ) - (g0 - h0)| < 1 ∧
      ((∃ n : ℤ, (cyclesApart guest host tscOffset : ℚ) / f = n) →
        ((deriveGuestTimeDiffWith exactArith P guestTrace hostTrace tscOffset).toInt : ℚ) = g0 - h0) := by
  obtain ⟨hostFirst, hostLast, hhs, hhf, hhl, hhlast, hlt⟩ := hhost.ends hhostParse
  obtain ⟨guestFirst, guestLast, hgs, -, hgl, hglast, -⟩ := hguest.ends hguestParse
  obtain ⟨ch, hch, hcpuh, hcych, hclockh⟩ := hhost.last_reading hhlast hhl
  obtain ⟨cg, hcg, hcpug, hcycg, hclockg⟩ := hguest.last_reading hglast hgl
  have hid : hostLast.clockId = guestLast.clockId :=
    (hhost.sameClock hostLast hhl).trans (hguest.sameClock guestLast hgl).symm
  generalize hΔ : cyclesApart guest host tscOffset = Δ at *
  have hΔ' : Δ = (ch : ℤ) - cg := by rw [← hΔ, cyclesApart, hcych, hcycg]
  have hguestCpu : (guestLast.cpuTime - tscOffset.toUInt64).toNat = cg := toNat_sub_toUInt64 hcg hcpug
  -- the cycles are not clamped
  have hdelta : (getSignedDifference hostLast.cpuTime (guestLast.cpuTime - tscOffset.toUInt64)).toInt = Δ := by
    have hlo : -2 ^ 63 ≤ Δ := by exact_mod_cast hcycles.1
    have hhi : Δ ≤ 2 ^ 63 - 1 := by exact_mod_cast hcycles.2
    have hwithin : Within63 hostLast.cpuTime (guestLast.cpuTime - tscOffset.toUInt64) := by
      unfold Within63
      rw [hguestCpu]
      constructor <;> omega
    rw [getSignedDifference_toInt hwithin, hguestCpu]
    omega
  have hrate := hhost.rate hf hhf hhl hlt
  have hclose := abs_truncate_sub_lt (Δ / f)
  -- the offset between the clocks, with the quotient truncated
  have hexact : (guestLast.clockTime.toNat + (truncate (Δ / f) : ℤ) - hostLast.clockTime.toNat : ℚ) =
      g0 - h0 + (truncate (Δ / f) - Δ / f) := by
    rw [hclockg, hclockh, hΔ']
    push_cast
    ring
  have hresult : ((deriveGuestTimeDiffWith exactArith P guestTrace hostTrace tscOffset).toInt : ℤ) =
      guestLast.clockTime.toNat + truncate (Δ / f) - hostLast.clockTime.toNat := by
    have hnear : |((guestLast.clockTime.toNat + truncate (Δ / f) - hostLast.clockTime.toNat : ℤ) : ℚ) -
        (g0 - h0)| < 1 := by
      push_cast
      rw [hexact, add_sub_cancel_left]
      exact hclose
    obtain ⟨hlo, hhi⟩ := int_fits hoffset hnear
    unfold deriveGuestTimeDiffWith
    simp only [hhs, hgs, if_pos hid, exactArith, hrate, hdelta]
    exact toInt_sum _ _ _ (by rw [toInt_ofInt_truncate hnanos]) hlo hhi
  have hresult' : ((deriveGuestTimeDiffWith exactArith P guestTrace hostTrace tscOffset).toInt : ℚ) =
      g0 - h0 + (truncate (Δ / f) - Δ / f) := by
    calc ((deriveGuestTimeDiffWith exactArith P guestTrace hostTrace tscOffset).toInt : ℚ)
        = ((guestLast.clockTime.toNat + truncate (Δ / f) - hostLast.clockTime.toNat : ℤ) : ℚ) := by rw [hresult]
      _ = guestLast.clockTime.toNat + (truncate (Δ / f) : ℤ) - hostLast.clockTime.toNat := by push_cast; rfl
      _ = g0 - h0 + (truncate (Δ / f) - Δ / f) := hexact
  constructor
  · rw [hresult', add_sub_cancel_left]
    exact hclose
  · intro h
    obtain ⟨n, hn⟩ := h
    rw [hresult', hn, truncate_intCast, sub_self, add_zero]

/-- Two readings of one clock. -/
theorem syncedTrace_two {clock : UInt32} {f t0 : ℚ} {tscOffset : ℤ} {cpu cpu' time time' : UInt64} (c c' : ℕ)
    (hcpu : cpu ≠ 0) (hlt : cpu < cpu') (hc : c < 2 ^ 64) (hc' : c' < 2 ^ 64)
    (hread : (cpu.toNat : ℤ) = c + tscOffset ∧ (time.toNat : ℚ) = t0 + c / f)
    (hread' : (cpu'.toNat : ℤ) = c' + tscOffset ∧ (time'.toNat : ℚ) = t0 + c' / f) :
    SyncedTrace [snapshotPacket cpu clock time, snapshotPacket cpu' clock time'] clock f t0 tscOffset := by
  have hsamples : samples [snapshotPacket cpu clock time, snapshotPacket cpu' clock time'] =
      [⟨cpu, 0, time, clock⟩, ⟨cpu', 0, time', clock⟩] := rfl
  have hcpu' : cpu' ≠ 0 := by
    intro hz
    rw [hz] at hlt
    exact UInt64.not_lt_zero hlt
  constructor
  · simp [snapshotPacket_cpuClock]
  · simp [hsamples]
  · rw [hsamples]
    intro s hs
    rcases List.mem_pair.mp hs with rfl | rfl
    · exact ⟨c, hc, hread⟩
    · exact ⟨c', hc', hread'⟩
  · simp [hsamples, hcpu, hcpu']
  · simp [hsamples, hlt]
  · simp [hsamples]

/-- A guest whose counter is 1000 ahead and whose clock is 50 ns behind. -/
theorem clockOffset_fifty :
    ((deriveGuestTimeDiffWith exactArith wire
      (wire.serializeToString [snapshotPacket 1030 6 65, snapshotPacket 1040 6 70])
      (wire.serializeToString [snapshotPacket 10 6 105, snapshotPacket 20 6 110]) 1000).toInt : ℚ) = 50 - 100 := by
  have hguest : SyncedTrace [snapshotPacket 1030 6 65, snapshotPacket 1040 6 70] 6 2 50 (1000 : Int64).toInt :=
    syncedTrace_two 30 40 (by decide) (by decide) (by decide) (by decide)
      ⟨by decide, by simp only [UInt64.reduceToNat]; norm_num⟩ ⟨by decide, by simp only [UInt64.reduceToNat]; norm_num⟩
  have hhost : SyncedTrace [snapshotPacket 10 6 105, snapshotPacket 20 6 110] 6 2 100 0 :=
    syncedTrace_two 10 20 (by decide) (by decide) (by decide) (by decide)
      ⟨by decide, by simp only [UInt64.reduceToNat]; norm_num⟩ ⟨by decide, by simp only [UInt64.reduceToNat]; norm_num⟩
  have hcycles : cyclesApart [snapshotPacket 1030 6 65, snapshotPacket 1040 6 70]
      [snapshotPacket 10 6 105, snapshotPacket 20 6 110] 1000 = -20 := by decide
  have hrecovered := clockOffset_recovered wire (wire_lawful.parse_serialize _) (wire_lawful.parse_serialize _)
    (by norm_num) hguest hhost (by rw [hcycles]; norm_num [FitsInt64]) (by rw [hcycles]; norm_num)
    (by rw [hcycles]; norm_num [FitsInt64]) (by norm_num [FitsInt64])
  exact hrecovered.2 ⟨-10, by rw [hcycles]; norm_num⟩

def farGuest : Trace Unit :=
  [snapshotPacket 0x8000000000000001 6 0x8000000000000001, snapshotPacket 0x8000000000000002 6 0x8000000000000002]

def nearHost : Trace Unit := [snapshotPacket 1 6 1, snapshotPacket 2 6 2]

/-- The counters are 2^63 cycles apart at the last readings: the offset is 0,
what is found is 1. -/
theorem clockOffset_lost : ∃ (guestTrace hostTrace : Bytes) (guest host : Trace Unit) (clock : UInt32) (f g0 h0 : ℚ)
    (tscOffset : Int64), wire.parseFromString guestTrace = some guest ∧ wire.parseFromString hostTrace = some host ∧
      0 < f ∧ SyncedTrace guest clock f g0 tscOffset.toInt ∧ SyncedTrace host clock f h0 0 ∧
      FitsInt64 (cyclesApart guest host tscOffset) ∧ FitsInt64 (cyclesApart guest host tscOffset / f) ∧
      FitsInt64 (g0 - h0) ∧
      ¬ |((deriveGuestTimeDiffWith exactArith wire guestTrace hostTrace tscOffset).toInt : ℚ) - (g0 - h0)| < 1 := by
  have hguest : SyncedTrace farGuest 6 1 0 (0 : Int64).toInt :=
    syncedTrace_two 0x8000000000000001 0x8000000000000002 (by decide) (by decide) (by decide) (by decide)
      ⟨by decide, by simp only [UInt64.reduceToNat]; norm_num⟩ ⟨by decide, by simp only [UInt64.reduceToNat]; norm_num⟩
  have hhost : SyncedTrace nearHost 6 1 0 0 :=
    syncedTrace_two 1 2 (by decide) (by decide) (by decide) (by decide)
      ⟨by decide, by simp only [UInt64.reduceToNat]; norm_num⟩ ⟨by decide, by simp only [UInt64.reduceToNat]; norm_num⟩
  have hcycles : cyclesApart farGuest nearHost 0 = -2 ^ 63 := by decide
  have hguestParse := wire_lawful.parse_serialize farGuest
  have hhostParse := wire_lawful.parse_serialize nearHost
  have hgs := cpuSamples_of ⟨0x8000000000000001, 0, 0x8000000000000001, 6⟩ ⟨0x8000000000000002, 0, 0x8000000000000002, 6⟩
    hguestParse hguest.cpuClock rfl rfl (by decide)
  have hhs := cpuSamples_of ⟨1, 0, 1, 6⟩ ⟨2, 0, 2, 6⟩ hhostParse hhost.cpuClock rfl rfl (by decide)
  have hdelta : (getSignedDifference 2 (0x8000000000000002 - (0 : Int64).toUInt64)).toInt = 1 - 2 ^ 63 := by decide
  have hquot : ((((1 - 2 ^ 63 : ℤ) : ℚ)) / (((2 - 1 : UInt64).toNat : ℚ) / ((2 - 1 : UInt64).toNat : ℚ))) =
      ((1 - 2 ^ 63 : ℤ) : ℚ) := by
    simp only [show (2 - 1 : UInt64).toNat = 1 from rfl]
    norm_num
  have hfound : deriveGuestTimeDiffWith exactArith wire (wire.serializeToString farGuest)
      (wire.serializeToString nearHost) 0 = 1 := by
    unfold deriveGuestTimeDiffWith
    simp only [hhs, hgs, exactArith, hdelta, hquot, truncate_intCast]
    decide
  refine ⟨_, _, farGuest, nearHost, 6, 1, 0, 0, 0, hguestParse, hhostParse, by norm_num, hguest, hhost, ?_, ?_, ?_, ?_⟩
  · rw [hcycles]
    norm_num [FitsInt64]
  · rw [hcycles]
    norm_num [FitsInt64]
  · norm_num [FitsInt64]
  · rw [hfound]
    norm_num [show (1 : Int64).toInt = 1 from rfl]

end Merge
end VPerfetto
