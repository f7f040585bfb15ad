/-
# Aligning two traces at their first timestamps

Without clock snapshots to go by, `combineTraces` takes the first timestamps of
the two traces for one instant, or, if it is given the guest's boot time at the
start of the host trace, that boot time and the host's first timestamp. The
merge then moves the one exactly onto the other, in either direction: the
difference is not clamped and the shift is modulo 2^64.

Key definitions: `firstTimestamp`, `NoCpuSync`, `StartAligned`.
Key theorems: `firstTimestamp_rewriteAddon`, `start_aligned`.
-/
import VPerfetto.Merge.Timeline

namespace VPerfetto
namespace Merge

open Host (getSignedDifference getSignedDifference_toUInt64 Within63)

variable {ρ : Type}

/-- The timestamp of the first packet that has one. -/
def firstTimestamp (t : Trace ρ) : Option UInt64 := t.findSome? TracePacket.timestamp

/-- One of the traces has no cycle counter to go by, or they have different clocks. -/
def NoCpuSync (P : Protobuf ρ) (guestTrace hostTrace : Bytes) : Prop :=
  ∀ hostSync guestSync, getTraceCpuTimeSync P hostTrace = some hostSync →
    getTraceCpuTimeSync P guestTrace = some guestSync → hostSync.clockId ≠ guestSync.clockId

theorem getTraceStartTime_eq (P : Protobuf ρ) {trace : Bytes} {pbtrace : Trace ρ} {ts : UInt64}
    (hparse : P.parseFromString trace = some pbtrace) (hfirst : firstTimestamp pbtrace = some ts) :
    getTraceStartTime P trace = ts := by
  unfold firstTimestamp at hfirst
  simp only [getTraceStartTime, hparse, hfirst, Option.getD_some]

/-- The first timestamp stays the first: packets lose payloads but not their times. -/
theorem firstTimestamp_rewriteAddon (gen : ℕ → UInt64) (maxMain : MaxIds) (diff : Int64) (addon : Trace ρ) :
    firstTimestamp (rewriteAddon gen maxMain diff addon) =
      (firstTimestamp addon).map (· + diff.toUInt64) := by
  have hshift : (fun ts : UInt64 => ts + diff.toUInt64) = shiftTime diff := funext (add_toUInt64 diff)
  rw [rewriteAddon_packets, firstTimestamp, firstTimestamp, List.findSome?_map, List.map_findSome?, hshift]
  rfl

/-- Without the CPU's counters the difference is that of the first timestamps. -/
theorem deriveGuestTimeDiff_eq {P : Protobuf ρ} {guestTrace hostTrace : Bytes} (tscOffset : Int64)
    (h : NoCpuSync P guestTrace hostTrace) :
    deriveGuestTimeDiff P guestTrace hostTrace tscOffset =
      getSignedDifference (getTraceStartTime P guestTrace) (getTraceStartTime P hostTrace) := by
  unfold deriveGuestTimeDiff
  cases hh : getTraceCpuTimeSync P hostTrace with
  | none => rfl
  | some hostSync =>
    cases hg : getTraceCpuTimeSync P guestTrace with
    | none => rfl
    | some guestSync => simp only [if_neg (h hostSync guestSync hh hg)]

/-- What was added to the main trace begins where it should: the instants taken
for one have one time. -/
structure StartAligned (P : Protobuf ρ) (config : TraceCombineConfig) (guestTrace hostTrace : Bytes)
    (guest added : Trace ρ) (g h : UInt64) : Prop where
  byStartTimes : config.useGuestAbsoluteTime = false → config.useGuestTimeDiff = false → Within63 g h →
    NoCpuSync P guestTrace hostTrace →
    firstTimestamp added = some (if config.mergeGuestIntoHost then h else g)
  hostByBootTime : config.useGuestAbsoluteTime = true → Within63 config.guestClockBootTimeNs h →
    config.mergeGuestIntoHost = false → firstTimestamp added = some config.guestClockBootTimeNs
  guestByBootTime : config.useGuestAbsoluteTime = true → Within63 config.guestClockBootTimeNs h →
    config.mergeGuestIntoHost = true → SamePlaces guest added ∧
      ∀ x ∈ (times guest).zip (times added), x.1 = config.guestClockBootTimeNs → x.2 = h

theorem add_sub_swap (x y : UInt64) : y + (x - y) = x := by
  grind

theorem add_neg_sub (x y : UInt64) : x + -(x - y) = y := by
  grind

/-- **Aligned at the start**, in either direction. -/
theorem start_aligned {P : Protobuf ρ} (hP : P.Lawful) (gen : ℕ → UInt64) (files : String → Option Bytes)
    (config : TraceCombineConfig) {guestTrace hostTrace : Bytes} {guest host : Trace ρ} {g h : UInt64}
    (hg : files config.guestFile = some guestTrace) (hh : files config.hostFile = some hostTrace)
    (hG : P.parseFromString guestTrace = some guest) (hH : P.parseFromString hostTrace = some host)
    (hfirstG : firstTimestamp guest = some g) (hfirstH : firstTimestamp host = some h) :
    ∃ file added, combineTraces P gen files config = some (config.combinedFile, file) ∧
      P.parseFromString file = some ((if config.mergeGuestIntoHost then host else guest) ++ added) ∧
      StartAligned P config guestTrace hostTrace guest added g h := by
  have hstartG := getTraceStartTime_eq P hG hfirstG
  have hstartH := getTraceStartTime_eq P hH hfirstH
  set diff := guestTimeDiff P guestTrace hostTrace config with hdiff
  -- the two ways to the difference
  have hbyStart : config.useGuestAbsoluteTime = false → config.useGuestTimeDiff = false → Within63 g h →
      NoCpuSync P guestTrace hostTrace → diff.toUInt64 = g - h := by
    intro habs huse hclose hsync
    rw [hdiff, guestTimeDiff, habs, huse]
    simp only [Bool.false_eq_true, if_false]
    rw [deriveGuestTimeDiff_eq _ hsync, hstartG, hstartH, getSignedDifference_toUInt64 hclose]
  have hbyBoot : config.useGuestAbsoluteTime = true → Within63 config.guestClockBootTimeNs h →
      diff.toUInt64 = config.guestClockBootTimeNs - h := by
    intro habs hclose
    rw [hdiff, guestTimeDiff, habs]
    simp only [if_true]
    rw [deriveGuestTimeDiffWithGuestAbsoluteTime, hstartH, getSignedDifference_toUInt64 hclose]
  have hcombine := combineTraces_eq P gen config hg hh
  rw [← hdiff] at hcombine
  cases hm : config.mergeGuestIntoHost with
  | false =>
    simp only [hm, Bool.false_eq_true, if_false] at hcombine ⊢
    have hfirst := firstTimestamp_rewriteAddon gen (sCalcMaxIds P gen guestTrace) diff host
    rw [hfirstH, Option.map_some] at hfirst
    refine ⟨_, rewriteAddon gen (sCalcMaxIds P gen guestTrace) diff host, hcombine, ?_, ?_, ?_, ?_⟩
    · rw [constructCombinedTrace_eq P gen guestTrace diff hH]
      exact hP.parse_append _ _ _ _ hG (hP.parse_serialize _)
    · intro habs huse hclose hsync
      rw [hfirst, hbyStart habs huse hclose hsync, add_sub_swap, hm]
      rfl
    · intro habs hclose _
      rw [hfirst, hbyBoot habs hclose, add_sub_swap]
    · intro _ _ htrue
      rw [hm] at htrue
      exact absurd htrue Bool.false_ne_true
  | true =>
    simp only [hm, if_true] at hcombine ⊢
    have hfirst := firstTimestamp_rewriteAddon gen (sCalcMaxIds P gen hostTrace) (-diff) guest
    rw [hfirstG, Option.map_some, Int64.toUInt64_neg] at hfirst
    refine ⟨_, rewriteAddon gen (sCalcMaxIds P gen hostTrace) (-diff) guest, hcombine, ?_, ?_, ?_, ?_⟩
    · rw [constructCombinedTrace_eq P gen hostTrace (-diff) hG]
      exact hP.parse_append _ _ _ _ hH (hP.parse_serialize _)
    · intro habs huse hclose hsync
      rw [hfirst, hbyStart habs huse hclose hsync, add_neg_sub, hm]
      rfl
    · intro _ _ hfalse
      rw [hm] at hfalse
      exact absurd hfalse.symm Bool.false_ne_true
    · intro habs hclose _
      refine ⟨samePlaces_rewriteAddon _ _ _ _, fun x hx hb => ?_⟩
      rw [times_rewriteAddon] at hx
      obtain ⟨ts, -, rfl⟩ := mem_zip_map.mp hx
      obtain rfl : ts = config.guestClockBootTimeNs := hb
      rw [Int64.toUInt64_neg, hbyBoot habs hclose, add_neg_sub]

/-- A guest trace that starts at 5 and a host trace that starts at 9. -/
theorem start_aligned_five :
    ∃ file added, combineTraces wire (fun _ => 9) twoFiles { guestFile := "guest", hostFile := "host", combinedFile := "combined" } =
        some ("combined", file) ∧
      wire.parseFromString file = some ([⟨some 5, none, none, none, .notSet, ()⟩] ++ added) ∧
      firstTimestamp added = some 5 := by
  have hG : wire.parseFromString [10, 2, 64, 5] = some [⟨some 5, none, none, none, .notSet, ()⟩] := by
    decide +kernel
  have hH : wire.parseFromString [10, 2, 64, 9] = some [⟨some 9, none, none, none, .notSet, ()⟩] := by
    decide +kernel
  have hsync : NoCpuSync wire [10, 2, 64, 5] [10, 2, 64, 9] := by
    intro hostSync _ hsome _
    simp [getTraceCpuTimeSync, hH, syncStep] at hsome
  obtain ⟨file, added, hfile, hparse, haligned⟩ := start_aligned wire_lawful (fun _ => 9) twoFiles
    { guestFile := "guest", hostFile := "host", combinedFile := "combined" } rfl rfl hG hH rfl rfl
  exact ⟨file, added, hfile, hparse, haligned.byStartTimes rfl rfl (by decide) hsync⟩

end Merge
end VPerfetto
