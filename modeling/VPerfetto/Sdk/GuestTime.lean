/-
# The guest time of a host event, in both builds

`vperfetto.cpp` adds the time difference when an event is recorded,
`vperfetto-sdk.cpp` when the traces are merged. The one reads the boot clock in
`setGuestTime`, where its sibling reads the monotonic clock, which stands still
while the host is suspended; events have the boot time in both.

Both builds place an event as far after the guest time as it was recorded after
the call, if the clocks agreed during the call and nothing replaced the
difference before it was used (`same_guestTime_iff`). On a host that has been
suspended they do not (`suspended_host`).

Key definitions: `HostClocks`, `HostRecording`, `SdkMerge`, `CombinedAt`.
Key theorems: `HostRecording.loggedAt_iff`, `SdkMerge.combinedAt_iff`,
`same_guestTime_iff`.
-/
import Mathlib.Data.Nat.Basic
import VPerfetto.Host.GuestTime
import VPerfetto.Merge.Timeline
import VPerfetto.Sdk.TimeDiff

namespace VPerfetto
namespace Sdk

open Runs Wire Host

/-- `CLOCK_BOOTTIME` and `CLOCK_MONOTONIC` of a host. -/
structure HostClocks (ι : Type) [Preorder ι] where
  boot : ι → UInt64
  mono : ι → UInt64
  boot_le : ∀ i j, i ≤ j → boot i ≤ boot j
  mono_le : ∀ i j, i ≤ j → mono i ≤ mono j
  mono_le_boot : ∀ i, mono i ≤ boot i

/-! ### Recording in `vperfetto.cpp` -/

/-- From a `setGuestTime` call at `i₀` that is accepted to the recording of an
event at `i`, in the session it was made for. -/
structure HostRecording {ι : Type} [Preorder ι] (clocks : HostClocks ι) (strings : Ptr → Bytes)
    (t : UInt64) (i₀ i : ι) where
  before : Machine
  disabled : before.config.tracingDisabled = true
  set : Machine
  sets : before.step strings (.setGuestTime t (clocks.boot i₀)) = some set
  events : List Host.Event
  same : StepsMeet (Machine.step strings) SameSession set events
  ready : Machine
  runs : run (Machine.step strings) set events = some ready
  thread : Tid
  full : ℕ → Bool
  after : Machine
  records : ready.body strings thread (clocks.boot i) full = some after

/-! ### Merging in `vperfetto-sdk.cpp` -/

def RefusesGuestTime (w : SdkState) (a : SdkAction) : Prop :=
  match a.event with
  | .setGuestTime _ _ => w.config.tracingDisabled = false
  | _ => True

/-- From the last `setGuestTime` call that is accepted, at `j`, to the merge of
a host trace whose packet `n` has an event recorded at `i`. -/
structure SdkMerge {ι ρ : Type} [Preorder ι] (clocks : HostClocks ι) (P : Merge.Protobuf ρ)
    (t : UInt64) (j i : ι) (n : ℕ) where
  before : SdkState
  disabled : before.config.tracingDisabled = true
  set : SdkState
  sets : before.step P { event := .setGuestTime t (clocks.mono j) } = some set
  actions : List SdkAction
  last : StepsMeet (SdkState.step P) RefusesGuestTime set actions
  ready : SdkState
  runs : run (SdkState.step P) set actions = some ready
  saver : Saver
  index : ℕ
  waits : ready.savers[index]? = some saver
  stable : saver.phase = .stable
  guestTrace : Bytes
  gen : ℕ → UInt64
  after : SdkState
  merges : ready.step P { event := .saver index, guestFile := some guestTrace, gen := gen } = some after
  addon : Merge.Trace ρ
  parses : P.parseFromString ready.hostTrace = some addon
  recorded : (addon[n]?).bind Merge.TracePacket.timestamp = some (clocks.boot i)

/-- Packet `n` of what the merge added to the guest trace has this timestamp. -/
def CombinedAt {ρ : Type} (P : Merge.Protobuf ρ) (guestTrace combined : Bytes) (n : ℕ) (ts : UInt64) : Prop :=
  ∃ added : Merge.Trace ρ, combined = guestTrace ++ P.serializeToString added ∧
    (added[n]?).bind Merge.TracePacket.timestamp = some ts

section

variable {ι ρ : Type} [Preorder ι] {clocks : HostClocks ι} {strings : Ptr → Bytes} {P : Merge.Protobuf ρ}
  {t ts : UInt64} {i₀ i j : ι} {n : ℕ} {w w' : SdkState} {a : SdkAction}

/-- The event is `boot i` plus the difference, which is 0 after a stray `disableTracing`. -/
theorem HostRecording.loggedAt_iff (r : HostRecording clocks strings t i₀ i)
    (ht : Within63 t (clocks.boot i₀)) :
    LoggedAt r.ready r.after (t + (clocks.boot i - clocks.boot i₀)) ↔
      StepsMeet (Machine.step strings) KeepsGuestTime r.set r.events ∨ t = clocks.boot i₀ := by
  have hset : r.set.config.guestTimeDiff = getSignedDifference t (clocks.boot i₀) := by
    rw [← Option.some.inj r.sets]
    show (r.before.config.setGuestTime t (clocks.boot i₀)).guestTimeDiff = _
    rw [SdkState.setGuestTime_diff, if_pos r.disabled]
  rw [body_loggedAt r.records, VirtualDeviceTraceConfig.getTimestamp]
  rcases run_guestTimeDiff r.same r.runs with ⟨hkeep, hdiff⟩ | ⟨hkeep, hdiff⟩
  · refine iff_of_true ?_ (Or.inl hkeep)
    rw [hdiff, hset, getSignedDifference_toUInt64 ht]
    grind
  · rw [hdiff, or_iff_right hkeep]
    show t + (clocks.boot i - clocks.boot i₀) = clocks.boot i + 0 ↔ _
    constructor
    · intro h
      grind
    · rintro rfl
      grind

/-- Only an accepted `setGuestTime` changes the difference. -/
theorem refuses_guestTimeDiff (hok : RefusesGuestTime w a) (hs : w.step P a = some w') :
    w'.config.guestTimeDiff = w.config.guestTimeDiff := by
  rcases SdkState.step_cases hs with ⟨i, -, hsaver⟩ | ⟨ha, s, hstep, rfl⟩
  · obtain ⟨saver, -, hmove⟩ := State.saverStep_moves (SdkState.saverStep_toState hsaver)
    exact hmove.frame.2
  · show s.config.guestTimeDiff = _
    cases he : a.event with
    | setTraceConfig host guest combined =>
      rw [he] at hstep
      obtain rfl := Option.some.inj hstep
      rfl
    | setGuestTime t now =>
      rw [he] at hstep
      obtain rfl := Option.some.inj hstep
      have hd : w.config.tracingDisabled = false := by simpa only [RefusesGuestTime, he] using hok
      show (w.config.setGuestTime t now).guestTimeDiff = _
      rw [SdkState.setGuestTime_diff, hd]
      rfl
    | enableTracing env =>
      rw [he] at hstep
      obtain rfl := Option.some.inj hstep
      rcases State.enableTracing_cases env w.toState with ⟨-, -, -, heq⟩ | heq <;> rw [heq] <;> rfl
    | disableTracing trace sizes =>
      rw [he] at hstep
      obtain rfl := Option.some.inj hstep
      rcases State.disableTracing_cases trace sizes w.toState with
        ⟨-, heq⟩ | ⟨-, -, heq⟩ | ⟨-, -, -, heq⟩ | ⟨-, -, -, heq⟩ <;> rw [heq]
    | saver i => exact absurd he (ha i)

theorem merge_combinedTrace {k : ℕ} {gen : ℕ → UInt64} {guestTrace : Bytes} {saver : Saver}
    (hk : w.savers[k]? = some saver) (hstable : saver.phase = .stable)
    (hs : w.step P { event := .saver k, guestFile := some guestTrace, gen := gen } = some w') :
    w'.combinedTrace =
      Merge.constructCombinedTrace P gen guestTrace w.hostTrace w.config.guestTimeDiff := by
  have hs' : w.saverStep P k { event := .saver k, guestFile := some guestTrace, gen := gen } = some w' := hs
  simp only [SdkState.saverStep, hk, Option.bind_eq_bind, Option.bind_some, hstable,
    Option.bind_eq_some_iff] at hs'
  obtain ⟨s, -, hs'⟩ := hs'
  rw [← Option.some.inj hs']

/-- The event is `boot i` plus the difference in force at the merge. -/
theorem SdkMerge.combinedAt_iff (s : SdkMerge clocks P t j i n) (hP : P.Lawful)
    (ht : Within63 t (clocks.mono j)) :
    CombinedAt P s.guestTrace s.after.combinedTrace n ts ↔ ts = clocks.boot i + (t - clocks.mono j) := by
  have hdiff : s.ready.config.guestTimeDiff = getSignedDifference t (clocks.mono j) := by
    have hset : s.set.config.guestTimeDiff = getSignedDifference t (clocks.mono j) := by
      rw [← Option.some.inj s.sets]
      show (s.before.config.setGuestTime t (clocks.mono j)).guestTimeDiff = _
      rw [SdkState.setGuestTime_diff, if_pos s.disabled]
    refine run_inv (P := fun w => w.config.guestTimeDiff = getSignedDifference t (clocks.mono j))
      (fun w a w' hw hok hs => ?_) hset s.last s.runs
    exact (refuses_guestTimeDiff hok hs).trans hw
  have hcombined := merge_combinedTrace s.waits s.stable s.merges
  rw [Merge.constructCombinedTrace_eq P s.gen s.guestTrace _ s.parses, Merge.rewriteAddon_packets, hdiff]
    at hcombined
  set diff := getSignedDifference t (clocks.mono j) with hd
  set rewrite := Merge.rewritePacket (Merge.sCalcMaxIds P s.gen s.guestTrace) diff
    (Merge.renamedUuid s.gen (Merge.sCalcMaxIds P s.gen s.guestTrace) s.addon) with hrewrite
  -- the merge shifts the packet by the difference
  have htime : ((s.addon.map rewrite)[n]?).bind Merge.TracePacket.timestamp =
      some (clocks.boot i + (t - clocks.mono j)) := by
    obtain ⟨packet, hpacket, htimestamp⟩ := Option.bind_eq_some_iff.mp s.recorded
    rw [List.getElem?_map, hpacket]
    show (rewrite packet).timestamp = _
    rw [hrewrite, Merge.rewritePacket_timestamp, htimestamp, Option.map_some, ← Merge.add_toUInt64, hd,
      getSignedDifference_toUInt64 ht]
  constructor
  · intro h
    obtain ⟨added, heq, hts⟩ := h
    have hsame : P.serializeToString added = P.serializeToString (s.addon.map rewrite) :=
      List.append_cancel_left (heq.symm.trans hcombined)
    have hadded : added = s.addon.map rewrite := by
      apply Option.some.inj
      rw [← hP.parse_serialize added, hsame, hP.parse_serialize]
    rw [hadded, htime] at hts
    exact (Option.some.inj hts).symm
  · rintro rfl
    exact ⟨_, hcombined, htime⟩

/-- **The guest time of a host event.** Both builds place it at the guest time
plus the boot time passed since the call if and only if, in `vperfetto.cpp`, no
`disableTracing` took effect before the session (or there was nothing to add),
and in `vperfetto-sdk.cpp` the call accepted last before the merge put the
guest as far from its monotonic clock as `t` was from the boot clock. -/
theorem same_guestTime_iff (hP : P.Lawful) {t' : UInt64} (r : HostRecording clocks strings t i₀ i)
    (s : SdkMerge clocks P t' j i n) (ht : Within63 t (clocks.boot i₀)) (ht' : Within63 t' (clocks.mono j)) :
    (LoggedAt r.ready r.after (t + (clocks.boot i - clocks.boot i₀)) ∧
      CombinedAt P s.guestTrace s.after.combinedTrace n (t + (clocks.boot i - clocks.boot i₀))) ↔
    (StepsMeet (Machine.step strings) KeepsGuestTime r.set r.events ∨ t = clocks.boot i₀) ∧
      t' - clocks.mono j = t - clocks.boot i₀ := by
  rw [r.loggedAt_iff ht, s.combinedAt_iff hP ht']
  apply and_congr_right
  intro _
  constructor
  · intro h
    grind
  · intro h
    rw [h]
    grind

/-- Both clocks advance by 3 after the first instant. -/
def twoReadings (b m : UInt64) (hb : b ≤ b + 3) (hm : m ≤ m + 3) (hle : m ≤ b) (hle' : m + 3 ≤ b + 3) :
    HostClocks ℕ where
  boot i := if i = 0 then b else b + 3
  mono i := if i = 0 then m else m + 3
  boot_le i j h := by
    split
    · split
      · exact UInt64.le_refl b
      · exact hb
    · rw [if_neg (by omega)]
      exact UInt64.le_refl _
  mono_le i j h := by
    split
    · split
      · exact UInt64.le_refl m
      · exact hm
    · rw [if_neg (by omega)]
      exact UInt64.le_refl _
  mono_le_boot i := by
    split
    · exact hle
    · exact hle'

/-- A host that has never been suspended. -/
def steady : HostClocks ℕ := twoReadings 50 50 (by decide) (by decide) (by decide) (by decide)

/-- A host that was suspended for 30. -/
def suspended : HostClocks ℕ := twoReadings 50 20 (by decide) (by decide) (by decide) (by decide)

def toFirstEvent : List Host.Event := [.enableTracing {}, .enter 0 (.beginTrace 7)]

/-- From the call to the merge of a session with one packet, at 53. -/
def toMerge : List SdkAction :=
  [{ event := .enableTracing { guestFile := some "guest", combinedFile := some "combined" } },
    { event := .disableTracing [10, 2, 64, 53] fun _ => 5 }] ++ List.replicate 5 { event := .saver 0 }

theorem exists_recording (clocks : HostClocks ℕ) : ∃ r : HostRecording clocks (fun _ => [97]) 100 0 1,
    StepsMeet (Machine.step fun _ => [97]) KeepsGuestTime r.set r.events := by
  have hplain : ∀ e ∈ toFirstEvent, ∀ m, SameSession m e ∧ KeepsGuestTime m e := by
    intro e he m
    simp only [toFirstEvent, List.mem_cons, List.not_mem_nil, or_false] at he
    rcases he with rfl | rfl <;> exact ⟨trivial, trivial⟩
  refine ⟨{
    before := { config := { hostFilename := some "vmm.trace" } }
    disabled := rfl
    set := _
    sets := rfl
    events := toFirstEvent
    same := stepsMeet_of_forall fun e he m => (hplain e he m).1
    ready := _
    runs := rfl
    thread := 0
    full := fun _ => false
    after := _
    records := rfl }, stepsMeet_of_forall fun e he m => (hplain e he m).2⟩

theorem exists_merge (clocks : HostClocks ℕ) (h : clocks.boot 1 = 53) :
    Nonempty (SdkMerge clocks Merge.wire 100 0 1 0) := by
  have hlast : ∀ a ∈ toMerge, ∀ w, RefusesGuestTime w a := by
    intro a ha w
    simp only [toMerge, List.mem_append, List.mem_cons, List.mem_replicate, List.not_mem_nil, or_false] at ha
    rcases ha with (rfl | rfl) | ⟨-, rfl⟩ <;> trivial
  have hparses : Merge.wire.parseFromString [10, 2, 64, 53] =
      some [⟨some 53, none, none, none, .notSet, ()⟩] := by
    decide +kernel
  exact ⟨{
    before := { config := { hostFilename := some "vmm.trace" } }
    disabled := rfl
    set := _
    sets := rfl
    actions := toMerge
    last := stepsMeet_of_forall hlast
    ready := _
    runs := rfl
    saver := _
    index := 0
    waits := rfl
    stable := rfl
    guestTrace := []
    gen := fun _ => 0
    after := _
    merges := rfl
    addon := _
    parses := hparses
    recorded := by rw [h]; rfl }⟩

/-- With both clocks at 50 during the call. -/
theorem same_guestTime_steady :
    ∃ (r : HostRecording steady (fun _ => [97]) 100 0 1) (s : SdkMerge steady Merge.wire 100 0 1 0),
      LoggedAt r.ready r.after 103 ∧ CombinedAt Merge.wire s.guestTrace s.after.combinedTrace 0 103 := by
  obtain ⟨r, hr⟩ := exists_recording steady
  obtain ⟨s⟩ := exists_merge steady rfl
  exact ⟨r, s, (same_guestTime_iff Merge.wire_lawful r s (by decide) (by decide)).mpr ⟨Or.inl hr, rfl⟩⟩

/-- The clocks are 30 apart during the call: the event is at 103 in the one
build and at 133 in the other. -/
theorem suspended_host :
    ∃ (r : HostRecording suspended (fun _ => [97]) 100 0 1) (s : SdkMerge suspended Merge.wire 100 0 1 0),
      LoggedAt r.ready r.after (100 + (suspended.boot 1 - suspended.boot 0)) ∧
      CombinedAt Merge.wire s.guestTrace s.after.combinedTrace 0 133 ∧
      ¬ CombinedAt Merge.wire s.guestTrace s.after.combinedTrace 0
        (100 + (suspended.boot 1 - suspended.boot 0)) := by
  obtain ⟨r, hr⟩ := exists_recording suspended
  obtain ⟨s⟩ := exists_merge suspended rfl
  have hcombined : ∀ ts, CombinedAt Merge.wire s.guestTrace s.after.combinedTrace 0 ts ↔ ts = 133 :=
    fun ts => s.combinedAt_iff Merge.wire_lawful (by decide)
  refine ⟨r, s, (r.loggedAt_iff (by decide)).mpr (Or.inl hr), (hcombined 133).mpr rfl, ?_⟩
  rw [hcombined]
  decide

end

end Sdk
end VPerfetto
