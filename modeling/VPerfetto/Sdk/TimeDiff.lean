/-
# The time difference of a merge

`setGuestTime` is refused while tracing is enabled, so a session is traced
under one difference. The saver copies the file names when it starts but reads
`guestTimeDiff` when it merges, up to twenty seconds later, and until then
`setGuestTime` is accepted again. A session is merged with its own difference
as long as none of these calls changes it (`own_diff`); `next_session_diff` is
a run in which the preparation of the next session does.

Key definitions: `OwnDiff`, `KeepsDiff`, `DiffInv`.
Key theorems: `DiffInv.step`, `own_diff`.
-/
import VPerfetto.Sdk.Session

namespace VPerfetto
namespace Sdk

open Runs Wire Host

/-- The saver has not merged yet and will. -/
def Saver.MergePending (saver : Saver) : Prop :=
  match saver.phase with
  | .started => Stabilises saver.sizes
  | .polling _ => Stabilises saver.sizes
  | .stable => True
  | .merged => False
  | .hostWritten => False

/-- The saver's loop counts as it should. -/
def Saver.Counted (saver : Saver) : Prop := ∀ poll, saver.phase = .polling poll → Poll.Counts saver.sizes poll

/-- The loop counts on, and there is no more to merge than before. -/
def Saver.Continues (saver x : Saver) : Prop := x.Counted ∧ (x.MergePending → saver.MergePending)

/-- A saver that moves on has no more to merge than before. -/
theorem State.SaverMoves.savers {s s' : State} {i : ℕ} {saver : Saver} (h : s.SaverMoves i saver s')
    (hc : saver.Counted) : ∀ x ∈ s'.savers, x ∈ s.savers ∨ saver.Continues x := by
  intro x hx
  have hset : ∀ y, saver.Continues y → x ∈ (s.setSaver i y).savers → x ∈ s.savers ∨ saver.Continues x := by
    intro y hy hx
    rcases List.mem_or_eq_of_mem_set hx with hx | rfl
    · exact Or.inl hx
    · exact Or.inr hy
  cases h with
  | timeOut poll hp hd hg => exact Or.inl (List.mem_of_mem_eraseIdx hx)
  | finish hp => exact Or.inl (List.mem_of_mem_eraseIdx hx)
  | copyNames hp =>
    refine hset _ ⟨fun poll h => ?_, fun h => ?_⟩ hx
    · injection h with h
      rw [← h]
      exact Poll.counts_start _
    · rw [Saver.MergePending, hp]
      exact h
  | poll poll hp hd =>
    refine hset _ ⟨fun poll' h => ?_, fun h => ?_⟩ hx
    · injection h with h
      rw [← h]
      exact Poll.counts_next (hc poll hp) hd
    · rw [Saver.MergePending, hp]
      exact h
  | settle poll hp hd hg =>
    refine hset _ ⟨fun poll' h => (by cases h), fun _ => ?_⟩ hx
    rw [Saver.MergePending, hp]
    exact Poll.stabilises_of_good (hc poll hp) hg
  | merge hp | writeHost hp =>
    refine hset _ ⟨fun poll' h => (by cases h), fun h => ?_⟩ hx
    exact h.elim

theorem State.SaverMoves.frame {s s' : State} {i : ℕ} {saver : Saver} (h : s.SaverMoves i saver s') :
    s'.session = s.session ∧ s'.config.guestTimeDiff = s.config.guestTimeDiff := by
  cases h <;> exact ⟨rfl, rfl⟩

/-- The saver leaves after it has written the combined file, or timed out. -/
def Saver.Leaves (saver : Saver) : Prop :=
  saver.phase = .hostWritten ∨ ∃ poll, saver.phase = .polling poll ∧ poll.done = true ∧ poll.good = false

theorem State.SaverMoves.leaves {s s' : State} {i : ℕ} {saver : Saver} (h : s.SaverMoves i saver s')
    (hl : saver.Leaves) : s'.savers = s.savers.eraseIdx i := by
  rcases hl with hp | ⟨poll, hp, hd, hg⟩
  · cases h with
    | finish => rfl
    | _ => simp_all
  · cases h with
    | timeOut => rfl
    | _ => simp_all

theorem State.SaverMoves.stays {s s' : State} {i : ℕ} {saver : Saver} (h : s.SaverMoves i saver s')
    (hl : ¬ saver.Leaves) : s'.savers.length = s.savers.length := by
  cases h with
  | timeOut poll hp hd hg => exact absurd (Or.inr ⟨poll, hp, hd, hg⟩) hl
  | finish hp => exact absurd (Or.inl hp) hl
  | copyNames | poll | settle | merge | writeHost => exact List.length_set

namespace SdkState

variable {ρ : Type} {P : Merge.Protobuf ρ} {w w' : SdkState} {a : SdkAction}

/-- What a step of the saver does to the recorded differences. -/
theorem saverStep_diffs {i : ℕ} (h : w.saverStep P i a = some w') :
    ∃ saver, w.savers[i]? = some saver ∧ w.toState.SaverMoves i saver w'.toState ∧
      w'.sessionDiff = w.sessionDiff ∧
      ((w'.savers.length = w.savers.length ∧ w'.saverDiffs = w.saverDiffs ∧
          (w'.mergedDiffs = w.mergedDiffs ∨ (saver.phase = .stable ∧
            w'.mergedDiffs = w.mergedDiffs ++ [(w.saverDiffs.getD i 0, w.config.guestTimeDiff)]))) ∨
        (w'.savers = w.savers.eraseIdx i ∧ w'.saverDiffs = w.saverDiffs.eraseIdx i ∧
          w'.mergedDiffs = w.mergedDiffs)) := by
  obtain ⟨saver, hi, hmove⟩ := State.saverStep_moves (saverStep_toState h)
  simp only [saverStep, Option.bind_eq_bind, Option.bind_eq_some_iff] at h
  obtain ⟨saver', hi', s, -, h⟩ := h
  obtain rfl : saver' = saver := Option.some.inj (hi'.symm.trans hi)
  refine ⟨saver', hi, hmove, ?_⟩
  split at h
  · rename_i hp
    obtain rfl := Option.some.inj h
    exact ⟨rfl, Or.inl ⟨hmove.stays (by simp [Saver.Leaves, hp]), rfl, Or.inl rfl⟩⟩
  · rename_i poll hp
    split at h
    · rename_i hto
      obtain rfl := Option.some.inj h
      have hl : saver'.Leaves := Or.inr ⟨poll, hp, by simpa using hto⟩
      exact ⟨rfl, Or.inr ⟨hmove.leaves hl, rfl, rfl⟩⟩
    · rename_i hto
      obtain rfl := Option.some.inj h
      have hl : ¬ saver'.Leaves := by
        intro hex
        rcases hex with hp' | ⟨poll', hp', hd, hg⟩
        · rw [hp] at hp'
          cases hp'
        · rw [hp] at hp'
          cases hp'
          simp [hd, hg] at hto
      exact ⟨rfl, Or.inl ⟨hmove.stays hl, rfl, Or.inl rfl⟩⟩
  · rename_i hp
    obtain ⟨guestTrace, -, h⟩ := Option.bind_eq_some_iff.mp h
    obtain rfl := Option.some.inj h
    exact ⟨rfl, Or.inl ⟨hmove.stays (by simp [Saver.Leaves, hp]), rfl, Or.inr ⟨hp, rfl⟩⟩⟩
  · rename_i hp
    obtain rfl := Option.some.inj h
    exact ⟨rfl, Or.inl ⟨hmove.stays (by simp [Saver.Leaves, hp]), rfl, Or.inl rfl⟩⟩
  · rename_i hp
    obtain rfl := Option.some.inj h
    exact ⟨rfl, Or.inr ⟨hmove.leaves (Or.inl hp), rfl, rfl⟩⟩

/-- While a session is traced the difference is the one it began with, and
every session was merged with its own. -/
structure OwnDiff (w : SdkState) : Prop where
  live : w.session = true → w.config.guestTimeDiff = w.sessionDiff
  merged : ∀ m ∈ w.mergedDiffs, m.2 = m.1

/-- A `setGuestTime` that is not refused changes no difference while a saver
has still to merge. -/
def KeepsDiff (w : SdkState) (a : SdkAction) : Prop :=
  match a.event with
  | .setGuestTime t now => w.config.tracingDisabled = true → (∃ saver ∈ w.savers, saver.MergePending) →
    getSignedDifference t now = w.config.guestTimeDiff
  | _ => True

/-- The difference in force is that of the live session, and that of the
session which is still to be merged. -/
structure DiffInv (w : SdkState) : Prop where
  own : OwnDiff w
  aligned : w.saverDiffs.length = w.savers.length
  counted : ∀ saver ∈ w.savers, saver.Counted
  pending : (∃ saver ∈ w.savers, saver.MergePending) → ∀ d ∈ w.saverDiffs, w.config.guestTimeDiff = d

/-- A call that starts no session and no saver and keeps the difference, if it matters. -/
theorem DiffInv.call (h : DiffInv w) {s : State} (hs : s.session = true → w.session = true)
    (hsavers : s.savers = w.savers)
    (hd : (w.session = true ∨ ∃ saver ∈ w.savers, saver.MergePending) →
      s.config.guestTimeDiff = w.config.guestTimeDiff) : DiffInv (w.afterCall s) := by
  have hdiffs : (w.afterCall s).saverDiffs = w.saverDiffs := by
    simp [afterCall, hsavers]
  have hsess : s.session = true → (w.afterCall s).sessionDiff = w.sessionDiff := by
    intro hl
    simp [afterCall, hs hl]
  refine ⟨⟨fun hl => ?_, h.own.merged⟩, ?_, ?_, ?_⟩
  · rw [hsess hl, ← h.own.live (hs hl)]
    exact hd (Or.inl (hs hl))
  · calc (w.afterCall s).saverDiffs.length = w.saverDiffs.length := by rw [hdiffs]
      _ = w.savers.length := h.aligned
      _ = s.savers.length := by rw [hsavers]
  · intro saver hm
    exact h.counted saver (hsavers ▸ hm)
  · rintro ⟨saver, hm, hp⟩ d hdm
    have hex : ∃ saver ∈ w.savers, saver.MergePending := ⟨saver, hsavers ▸ hm, hp⟩
    rw [hdiffs] at hdm
    exact (hd (Or.inr hex)).trans (h.pending hex d hdm)

theorem setGuestTime_diff (t now : UInt64) (c : VirtualDeviceTraceConfig) :
    (c.setGuestTime t now).guestTimeDiff =
      if c.tracingDisabled = true then getSignedDifference t now else c.guestTimeDiff := by
  unfold VirtualDeviceTraceConfig.setGuestTime
  cases c.tracingDisabled <;> rfl

theorem DiffInv.enableTracing (h : DiffInv w) (env : Env) :
    DiffInv (w.afterCall (w.toState.enableTracing env)) := by
  rcases State.enableTracing_cases env w.toState with ⟨-, -, hsess, heq⟩ | heq
  · -- the session begins with the difference in force
    rw [heq]
    refine ⟨⟨fun _ => ?_, h.own.merged⟩, ?_, h.counted, ?_⟩
    · simp [afterCall, hsess]
    · simp only [afterCall, Nat.lt_irrefl, if_false]
      exact h.aligned
    · simp only [afterCall, Nat.lt_irrefl, if_false]
      exact h.pending
  · rw [heq]
    exact h.call id rfl fun _ => rfl

theorem DiffInv.disableTracing (h : DiffInv w) (hsess : SessionState w.toState) (trace : Bytes) (sizes : ℕ → ℤ) :
    DiffInv (w.afterCall (w.toState.disableTracing trace sizes)) := by
  rcases State.disableTracing_cases trace sizes w.toState with
    ⟨-, heq⟩ | ⟨-, -, heq⟩ | ⟨-, -, -, heq⟩ | ⟨hs, hv, -, heq⟩
  · rw [heq]
    exact h.call id rfl fun _ => rfl
  · rw [heq]
    exact h.call id rfl fun _ => rfl
  · rw [heq]
    exact h.call (fun hf => Bool.noConfusion hf) rfl fun _ => rfl
  · -- the new saver is the only one, and has the difference of its session
    have hnil := hsess.no_saver hv
    have hdiffs : w.saverDiffs = [] := List.eq_nil_of_length_eq_zero (h.aligned.trans (by rw [hnil]; rfl))
    have hafter : (w.afterCall (w.toState.disableTracing trace sizes)).saverDiffs = [w.sessionDiff] := by
      rw [heq]
      simp [afterCall, hdiffs]
    have hone : (w.afterCall (w.toState.disableTracing trace sizes)).savers = [{ sizes := sizes }] := by
      rw [heq]
      simp [afterCall, hnil]
    have hconfig : (w.afterCall (w.toState.disableTracing trace sizes)).config.guestTimeDiff =
        w.config.guestTimeDiff := by
      rw [heq]
      rfl
    refine ⟨⟨fun hl => ?_, h.own.merged⟩, by rw [hafter, hone]; rfl, ?_, ?_⟩
    · rw [heq] at hl
      exact Bool.noConfusion hl
    · intro saver hm poll hp
      rw [hone, List.mem_singleton] at hm
      rw [hm] at hp
      cases hp
    · intro _ d hd
      rw [hafter, List.mem_singleton] at hd
      rw [hconfig, hd]
      exact h.own.live hs

theorem DiffInv.saverStep (h : DiffInv w) {i : ℕ} (hs : w.saverStep P i a = some w') : DiffInv w' := by
  obtain ⟨saver, hi, hmove, hsessionDiff, hcase⟩ := saverStep_diffs hs
  obtain ⟨hsession, hdiff⟩ := hmove.frame
  have hmem : saver ∈ w.savers := List.mem_of_getElem? hi
  have hsavers := hmove.savers (h.counted saver hmem)
  have hsub : ∀ d ∈ w'.saverDiffs, d ∈ w.saverDiffs := by
    rcases hcase with ⟨-, heq, -⟩ | ⟨-, heq, -⟩
    · rw [heq]
      exact fun _ hd => hd
    · rw [heq]
      exact fun _ hd => List.mem_of_mem_eraseIdx hd
  refine ⟨⟨fun hl => ?_, ?_⟩, ?_, ?_, ?_⟩
  · rw [hdiff, hsessionDiff]
    exact h.own.live (hsession ▸ hl)
  · rcases hcase with ⟨-, -, heq | ⟨hp, heq⟩⟩ | ⟨-, -, heq⟩
    · rw [heq]
      exact h.own.merged
    · -- the merge reads the difference in force, which is the session's
      rw [heq]
      intro m hm
      rcases List.mem_append.mp hm with hm | hm
      · exact h.own.merged m hm
      · rw [List.mem_singleton.mp hm]
        have hlt : i < w.saverDiffs.length := by
          rw [h.aligned]
          exact (List.getElem?_eq_some_iff.mp hi).1
        have hget : w.saverDiffs[i]? = some w.saverDiffs[i] := List.getElem?_eq_getElem hlt
        refine h.pending ⟨saver, hmem, by rw [Saver.MergePending, hp]; trivial⟩ _ ?_
        rw [List.getD_eq_getElem?_getD, hget]
        exact List.getElem_mem hlt
    · rw [heq]
      exact h.own.merged
  · rcases hcase with ⟨hl, heq, -⟩ | ⟨hl, heq, -⟩
    · rw [heq, hl]
      exact h.aligned
    · rw [heq, hl, List.length_eraseIdx, List.length_eraseIdx, h.aligned]
  · intro x hx
    rcases hsavers x hx with hx | ⟨hx, -⟩
    · exact h.counted x hx
    · exact hx
  · rintro ⟨x, hx, hp⟩ d hd
    have hex : ∃ saver ∈ w.savers, saver.MergePending := by
      rcases hsavers x hx with hx | ⟨-, hx⟩
      · exact ⟨x, hx, hp⟩
      · exact ⟨saver, hmem, hx hp⟩
    rw [hdiff]
    exact h.pending hex d (hsub d hd)

theorem DiffInv.step (h : DiffInv w) (hsess : SessionState w.toState) (hok : KeepsDiff w a)
    (hs : w.step P a = some w') : DiffInv w' := by
  rcases step_cases hs with ⟨i, -, hsaver⟩ | ⟨ha, s, hstep, rfl⟩
  · exact h.saverStep hsaver
  · cases he : a.event with
    | setTraceConfig host guest combined =>
      rw [he] at hstep
      obtain rfl := Option.some.inj hstep
      exact h.call id rfl fun _ => rfl
    | setGuestTime t now =>
      rw [he] at hstep
      obtain rfl := Option.some.inj hstep
      refine h.call id rfl fun hor => ?_
      show (w.config.setGuestTime t now).guestTimeDiff = w.config.guestTimeDiff
      rw [setGuestTime_diff]
      split
      · rename_i hd
        rcases hor with hlive | hpend
        · exact absurd ((hsess.session_iff.mp hlive).symm.trans hd) Bool.false_ne_true
        · simp only [KeepsDiff, he] at hok
          exact hok hd hpend
      · rfl
    | enableTracing env =>
      rw [he] at hstep
      obtain rfl := Option.some.inj hstep
      exact h.enableTracing env
    | disableTracing trace sizes =>
      rw [he] at hstep
      obtain rfl := Option.some.inj hstep
      exact h.disableTracing hsess trace sizes
    | saver i => exact absurd he (ha i)

theorem reach_diffInv (h : SdkReach P KeepsDiff w) : DiffInv w := by
  refine Reach.inv_of (P := DiffInv) ?_ ?_ h
  · intro init hinit
    obtain ⟨_, ⟨config, -, -, rfl⟩, rfl⟩ := hinit
    exact ⟨⟨fun hl => Bool.noConfusion hl, by simp⟩, rfl, by simp, by simp⟩
  · intro w a w' hr hw hok hs
    exact hw.step (reach_sessionState hr) hok hs

/-- The first call that breaks the condition leaves a session to be merged with
another difference than its own. -/
theorem diff_lost (h : SdkReach P KeepsDiff w) (hok : ¬ KeepsDiff w a) (hs : w.step P a = some w') :
    (∃ saver ∈ w'.savers, saver.MergePending) ∧ ∃ d ∈ w'.saverDiffs, w'.config.guestTimeDiff ≠ d := by
  have hinv := reach_diffInv h
  cases he : a.event with
  | setTraceConfig host guest combined | enableTracing env | disableTracing trace sizes | saver i =>
    simp [KeepsDiff, he] at hok
  | setGuestTime t now =>
    simp only [KeepsDiff, he, not_forall] at hok
    obtain ⟨hd, hpend, hne⟩ := hok
    rcases step_cases hs with ⟨i, he', -⟩ | ⟨-, s, hstep, rfl⟩
    · rw [he] at he'
      cases he'
    · rw [he] at hstep
      obtain rfl := Option.some.inj hstep
      have hpos : 0 < w.saverDiffs.length := by
        obtain ⟨saver, hm, -⟩ := hpend
        rw [hinv.aligned]
        exact List.length_pos_of_mem hm
      refine ⟨hpend, ?_⟩
      refine ⟨w.saverDiffs[0], ?_, ?_⟩
      · simp [afterCall]
      · show (w.config.setGuestTime t now).guestTimeDiff ≠ _
        rw [setGuestTime_diff, if_pos hd, ← hinv.pending hpend _ (List.getElem_mem hpos)]
        exact hne

/-- **A session is merged with its own time difference** in a run whose
accepted `setGuestTime` calls change none while a session is still to be
merged. -/
theorem own_diff (h : SdkReach P KeepsDiff w) : OwnDiff w := (reach_diffInv h).own

/-- Nothing is to be merged. -/
theorem keepsDiff_of_merged (h : ∀ saver ∈ w.savers, saver.phase = .merged) : KeepsDiff w a := by
  unfold KeepsDiff
  split
  · rintro - ⟨saver, hm, hp⟩
    rw [Saver.MergePending, h saver hm] at hp
    exact hp.elim
  · trivial

/-- From `enableTracing` to the merge. -/
def sessionToMerge : List SdkAction :=
  [{ event := .enableTracing { guestFile := some "guest", combinedFile := some "combined" } },
    { event := .disableTracing [10, 0] fun _ => 5 }] ++
  List.replicate 5 { event := .saver 0 } ++ [{ event := .saver 0, guestFile := some [] }]

/-- A session traced with a difference of 60, which is merged before the next
`setGuestTime`. -/
theorem own_diff_sixty :
    ∃ w, run (SdkState.step Merge.wire) { config := { hostFilename := some "vmm.trace" } }
        ({ event := .setGuestTime 100 40 } :: sessionToMerge ++ [{ event := .setGuestTime 500 50 }]) = some w ∧
      w.config.guestTimeDiff = 450 ∧ w.mergedDiffs = [(60, 60)] ∧ OwnDiff w := by
  have h0 : SdkReach Merge.wire KeepsDiff { config := { hostFilename := some "vmm.trace" } } :=
    .init ⟨{ config := { hostFilename := some "vmm.trace" } }, ⟨_, rfl, rfl, rfl⟩, rfl⟩
  have h1 := h0.step (a := { event := .setGuestTime 100 40 }) (keepsDiff_of_merged (by simp)) rfl
  have hfree : ∀ a ∈ sessionToMerge, ∀ w, KeepsDiff w a := by
    intro a ha w
    simp only [sessionToMerge, List.mem_append, List.mem_cons, List.mem_replicate, List.not_mem_nil,
      or_false] at ha
    rcases ha with ((rfl | rfl) | ⟨-, rfl⟩) | rfl <;> trivial
  have h2 := Reach.run_of sessionToMerge hfree h1 rfl
  have h3 := h2.step (a := { event := .setGuestTime 500 50 })
    (keepsDiff_of_merged fun saver hm => by rw [List.mem_singleton.mp hm]) rfl
  exact ⟨_, rfl, rfl, rfl, own_diff h3⟩

/-- The next `setGuestTime` comes before the merge: the session traced with a
difference of 60 is merged with 450. -/
theorem next_session_diff : ∃ w, SdkReach Merge.wire (fun _ _ => True) w ∧ ¬ OwnDiff w := by
  have h0 : SdkReach Merge.wire (fun _ _ => True) { config := { hostFilename := some "vmm.trace" } } :=
    .init ⟨{ config := { hostFilename := some "vmm.trace" } }, ⟨_, rfl, rfl, rfl⟩, rfl⟩
  have h1 := Reach.run
    [{ event := .setGuestTime 100 40 },
      { event := .enableTracing { guestFile := some "guest", combinedFile := some "combined" } },
      { event := .disableTracing [10, 0] fun _ => 5 }, { event := .setGuestTime 500 50 }]
    (fun _ _ => trivial) h0 rfl
  have h2 := Reach.run (List.replicate 5 { event := .saver 0 } ++ [{ event := .saver 0, guestFile := some [] }])
    (fun _ _ => trivial) h1 rfl
  exact ⟨_, h2, fun hown => absurd (hown.merged (60, 450) List.mem_cons_self) (by decide)⟩

end SdkState

end Sdk
end VPerfetto
