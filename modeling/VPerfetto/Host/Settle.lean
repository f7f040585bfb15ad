/-
# When the guest file has settled

The polling loop of `asyncTraceSaveFunc` leaves with `good` at the second poll
that finds the size of the last poll that saw one, wherever the first such poll
was: neither a change of size nor an empty file resets the count. So the last
three polls agree exactly if the two matches are adjacent (`settledOnly_iff`),
and as a file that is not there has size -1, which is not 0, two matches of
that size are as good as any other (`goodIsPresent_iff`).

Key definitions: `Poll.after`, `pollLoop`, `lastSize`, `Repeats`,
`SettledOnly`, `GuestFile`, `GoodIsPresent`.
Key theorems: `pollLoop_good_iff`, `settledOnly_iff`, `goodIsPresent_iff`.
-/
import Mathlib.Data.Nat.Count
import VPerfetto.Host.Poll

namespace VPerfetto
namespace Host

/-- The loop's variables when it has been round `n` times, or has been left before. -/
def Poll.after (sizes : ℕ → ℤ) : ℕ → Poll
  | 0 => {}
  | n + 1 =>
    let p := Poll.after sizes n
    if p.done then p else p.next (sizes p.iter)

def pollLoop (sizes : ℕ → ℤ) : Poll := Poll.after sizes kMaxIters

/-- The size found by the last of the first `n` polls that saw one. -/
def lastSize (sizes : ℕ → ℤ) : ℕ → ℤ
  | 0 => 0
  | n + 1 => if sizes n = 0 then lastSize sizes n else sizes n

/-- Poll `k` finds the size of the last poll that saw one. -/
def Repeats (sizes : ℕ → ℤ) (k : ℕ) : Prop := sizes k ≠ 0 ∧ sizes k = lastSize sizes k

instance (sizes : ℕ → ℤ) : DecidablePred (Repeats sizes) := fun _ => inferInstanceAs (Decidable (_ ∧ _))

/-- After `n` polls without a second match: what the variables are. -/
structure Poll.Waiting (sizes : ℕ → ℤ) (n : ℕ) (p : Poll) : Prop where
  iter : p.iter = n
  size : p.currGuestSize = lastSize sizes n
  count : p.numGoodGuestFileSizeIters = Nat.count (Repeats sizes) n
  good : p.good = false
  lt : p.numGoodGuestFileSizeIters < kMinItersForGuestFileSize

def SecondRepeat (sizes : ℕ → ℤ) (k : ℕ) : Prop := Repeats sizes k ∧ Nat.count (Repeats sizes) k = 1

section

variable {sizes : ℕ → ℤ} {n k : ℕ} {p : Poll}

theorem Poll.waiting_start (sizes : ℕ → ℤ) : Poll.Waiting sizes 0 {} :=
  ⟨rfl, rfl, rfl, rfl, by decide⟩

/-- One round: the loop waits on, or this is the second match. -/
theorem Poll.Waiting.next (h : Poll.Waiting sizes n p) :
    (¬ SecondRepeat sizes n ∧ Poll.Waiting sizes (n + 1) (p.next (sizes n))) ∨
      (SecondRepeat sizes n ∧ (p.next (sizes n)).good = true ∧ (p.next (sizes n)).iter = n + 1) := by
  have hcount := h.count
  have hlt := h.lt
  unfold Poll.next
  by_cases h0 : sizes n = 0
  · have hrep : ¬ Repeats sizes n := fun hr => hr.1 h0
    rw [if_pos h0]
    refine Or.inl ⟨fun hs => hrep hs.1, congrArg (· + 1) h.iter, ?_, ?_, h.good, hlt⟩
    · rw [lastSize, if_pos h0, h.size]
    · rw [Nat.count_succ, if_neg hrep, hcount, Nat.add_zero]
  · rw [if_neg h0]
    by_cases hc : sizes n ≠ p.currGuestSize
    · have hrep : ¬ Repeats sizes n := fun hr => hc (hr.2.trans h.size.symm)
      rw [if_pos hc]
      refine Or.inl ⟨fun hs => hrep hs.1, congrArg (· + 1) h.iter, ?_, ?_, h.good, hlt⟩
      · rw [lastSize, if_neg h0]
      · rw [Nat.count_succ, if_neg hrep, hcount, Nat.add_zero]
    · have heq : sizes n = p.currGuestSize := not_not.mp hc
      have hrep : Repeats sizes n := ⟨h0, heq.trans h.size⟩
      have hsucc : Nat.count (Repeats sizes) (n + 1) = Nat.count (Repeats sizes) n + 1 := by
        rw [Nat.count_succ, if_pos hrep]
      rw [if_neg hc]
      by_cases hone : Nat.count (Repeats sizes) n = 1
      · refine Or.inr ⟨⟨hrep, hone⟩, ?_, congrArg (· + 1) h.iter⟩
        simp [hcount, hone, kMinItersForGuestFileSize]
      · have hzero : Nat.count (Repeats sizes) n = 0 := by
          rw [hcount] at hlt
          unfold kMinItersForGuestFileSize at hlt
          omega
        refine Or.inl ⟨fun hs => hone hs.2, congrArg (· + 1) h.iter, ?_, ?_, ?_, ?_⟩
        · rw [lastSize, if_neg h0, heq]
        · rw [hsucc, hcount]
        · simp [hcount, hzero, kMinItersForGuestFileSize]
        · simp [hcount, hzero, kMinItersForGuestFileSize]

theorem Poll.after_cases (sizes : ℕ → ℤ) (n : ℕ) (hn : n ≤ kMaxIters) :
    ((∀ k < n, ¬ SecondRepeat sizes k) ∧ Poll.Waiting sizes n (Poll.after sizes n)) ∨
      ∃ k < n, SecondRepeat sizes k ∧ (Poll.after sizes n).good = true ∧
        (Poll.after sizes n).iter = k + 1 := by
  induction n with
  | zero => exact Or.inl ⟨nofun, Poll.waiting_start sizes⟩
  | succ n ih =>
    rw [Poll.after]
    rcases ih (Nat.le_of_succ_le hn) with ⟨hnone, hw⟩ | ⟨k, hk, hs, hg, hi⟩
    · have hgo : (Poll.after sizes n).done = false := by
        have hne : n ≠ kMaxIters := Nat.ne_of_lt hn
        simp [Poll.done, hw.good, hw.iter, hne]
      simp only [hgo, Bool.false_eq_true, if_false, hw.iter]
      rcases hw.next with ⟨hno, hw'⟩ | ⟨hs, hg, hi⟩
      · refine Or.inl ⟨fun k hk => ?_, hw'⟩
        rcases Nat.lt_succ_iff_lt_or_eq.mp hk with hk | rfl
        · exact hnone k hk
        · exact hno
      · exact Or.inr ⟨n, Nat.lt_succ_self n, hs, hg, hi⟩
    · have hstop : (Poll.after sizes n).done = true := by simp [Poll.done, hg]
      simp only [hstop, if_true]
      exact Or.inr ⟨k, Nat.lt_succ_of_lt hk, hs, hg, hi⟩

theorem secondRepeat_unique {j : ℕ} (hj : SecondRepeat sizes j) (hk : SecondRepeat sizes k) : j = k :=
  Nat.count_injective hj.1 hk.1 (hj.2.trans hk.2.symm)

/-- **The loop leaves with `good` at the second match**, and only there. -/
theorem pollLoop_good_iff (sizes : ℕ → ℤ) :
    ((pollLoop sizes).good = true ↔ ∃ k < kMaxIters, SecondRepeat sizes k) ∧
      ∀ k < kMaxIters, SecondRepeat sizes k → (pollLoop sizes).iter = k + 1 := by
  rcases Poll.after_cases sizes kMaxIters (Nat.le_refl _) with ⟨hnone, hw⟩ | ⟨k, hk, hs, hg, hi⟩
  · refine ⟨iff_of_false ?_ fun hex => ?_, fun k hk hs => absurd hs (hnone k hk)⟩
    · rw [pollLoop, hw.good]
      exact Bool.false_ne_true
    · obtain ⟨k, hk, hs⟩ := hex
      exact hnone k hk hs
  · refine ⟨iff_of_true hg ⟨k, hk, hs⟩, fun j _ hj => ?_⟩
    rw [pollLoop, hi, secondRepeat_unique hj hs]

end

/-! ### Three polls in a row -/

/-- `good` says that the last `kMinItersForGuestFileSize + 1` polls observed
one size, so that after a change there are three more polls. -/
structure SettledOnly (sizes : ℕ → ℤ) : Prop where
  same : (pollLoop sizes).good = true → ∃ j, (pollLoop sizes).iter = j + (kMinItersForGuestFileSize + 1) ∧
    sizes j = sizes (j + 1) ∧ sizes (j + 1) = sizes (j + 2)
  startsOver : (pollLoop sizes).good = true → ∀ j, j + 1 < (pollLoop sizes).iter →
    sizes (j + 1) ≠ sizes j → j + 1 + (kMinItersForGuestFileSize + 1) ≤ (pollLoop sizes).iter

/-- The second match directly follows the first one, and this a poll that saw a size. -/
def RepeatsAdjacent (sizes : ℕ → ℤ) : Prop :=
  ∀ k < kMaxIters, SecondRepeat sizes k → ∃ j, k = j + 2 ∧ Repeats sizes (j + 1) ∧ sizes j ≠ 0

theorem lastSize_succ {sizes : ℕ → ℤ} {n : ℕ} (h : sizes n ≠ 0) : lastSize sizes (n + 1) = sizes n := by
  rw [lastSize, if_neg h]

/-- **When a file that is merged has stopped growing.** -/
theorem settledOnly_iff (sizes : ℕ → ℤ) : SettledOnly sizes ↔ RepeatsAdjacent sizes := by
  obtain ⟨hgood, hiter⟩ := pollLoop_good_iff sizes
  constructor
  · intro h k hk hs
    obtain ⟨j, hj, h1, h2⟩ := h.same (hgood.mpr ⟨k, hk, hs⟩)
    have hkj : k = j + 2 := by
      rw [hiter k hk hs] at hj
      unfold kMinItersForGuestFileSize at hj
      omega
    subst hkj
    have hne : sizes j ≠ 0 := by
      rw [h1, h2]
      exact hs.1.1
    exact ⟨j, rfl, ⟨h1 ▸ hne, by rw [lastSize_succ hne, h1]⟩, hne⟩
  · intro h
    have hthree : (pollLoop sizes).good = true → ∃ j, (pollLoop sizes).iter = j + 3 ∧
        sizes j = sizes (j + 1) ∧ sizes (j + 1) = sizes (j + 2) := by
      intro hg
      obtain ⟨k, hk, hs⟩ := hgood.mp hg
      obtain ⟨j, rfl, hr, hne⟩ := h k hk hs
      have h1 : sizes (j + 1) = sizes j := hr.2.trans (lastSize_succ hne)
      have h2 : sizes (j + 2) = sizes (j + 1) := hs.1.2.trans (lastSize_succ hr.1)
      exact ⟨j, hiter _ hk hs, h1.symm, h2.symm⟩
    refine ⟨hthree, fun hg i hi hchange => ?_⟩
    obtain ⟨j, hj, h1, h2⟩ := hthree hg
    rw [hj] at hi ⊢
    have hij : i ≠ j := by
      rintro rfl
      exact hchange h1.symm
    have hij' : i ≠ j + 1 := by
      rintro rfl
      exact hchange h2.symm
    unfold kMinItersForGuestFileSize
    omega

/-- A guest file that grows from 5 to 7 bytes between two matches. -/
def growsOnce (i : ℕ) : ℤ := if i < 2 then 5 else 7

/-- The loop is content with 5, 5, 7, 7. -/
theorem growing_file_good : (pollLoop growsOnce).good = true ∧ (pollLoop growsOnce).iter = 4 ∧
    ¬ SettledOnly growsOnce := by
  refine ⟨by decide, by decide, fun h => ?_⟩
  have hlate := h.startsOver (by decide) 1 (by decide) (by decide)
  exact absurd hlate (by decide)

/-! ### Files that are not there -/

inductive GuestFile where
  | absent
  | present (size : ℕ)
deriving DecidableEq, Repr

/-- `tellg` of a stream that was opened at its end. -/
def GuestFile.tellg : GuestFile → ℤ
  | .absent => -1
  | .present size => size

/-- `good` says that the last poll found a file with something in it, and a
file that is never there or always empty is not good. -/
structure GoodIsPresent (polls : ℕ → GuestFile) : Prop where
  last : (pollLoop fun i => (polls i).tellg).good = true →
    ∃ k size, (pollLoop fun i => (polls i).tellg).iter = k + 1 ∧ polls k = .present size ∧ 0 < size
  never : (∀ i < kMaxIters, polls i = .absent ∨ polls i = .present 0) →
    (pollLoop fun i => (polls i).tellg).good = false

/-- The second match is not one of a file that is not there. -/
def SecondRepeatPresent (polls : ℕ → GuestFile) : Prop :=
  ∀ k < kMaxIters, SecondRepeat (fun i => (polls i).tellg) k → polls k ≠ .absent

/-- **When a file that is merged is there.** -/
theorem goodIsPresent_iff (polls : ℕ → GuestFile) : GoodIsPresent polls ↔ SecondRepeatPresent polls := by
  obtain ⟨hgood, hiter⟩ := pollLoop_good_iff fun i => (polls i).tellg
  constructor
  · intro h k hk hs habsent
    obtain ⟨j, size, hj, hp, -⟩ := h.last (hgood.mpr ⟨k, hk, hs⟩)
    obtain rfl : k = j := Nat.succ_injective ((hiter k hk hs).symm.trans hj)
    rw [habsent] at hp
    cases hp
  · intro h
    have hlast : ∀ k < kMaxIters, SecondRepeat (fun i => (polls i).tellg) k →
        ∃ size, polls k = .present size ∧ 0 < size := by
      intro k hk hs
      have hne : (polls k).tellg ≠ 0 := hs.1.1
      cases hp : polls k with
      | absent => exact absurd hp (h k hk hs)
      | present size =>
        rw [hp] at hne
        exact ⟨size, rfl, Nat.pos_of_ne_zero fun hz => hne (by rw [hz]; rfl)⟩
    constructor
    · intro hg
      obtain ⟨k, hk, hs⟩ := hgood.mp hg
      obtain ⟨size, hp, hpos⟩ := hlast k hk hs
      exact ⟨k, size, hiter k hk hs, hp, hpos⟩
    · intro hnever
      apply Bool.eq_false_iff.mpr
      intro hg
      obtain ⟨k, hk, hs⟩ := hgood.mp hg
      obtain ⟨size, hp, hpos⟩ := hlast k hk hs
      rcases hnever k hk with hn | hn
      · rw [hn] at hp
        cases hp
      · rw [hn] at hp
        cases hp
        exact absurd hpos (Nat.lt_irrefl 0)

/-- No guest file at all: the loop is content after three polls. -/
theorem absent_file_good : (pollLoop fun _ => GuestFile.absent.tellg).good = true ∧
    ¬ GoodIsPresent fun _ => .absent := by
  refine ⟨by decide, fun h => ?_⟩
  have hnever := h.never fun _ _ => Or.inl rfl
  exact absurd hnever (by decide)

end Host
end VPerfetto
