/-
# Waiting for the guest file

The polling loop of `asyncTraceSaveFunc`, the same in `vperfetto.cpp` and
`vperfetto-sdk.cpp`: at most 20 polls of the guest file's size, until two of
them found the size of the last poll that saw one.

Key definitions: `Poll`, `Poll.next`, `Poll.done`, `repeats`, `Stabilises`.
Key theorems: `Poll.counts_next`, `Poll.good_of_stabilises`, `Poll.stabilises_of_good`.
-/
import Mathlib.Data.Int.Notation
import Mathlib.Tactic.Common

namespace VPerfetto
namespace Host

def kMaxIters : ℕ := 20

def kMinItersForGuestFileSize : ℕ := 2

/-- The loop's variables; `iter` polls have been made. -/
structure Poll where
  iter : ℕ := 0
  currGuestSize : ℤ := 0
  numGoodGuestFileSizeIters : ℕ := 0
  good : Bool := false
deriving DecidableEq, Repr

/-- One round. `tellg` is -1 for a file that cannot be opened. -/
def Poll.next (size : ℤ) (p : Poll) : Poll :=
  if size = 0 then { p with iter := p.iter + 1 }
  else if size ≠ p.currGuestSize then { p with iter := p.iter + 1, currGuestSize := size }
  else
    -- the count is not reset when the size changes
    let n := p.numGoodGuestFileSizeIters + 1
    { p with iter := p.iter + 1, numGoodGuestFileSizeIters := n, good := n = kMinItersForGuestFileSize }

/-- The loop is left: by `break`, or after the last round. -/
def Poll.done (p : Poll) : Bool := p.good || p.iter == kMaxIters

/-- How many of these sizes repeat the one before, zeros left out. -/
def repeats : ℤ → List ℤ → ℕ
  | _, [] => 0
  | prev, size :: sizes =>
    if size = 0 then repeats prev sizes
    else if size ≠ prev then repeats size sizes
    else repeats prev sizes + 1

/-- The sizes from poll `i` to the last one. -/
def remaining (sizes : ℕ → ℤ) (i : ℕ) : List ℤ := (List.range' i (kMaxIters - i)).map sizes

/-- Among the sizes of all 20 polls, zeros left out, two repeat the one before. -/
def Stabilises (sizes : ℕ → ℤ) : Prop := kMinItersForGuestFileSize ≤ repeats 0 (remaining sizes 0)

instance (sizes : ℕ → ℤ) : Decidable (Stabilises sizes) := Nat.decLe _ _

/-- The loop counts what `repeats` counts. -/
structure Poll.Counts (sizes : ℕ → ℤ) (p : Poll) : Prop where
  total : p.numGoodGuestFileSizeIters + repeats p.currGuestSize (remaining sizes p.iter) =
    repeats 0 (remaining sizes 0)
  iter_le : p.iter ≤ kMaxIters
  good_iff : p.good = true ↔ p.numGoodGuestFileSizeIters = kMinItersForGuestFileSize
  count_le : p.numGoodGuestFileSizeIters ≤ kMinItersForGuestFileSize

theorem Poll.next_iter (size : ℤ) (p : Poll) : (p.next size).iter = p.iter + 1 := by
  unfold Poll.next
  split
  · rfl
  · split <;> rfl

theorem Poll.iter_lt {p : Poll} (hd : p.done = false) (hle : p.iter ≤ kMaxIters) : p.iter < kMaxIters := by
  unfold Poll.done at hd
  simp only [Bool.or_eq_false_iff, beq_eq_false_iff_ne] at hd
  exact Nat.lt_of_le_of_ne hle hd.2

theorem Poll.counts_start (sizes : ℕ → ℤ) : Poll.Counts sizes {} :=
  ⟨Nat.zero_add _, Nat.zero_le _, by decide, Nat.zero_le _⟩

theorem remaining_cons (sizes : ℕ → ℤ) {i : ℕ} (h : i < kMaxIters) :
    remaining sizes i = sizes i :: remaining sizes (i + 1) := by
  unfold remaining
  obtain ⟨n, hn⟩ : ∃ n, kMaxIters - i = n + 1 := ⟨kMaxIters - i - 1, by omega⟩
  have hn' : kMaxIters - (i + 1) = n := by omega
  rw [hn, hn', List.range'_succ]
  rfl

theorem Poll.counts_next {sizes : ℕ → ℤ} {p : Poll} (h : Poll.Counts sizes p) (hd : p.done = false) :
    Poll.Counts sizes (p.next (sizes p.iter)) := by
  unfold Poll.done at hd
  simp only [Bool.or_eq_false_iff, beq_eq_false_iff_ne] at hd
  obtain ⟨hg, hi⟩ := hd
  have hlt : p.iter < kMaxIters := Nat.lt_of_le_of_ne h.iter_le hi
  have hcount : p.numGoodGuestFileSizeIters ≠ kMinItersForGuestFileSize := by
    rw [ne_eq, ← h.good_iff, hg]
    exact Bool.false_ne_true
  have hle := h.count_le
  have htotal := h.total
  rw [remaining_cons sizes hlt, repeats] at htotal
  unfold Poll.next
  by_cases h0 : sizes p.iter = 0
  · rw [if_pos h0] at htotal ⊢
    exact ⟨htotal, hlt, h.good_iff, hle⟩
  · rw [if_neg h0] at htotal ⊢
    by_cases hc : sizes p.iter ≠ p.currGuestSize
    · rw [if_pos hc] at htotal ⊢
      exact ⟨htotal, hlt, h.good_iff, hle⟩
    · rw [if_neg hc] at htotal ⊢
      refine ⟨?_, hlt, by simp, ?_⟩
      · show p.numGoodGuestFileSizeIters + 1 +
          repeats p.currGuestSize (remaining sizes (p.iter + 1)) = repeats 0 (remaining sizes 0)
        omega
      · show p.numGoodGuestFileSizeIters + 1 ≤ _
        omega

/-- **The loop times out only if the size did not settle.** -/
theorem Poll.good_of_stabilises {sizes : ℕ → ℤ} {p : Poll} (h : Poll.Counts sizes p) (hd : p.done = true)
    (hs : Stabilises sizes) : p.good = true := by
  by_contra hg
  have hi : p.iter = kMaxIters := by
    unfold Poll.done at hd
    simpa [hg] using hd
  have htotal := h.total
  have hnil : remaining sizes p.iter = [] := by
    rw [hi]
    rfl
  rw [hnil] at htotal
  have hn : p.numGoodGuestFileSizeIters = kMinItersForGuestFileSize := by
    have hle := h.count_le
    unfold Stabilises at hs
    simp only [repeats, Nat.add_zero] at htotal
    omega
  exact hg (h.good_iff.mpr hn)

/-- The loop leaves with a size only if it settled. -/
theorem Poll.stabilises_of_good {sizes : ℕ → ℤ} {p : Poll} (h : Poll.Counts sizes p) (hg : p.good = true) :
    Stabilises sizes := by
  have htotal := h.total
  rw [h.good_iff.mp hg] at htotal
  unfold Stabilises
  omega

end Host
end VPerfetto
