/-
# Bracket sequences

Sequences of opening and closing brackets: how many are open after a sequence
and at most during it, a counter that keeps within a limit, and labelled
brackets, of which each closing one should have the label of the one it closes.

The counter stops at its limit: what comes from then on is neither counted nor
recorded. A sequence that stays below the limit is recorded whole
(`recorded_of_peak_lt`); after one that reaches it the counter is at the limit
for good (`final_of_le_peak`).

Key definitions: `level`, `peak`, `Closes`, `next`, `recorded`, `unmatched`, `Matched`.
Key theorems: `dyckWord_of_closes`, `recorded_of_peak_lt`, `final_of_le_peak`, `Matched.close`.
-/
import Mathlib.Combinatorics.Enumerative.DyckWord

namespace Brackets

open DyckStep

/-- The number of open brackets after a sequence that begins with `d` of them. -/
def level : ℕ → List DyckStep → ℕ
  | d, [] => d
  | d, U :: l => level (d + 1) l
  | d, D :: l => level (d - 1) l

/-- The greatest number of open brackets at any time. -/
def peak : ℕ → List DyckStep → ℕ
  | d, [] => d
  | d, U :: l => max d (peak (d + 1) l)
  | d, D :: l => max d (peak (d - 1) l)

/-- Every closing bracket closes one that is open. -/
def Closes : ℕ → List DyckStep → Prop
  | _, [] => True
  | d, U :: l => Closes (d + 1) l
  | d, D :: l => 0 < d ∧ Closes (d - 1) l

instance decidableCloses : ∀ d l, Decidable (Closes d l)
  | _, [] => .isTrue trivial
  | d, U :: l => decidableCloses (d + 1) l
  | d, D :: l =>
    have := decidableCloses (d - 1) l
    inferInstanceAs (Decidable (0 < d ∧ Closes (d - 1) l))

section

variable {d : ℕ} {l : List DyckStep}

theorem le_peak (d : ℕ) (l : List DyckStep) : d ≤ peak d l := by
  cases l with
  | nil => exact Nat.le_refl d
  | cons x l => cases x <;> exact Nat.le_max_left _ _

/-- The numbers of brackets of each kind give the level. -/
theorem Closes.count (h : Closes d l) : level d l + l.count D = d + l.count U := by
  induction l generalizing d with
  | nil => simp [level]
  | cons x l ih =>
    cases x with
    | U =>
      have hl := ih h
      simp only [level, List.count_cons_self, List.count_cons_of_ne (show U ≠ D by decide)]
      omega
    | D =>
      have hl := ih h.2
      have hpos := h.1
      simp only [level, List.count_cons_self, List.count_cons_of_ne (show D ≠ U by decide)]
      omega

theorem closes_iff_take : Closes d l ↔ ∀ i, (l.take i).count D ≤ d + (l.take i).count U := by
  induction l generalizing d with
  | nil => simp [Closes]
  | cons x l ih =>
    cases x with
    | U =>
      simp only [Closes, ih]
      constructor
      · intro h i
        cases i with
        | zero => simp
        | succ i =>
          have hi := h i
          simp only [List.take_succ_cons, List.count_cons_self, List.count_cons_of_ne (show U ≠ D by decide)]
          omega
      · intro h i
        have hi := h (i + 1)
        simp only [List.take_succ_cons, List.count_cons_self, List.count_cons_of_ne (show U ≠ D by decide)] at hi
        omega
    | D =>
      simp only [Closes, ih]
      constructor
      · intro h i
        obtain ⟨hpos, h⟩ := h
        cases i with
        | zero => simp
        | succ i =>
          have hi := h i
          simp only [List.take_succ_cons, List.count_cons_self, List.count_cons_of_ne (show D ≠ U by decide)]
          omega
      · intro h
        have hpos : 0 < d := by
          have h1 := h 1
          simp only [List.take_succ_cons, List.take_zero, List.count_cons_self, List.count_nil,
            List.count_cons_of_ne (show D ≠ U by decide)] at h1
          omega
        refine ⟨hpos, fun i => ?_⟩
        have hi := h (i + 1)
        simp only [List.take_succ_cons, List.count_cons_self, List.count_cons_of_ne (show D ≠ U by decide)] at hi
        omega

theorem closes_dyckWord (w : DyckWord) : Closes 0 w.toList :=
  closes_iff_take.mpr fun i => by simpa using w.count_D_le_count_U i

theorem level_dyckWord (w : DyckWord) : level 0 w.toList = 0 := by
  have hcount := (closes_dyckWord w).count
  have hsame := w.count_U_eq_count_D
  omega

/-- What closes every bracket and leaves none open is a Dyck word. -/
theorem dyckWord_of_closes (hc : Closes 0 l) (hl : level 0 l = 0) : ∃ w : DyckWord, w.toList = l := by
  have hcount := hc.count
  exact ⟨⟨l, by omega, fun i => by simpa using closes_iff_take.mp hc i⟩, rfl⟩

end

/-! ### A counter with a limit -/

/-- The counter after a bracket. -/
def next (limit d : ℕ) : DyckStep → ℕ
  | U => if d = limit then d else d + 1
  | D => if d = limit then d else d - 1

/-- A bracket is recorded below the limit, a closing one if there is one to close. -/
def records (limit d : ℕ) : DyckStep → Bool
  | U => d ≠ limit
  | D => d ≠ limit ∧ d ≠ 0

/-- The counter after a sequence. -/
def final (limit : ℕ) : ℕ → List DyckStep → ℕ := List.foldl (next limit)

/-- What is recorded of a sequence. -/
def recorded (limit : ℕ) : ℕ → List DyckStep → List DyckStep
  | _, [] => []
  | d, x :: l => if records limit d x then x :: recorded limit (next limit d x) l else recorded limit (next limit d x) l

section

variable {limit d : ℕ} {l : List DyckStep}

theorem final_limit (limit : ℕ) (l : List DyckStep) : final limit limit l = limit := by
  induction l with
  | nil => rfl
  | cons x l ih =>
    have hx : next limit limit x = limit := by cases x <;> simp [next]
    show final limit (next limit limit x) l = limit
    rw [hx, ih]

theorem recorded_append (limit d : ℕ) (l l' : List DyckStep) :
    recorded limit d (l ++ l') = recorded limit d l ++ recorded limit (final limit d l) l' := by
  induction l generalizing d with
  | nil => rfl
  | cons x l ih =>
    have hrest := ih (next limit d x)
    simp only [List.cons_append, recorded, hrest]
    split
    · rfl
    · rfl

/-- **Below the limit nothing is lost.** -/
theorem recorded_of_peak_lt (hc : Closes d l) (hp : peak d l < limit) :
    recorded limit d l = l ∧ final limit d l = level d l := by
  induction l generalizing d with
  | nil => exact ⟨rfl, rfl⟩
  | cons x l ih =>
    have hd : d ≠ limit := Nat.ne_of_lt (Nat.lt_of_le_of_lt (le_peak d (x :: l)) hp)
    cases x with
    | U =>
      have hnext : next limit d U = d + 1 := if_neg hd
      obtain ⟨hrec, hfin⟩ := ih hc (Nat.lt_of_le_of_lt (Nat.le_max_right d _) hp)
      constructor
      · simp only [recorded, records, hnext, hrec]
        simp [hd]
      · show final limit (next limit d U) l = level (d + 1) l
        rw [hnext, hfin]
    | D =>
      have hnext : next limit d D = d - 1 := if_neg hd
      have hpos : d ≠ 0 := Nat.ne_of_gt hc.1
      obtain ⟨hrec, hfin⟩ := ih hc.2 (Nat.lt_of_le_of_lt (Nat.le_max_right d _) hp)
      constructor
      · simp only [recorded, records, hnext, hrec]
        simp [hd, hpos]
      · show final limit (next limit d D) l = level (d - 1) l
        rw [hnext, hfin]

/-- **At the limit the counter stays.** -/
theorem final_of_le_peak (hd : d ≤ limit) (hp : limit ≤ peak d l) : final limit d l = limit := by
  induction l generalizing d with
  | nil => exact Nat.le_antisymm hd hp
  | cons x l ih =>
    by_cases he : d = limit
    · rw [he]
      exact final_limit limit (x :: l)
    · cases x with
      | U =>
        have hnext : next limit d U = d + 1 := if_neg he
        show final limit (next limit d U) l = limit
        rw [hnext]
        have hmax : limit ≤ max d (peak (d + 1) l) := hp
        exact ih (by omega) (by omega)
      | D =>
        have hnext : next limit d D = d - 1 := if_neg he
        show final limit (next limit d D) l = limit
        rw [hnext]
        have hmax : limit ≤ max d (peak (d - 1) l) := hp
        exact ih (by omega) (by omega)

end

/-! ### Labelled brackets -/

variable {α : Type}

/-- The labels of the brackets that are open after a sequence, from the innermost. -/
def unmatched : List α → List (DyckStep × α) → List α
  | s, [] => s
  | s, (U, a) :: l => unmatched (a :: s) l
  | s, (D, _) :: l => unmatched s.tail l

/-- Every closing bracket has the label of the innermost open one. -/
def Matched (l : List (DyckStep × α)) : Prop :=
  ∀ pre a post, l = pre ++ (D, a) :: post → (unmatched [] pre).head? = some a

section

variable {l : List (DyckStep × α)} {a : α}

theorem unmatched_append (s : List α) (l l' : List (DyckStep × α)) :
    unmatched s (l ++ l') = unmatched (unmatched s l) l' := by
  induction l generalizing s with
  | nil => rfl
  | cons x l ih =>
    obtain ⟨x, a⟩ := x
    cases x with
    | U => exact ih (a :: s)
    | D => exact ih s.tail

theorem matched_nil : Matched ([] : List (DyckStep × α)) := by
  intro pre a post h
  simp at h

/-- Where a closing bracket stands in a longer sequence. -/
theorem snoc_split {x y : DyckStep × α} {pre post : List (DyckStep × α)} (h : l ++ [x] = pre ++ y :: post) :
    (∃ post', l = pre ++ y :: post') ∨ (l = pre ∧ x = y) := by
  rcases List.eq_nil_or_concat post with rfl | ⟨post', z, rfl⟩
  · obtain ⟨hl, hx⟩ := List.append_inj' h rfl
    exact Or.inr ⟨hl, List.singleton_inj.mp hx⟩
  · rw [List.concat_eq_append, ← List.cons_append, ← List.append_assoc] at h
    obtain ⟨hl, -⟩ := List.append_inj' h rfl
    exact Or.inl ⟨post', hl⟩

theorem Matched.open (h : Matched l) (a : α) : Matched (l ++ [(U, a)]) := by
  intro pre b post heq
  rcases snoc_split heq with ⟨post', hl⟩ | ⟨-, hx⟩
  · exact h pre b post' hl
  · exact absurd (congrArg Prod.fst hx) (by simp)

theorem Matched.close (h : Matched l) (ha : (unmatched [] l).head? = some a) : Matched (l ++ [(D, a)]) := by
  intro pre b post heq
  rcases snoc_split heq with ⟨post', hl⟩ | ⟨hl, hx⟩
  · exact h pre b post' hl
  · have hab : a = b := congrArg Prod.snd hx
    rw [← hl, ha, hab]

end

end Brackets
