/-
# Decimal numerals on a stream

What `>>` reads into an integer: white space is skipped, then a sign and as
many digits as follow are taken, and the rest of the stream is left. It fails
if there is no digit, or the value is out of range; a negative value wraps if
the type is unsigned.

`readNumber_iff` says which texts are read. A value printed with `decimal` is
read back (`readInt64_print`, `readUInt64_print`).
-/
import Mathlib.Data.Nat.Digits.Lemmas
import Mathlib.Data.List.TakeWhile
import Mathlib.Tactic.IntervalCases

namespace Numeral

/-- White space in the "C" locale. -/
def isSpace (c : Char) : Bool := c = ' ' || (9 ≤ c.toNat && c.toNat ≤ 13)

def isDigit (c : Char) : Bool := 48 ≤ c.toNat && c.toNat ≤ 57

/-- The value of digits, the first one the most significant. -/
def value (ds : List Char) : ℕ := ds.foldl (fun n c => 10 * n + (c.toNat - 48)) 0

/-- An optional sign, and what follows it. -/
def takeSign : List Char → Bool × List Char
  | '-' :: s => (true, s)
  | '+' :: s => (false, s)
  | s => (false, s)

/-- The sign and the absolute value. -/
def readNumber (s : List Char) : Option (Bool × ℕ) :=
  let (negative, s) := takeSign (s.dropWhile isSpace)
  let ds := s.takeWhile isDigit
  if ds.isEmpty then none else some (negative, value ds)

def readInt64 (s : List Char) : Option Int64 := do
  let (negative, n) ← readNumber s
  if negative then if n ≤ 2 ^ 63 then some (-Int64.ofNat n) else none
  else if n < 2 ^ 63 then some (Int64.ofNat n) else none

def readUInt64 (s : List Char) : Option UInt64 := do
  let (negative, n) ← readNumber s
  if n < 2 ^ 64 then some (if negative then -UInt64.ofNat n else UInt64.ofNat n) else none

/-! ### Printing -/

def decimal (n : ℕ) : List Char :=
  if n = 0 then ['0'] else (Nat.digits 10 n).reverse.map fun d => Char.ofNat (d + 48)

def printInt64 (v : Int64) : List Char :=
  if v.toInt < 0 then '-' :: decimal v.toInt.natAbs else decimal v.toInt.natAbs

def printUInt64 (v : UInt64) : List Char := decimal v.toNat

theorem digit_toNat {d : ℕ} (h : d < 10) : (Char.ofNat (d + 48)).toNat = d + 48 := by
  interval_cases d <;> rfl

theorem isDigit_digit {d : ℕ} (h : d < 10) : isDigit (Char.ofNat (d + 48)) = true := by
  unfold isDigit
  rw [digit_toNat h]
  simp
  omega

theorem decimal_digits (n : ℕ) : ∀ c ∈ decimal n, isDigit c = true := by
  intro c hc
  unfold decimal at hc
  split at hc
  · rw [List.mem_singleton.mp hc]
    decide
  · obtain ⟨d, hd, rfl⟩ := List.mem_map.mp hc
    exact isDigit_digit (Nat.digits_lt_base (by decide) (List.mem_reverse.mp hd))

theorem decimal_ne_nil (n : ℕ) : decimal n ≠ [] := by
  unfold decimal
  split
  · exact List.cons_ne_nil _ _
  · next hn => simpa using Nat.digits_ne_nil_iff_ne_zero.mpr hn

theorem value_decimal (n : ℕ) : value (decimal n) = n := by
  unfold decimal
  split
  · next hn => rw [hn]; rfl
  · have hfold : ∀ l : List ℕ, (∀ d ∈ l, d < 10) →
        value (l.reverse.map fun d => Char.ofNat (d + 48)) = Nat.ofDigits 10 l := by
      intro l
      induction l with
      | nil => exact fun _ => rfl
      | cons d l ih =>
        intro hl
        have hd := hl d List.mem_cons_self
        have ih := ih fun x hx => hl x (List.mem_cons_of_mem _ hx)
        unfold value at ih ⊢
        rw [List.reverse_cons, List.map_append, List.foldl_append, ih, Nat.ofDigits_cons]
        simp only [List.map_cons, List.map_nil, List.foldl_cons, List.foldl_nil, digit_toNat hd]
        simp
        omega
    rw [hfold _ fun d hd => Nat.digits_lt_base (by decide) hd, Nat.ofDigits_digits]

/-! ### Reading what was printed -/

/-- A text that is read: white space, a sign, digits, and anything that does
not begin with a digit. -/
structure Reads (s : List Char) (negative : Bool) (n : ℕ) (space sign ds rest : List Char) : Prop where
  text : s = space ++ (sign ++ (ds ++ rest))
  space : ∀ c ∈ space, isSpace c = true
  sign : sign = ['-'] ∧ negative = true ∨ sign = ['+'] ∧ negative = false ∨ sign = [] ∧ negative = false
  digits : ∀ c ∈ ds, isDigit c = true
  nonempty : ds ≠ []
  rest : ∀ c ∈ rest.head?, isDigit c = false
  value : value ds = n

theorem not_isSpace_of_isDigit {c : Char} (h : isDigit c = true) : isSpace c = false := by
  unfold isDigit at h
  unfold isSpace
  have h32 : (' ' : Char).toNat = 32 := rfl
  simp only [Bool.and_eq_true, decide_eq_true_eq] at h
  have hne : c ≠ ' ' := fun he => by rw [he, h32] at h; omega
  simp [hne]
  omega

theorem takeWhile_append_of_head {p : Char → Bool} {ds rest : List Char} (hds : ∀ c ∈ ds, p c = true)
    (hrest : ∀ c ∈ rest.head?, p c = false) : (ds ++ rest).takeWhile p = ds := by
  have hnil : rest.takeWhile p = [] := by
    cases rest with
    | nil => rfl
    | cons c rest => simp [hrest c rfl]
  rw [List.takeWhile_append_of_pos hds, hnil, List.append_nil]

theorem dropWhile_append_of_head {p : Char → Bool} {ds rest : List Char} (hds : ∀ c ∈ ds, p c = true)
    (hrest : ∀ c ∈ rest.head?, p c = false) : (ds ++ rest).dropWhile p = rest := by
  have hall : rest.dropWhile p = rest := by
    cases rest with
    | nil => rfl
    | cons c rest => simp [hrest c rfl]
  rw [List.dropWhile_append_of_pos hds, hall]

/-- A sign is taken if there is one; a digit is none. -/
theorem takeSign_of {sign s : List Char} {negative : Bool} (hs : s ≠ []) (hdigit : ∀ c ∈ s.head?, isDigit c = true)
    (h : sign = ['-'] ∧ negative = true ∨ sign = ['+'] ∧ negative = false ∨ sign = [] ∧ negative = false) :
    takeSign (sign ++ s) = (negative, s) := by
  rcases h with ⟨rfl, rfl⟩ | ⟨rfl, rfl⟩ | ⟨rfl, rfl⟩
  · rfl
  · rfl
  · obtain ⟨c, s, rfl⟩ := List.exists_cons_of_ne_nil hs
    have hc := hdigit c rfl
    have hminus : c ≠ '-' := fun he => by rw [he] at hc; exact absurd hc (by decide)
    have hplus : c ≠ '+' := fun he => by rw [he] at hc; exact absurd hc (by decide)
    rw [List.nil_append]
    unfold takeSign
    split
    · next heq => exact absurd (List.cons.inj heq).1 hminus
    · next heq => exact absurd (List.cons.inj heq).1 hplus
    · rfl

theorem takeSign_cases (s : List Char) : ∃ sign, s = sign ++ (takeSign s).2 ∧
    (sign = ['-'] ∧ (takeSign s).1 = true ∨ sign = ['+'] ∧ (takeSign s).1 = false ∨
      sign = [] ∧ (takeSign s).1 = false) := by
  unfold takeSign
  split
  · exact ⟨['-'], rfl, Or.inl ⟨rfl, rfl⟩⟩
  · exact ⟨['+'], rfl, Or.inr (Or.inl ⟨rfl, rfl⟩)⟩
  · exact ⟨[], rfl, Or.inr (Or.inr ⟨rfl, rfl⟩)⟩

theorem head_dropWhile {p : Char → Bool} (s : List Char) : ∀ c ∈ (s.dropWhile p).head?, p c = false := by
  intro c hc
  have hnot := List.head?_dropWhile_not p s
  rw [Option.mem_def.mp hc] at hnot
  simpa using hnot

/-- **What is read.** -/
theorem readNumber_iff {s : List Char} {negative : Bool} {n : ℕ} :
    readNumber s = some (negative, n) ↔ ∃ space sign ds rest, Reads s negative n space sign ds rest := by
  refine ⟨fun h => ?_, fun h => ?_⟩
  · unfold readNumber at h
    dsimp only at h
    split at h
    · cases h
    · next hne =>
      obtain ⟨sign, hsign, hcases⟩ := takeSign_cases (s.dropWhile isSpace)
      simp only [Option.some.injEq, Prod.mk.injEq] at h
      obtain ⟨hneg, hval⟩ := h
      rw [hneg] at hcases
      refine ⟨s.takeWhile isSpace, sign, _, ((takeSign (s.dropWhile isSpace)).2).dropWhile isDigit, ?_, ?_, hcases,
        ?_, ?_, head_dropWhile _, hval⟩
      · rw [List.takeWhile_append_dropWhile, ← hsign, List.takeWhile_append_dropWhile]
      · exact fun c hc => List.mem_takeWhile_imp hc
      · exact fun c hc => List.mem_takeWhile_imp hc
      · simpa using hne
  · obtain ⟨space, sign, ds, rest, h⟩ := h
    obtain ⟨c, ds', hds⟩ := List.exists_cons_of_ne_nil h.nonempty
    have hc : isDigit c = true := h.digits c (hds ▸ List.mem_cons_self)
    have hhead : ∀ x ∈ (sign ++ (ds ++ rest)).head?, isSpace x = false := by
      intro x hx
      rcases h.sign with ⟨rfl, -⟩ | ⟨rfl, -⟩ | ⟨rfl, -⟩
      · obtain rfl : '-' = x := Option.some.inj hx
        decide
      · obtain rfl : '+' = x := Option.some.inj hx
        decide
      · rw [hds] at hx
        obtain rfl : c = x := Option.some.inj hx
        exact not_isSpace_of_isDigit hc
    have hdigit : ∀ x ∈ (ds ++ rest).head?, isDigit x = true := by
      intro x hx
      rw [hds] at hx
      obtain rfl : c = x := Option.some.inj hx
      exact hc
    have hne : ds ++ rest ≠ [] := by simp [h.nonempty]
    have htext : s = space ++ (sign ++ (ds ++ rest)) := h.text
    unfold readNumber
    rw [htext, dropWhile_append_of_head h.space hhead, takeSign_of hne hdigit h.sign]
    dsimp only
    rw [takeWhile_append_of_head h.digits h.rest, h.value]
    simp [h.nonempty]

theorem readNumber_decimal (n : ℕ) : readNumber (decimal n) = some (false, n) :=
  readNumber_iff.mpr ⟨[], [], decimal n, [], by simp, by simp, Or.inr (Or.inr ⟨rfl, rfl⟩), decimal_digits n,
    decimal_ne_nil n, by simp, value_decimal n⟩

theorem readNumber_minus_decimal (n : ℕ) : readNumber ('-' :: decimal n) = some (true, n) :=
  readNumber_iff.mpr ⟨[], ['-'], decimal n, [], by simp, by simp, Or.inl ⟨rfl, rfl⟩, decimal_digits n,
    decimal_ne_nil n, by simp, value_decimal n⟩

theorem readUInt64_print (v : UInt64) : readUInt64 (printUInt64 v) = some v := by
  unfold readUInt64 printUInt64
  rw [readNumber_decimal]
  simp only [Option.bind_eq_bind, Option.bind_some, Bool.false_eq_true, if_false]
  rw [if_pos v.toNat_lt, UInt64.ofNat_toNat]

theorem readInt64_print (v : Int64) : readInt64 (printInt64 v) = some v := by
  have hlt := v.toInt_lt
  have hge := v.le_toInt
  unfold readInt64 printInt64
  split
  · have hn : v.toInt.natAbs ≤ 2 ^ 63 := by omega
    have habs : -(v.toInt.natAbs : ℤ) = v.toInt := by omega
    have hback : -Int64.ofNat v.toInt.natAbs = v := by
      rw [← Int64.ofInt_eq_ofNat, ← Int64.ofInt_neg, habs, Int64.ofInt_toInt]
    rw [readNumber_minus_decimal]
    simp only [Option.bind_eq_bind, Option.bind_some, if_true]
    rw [if_pos hn, hback]
  · have hn : v.toInt.natAbs < 2 ^ 63 := by omega
    have habs : (v.toInt.natAbs : ℤ) = v.toInt := by omega
    have hback : Int64.ofNat v.toInt.natAbs = v := by
      rw [← Int64.ofInt_eq_ofNat, habs, Int64.ofInt_toInt]
    rw [readNumber_decimal]
    simp only [Option.bind_eq_bind, Option.bind_some, Bool.false_eq_true, if_false]
    rw [if_pos hn, hback]

end Numeral
