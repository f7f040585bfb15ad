/-
# The protocol buffer wire format

A message is a sequence of fields, each a tag (field number and wire type)
and a value: a base-128 varint, or a length and that many bytes. Decoding
takes one field after another from the front; a message whose encoding was
cut short does not decode.

`decodeFields_encode` is the round trip, `decodeFields_append` says that
decoding two concatenated messages concatenates their fields, and
`decodeFields_record` decodes a length-delimited field whose length is
written in the fixed four-byte form.

Key definitions: `encodeVarint`, `decodeVarint`, `redundantVarint`, `Field`,
`encodeFields`, `decodeFields`.
-/
import Mathlib.Algebra.Group.Nat.Defs
import Mathlib.Data.List.Basic

namespace Wire

abbrev Bytes := List UInt8

/-! ### Varints -/

/-- The varint of `v` with at most `fuel` continuation bytes. -/
def encodeVarintAux : ℕ → ℕ → Bytes
  | 0, v => [UInt8.ofNat v]
  | fuel + 1, v =>
    if v < 128 then [UInt8.ofNat v] else UInt8.ofNat (v % 128 + 128) :: encodeVarintAux fuel (v / 128)

/-- Seven bits in each byte, the low ones first, with the high bit set on
every byte but the last. -/
def encodeVarint (v : ℕ) : Bytes := encodeVarintAux v v

/-- The varint at the front of the bytes and what follows it. -/
def decodeVarint : Bytes → Option (ℕ × Bytes)
  | [] => none
  | b :: bs =>
    if b.toNat < 128 then some (b.toNat, bs)
    else (decodeVarint bs).map fun p => (b.toNat - 128 + 128 * p.1, p.2)

/-- Exactly four bytes, with leading zeros where fewer would do. -/
def redundantVarint (v : ℕ) : Bytes :=
  [UInt8.ofNat (v % 128 + 128), UInt8.ofNat (v / 128 % 128 + 128),
    UInt8.ofNat (v / 128 / 128 % 128 + 128), UInt8.ofNat (v / 128 / 128 / 128 % 128)]

theorem toNat_ofNat {n : ℕ} (h : n < 256) : (UInt8.ofNat n).toNat = n := by
  rw [UInt8.toNat_ofNat', Nat.mod_eq_of_lt h]

theorem decodeVarint_last {n : ℕ} (h : n < 128) (rest : Bytes) :
    decodeVarint (UInt8.ofNat n :: rest) = some (n, rest) := by
  rw [decodeVarint, toNat_ofNat (by omega), if_pos h]

theorem decodeVarint_more {n : ℕ} (h : n < 128) (rest : Bytes) :
    decodeVarint (UInt8.ofNat (n + 128) :: rest) =
      (decodeVarint rest).map fun p => (n + 128 * p.1, p.2) := by
  rw [decodeVarint, toNat_ofNat (by omega), if_neg (by omega), Nat.add_sub_cancel]

theorem decodeVarint_aux : ∀ (fuel v : ℕ), v ≤ fuel → ∀ rest : Bytes,
    decodeVarint (encodeVarintAux fuel v ++ rest) = some (v, rest)
  | 0, v, h, rest => decodeVarint_last (by omega) rest
  | fuel + 1, v, h, rest => by
    rw [encodeVarintAux]
    split_ifs with hv
    · exact decodeVarint_last hv rest
    · rw [List.cons_append, decodeVarint_more (Nat.mod_lt _ (by omega)),
        decodeVarint_aux fuel (v / 128) (by omega) rest]
      simp only [Option.map_some, Option.some.injEq, Prod.mk.injEq, and_true]
      omega

@[simp] theorem decodeVarint_encode (v : ℕ) (rest : Bytes) :
    decodeVarint (encodeVarint v ++ rest) = some (v, rest) :=
  decodeVarint_aux v v (Nat.le_refl v) rest

theorem decodeVarint_redundant {v : ℕ} (h : v < 2 ^ 28) (rest : Bytes) :
    decodeVarint (redundantVarint v ++ rest) = some (v, rest) := by
  simp only [redundantVarint, List.cons_append, List.nil_append]
  rw [decodeVarint_more (by omega), decodeVarint_more (by omega), decodeVarint_more (by omega),
    decodeVarint_last (by omega)]
  simp only [Option.map_some, Option.some.injEq, Prod.mk.injEq, and_true]
  omega

/-- A varint below `128 ^ n` takes at most `n` bytes. -/
theorem encodeVarintAux_length : ∀ (n fuel v : ℕ), 0 < n → v < 128 ^ n →
    (encodeVarintAux fuel v).length ≤ n
  | _, 0, _, hn, _ => hn
  | n, fuel + 1, v, hn, h => by
    rw [encodeVarintAux]
    split_ifs with hv
    · exact hn
    · obtain ⟨k, rfl⟩ : ∃ k, n = k + 1 := ⟨n - 1, by omega⟩
      have hk : 0 < k := by
        rcases Nat.eq_zero_or_pos k with rfl | hk
        · omega
        · exact hk
      have := encodeVarintAux_length k fuel (v / 128) hk (by
        rw [Nat.pow_succ] at h
        exact Nat.div_lt_of_lt_mul (by omega))
      simpa using this

theorem encodeVarint_length {n v : ℕ} (hn : 0 < n) (h : v < 128 ^ n) :
    (encodeVarint v).length ≤ n :=
  encodeVarintAux_length n v v hn h

theorem decodeVarint_lt : ∀ {bs rest : Bytes} {v : ℕ},
    decodeVarint bs = some (v, rest) → rest.length < bs.length
  | [], _, _, h => by cases h
  | b :: bs, rest, v, h => by
    rw [decodeVarint] at h
    split_ifs at h
    · cases h
      simp
    · cases hd : decodeVarint bs with
      | none => simp [hd] at h
      | some p =>
        obtain ⟨w, r⟩ := p
        simp only [hd, Option.map_some, Option.some.injEq, Prod.mk.injEq] at h
        have := decodeVarint_lt hd
        simp only [List.length_cons, ← h.2]
        omega

/-- What follows a varint does not change how it decodes. -/
theorem decodeVarint_append : ∀ {bs rest : Bytes} {v : ℕ} (more : Bytes),
    decodeVarint bs = some (v, rest) → decodeVarint (bs ++ more) = some (v, rest ++ more)
  | [], _, _, _, h => by cases h
  | b :: bs, rest, v, more, h => by
    rw [decodeVarint] at h
    rw [List.cons_append, decodeVarint]
    split_ifs at h ⊢
    · cases h
      rfl
    · cases hd : decodeVarint bs with
      | none => simp [hd] at h
      | some p =>
        obtain ⟨w, r⟩ := p
        simp only [hd, Option.map_some, Option.some.injEq, Prod.mk.injEq] at h
        simp [decodeVarint_append more hd, h]

/-! ### Fields -/

/-- The value of a field. -/
inductive Value where
  | varint (v : ℕ)
  | len (bytes : Bytes)
  deriving DecidableEq

/-- A field number and a value. -/
abbrev Field := ℕ × Value

def tagVarint (n : ℕ) : ℕ := 8 * n

def tagLen (n : ℕ) : ℕ := 8 * n + 2

def encodeField : Field → Bytes
  | (n, .varint v) => encodeVarint (tagVarint n) ++ encodeVarint v
  | (n, .len b) => encodeVarint (tagLen n) ++ encodeVarint b.length ++ b

def encodeFields (fs : List Field) : Bytes := fs.flatMap encodeField

/-- The field at the front of the bytes and what follows it. -/
def decodeField (bs : Bytes) : Option (Field × Bytes) := do
  let (tag, bs) ← decodeVarint bs
  match tag % 8 with
  | 0 =>
    let (v, bs) ← decodeVarint bs
    some ((tag / 8, .varint v), bs)
  | 2 =>
    let (l, bs) ← decodeVarint bs
    if l ≤ bs.length then some ((tag / 8, .len (bs.take l)), bs.drop l) else none
  | _ => none

/-- At most `fuel` fields, to the end of the bytes. -/
def decodeFieldsAux : ℕ → Bytes → Option (List Field)
  | _, [] => some []
  | 0, _ :: _ => none
  | fuel + 1, b :: bs => do
    let (f, rest) ← decodeField (b :: bs)
    let fs ← decodeFieldsAux fuel rest
    some (f :: fs)

/-- All fields, to the end of the bytes. -/
def decodeFields (bs : Bytes) : Option (List Field) := decodeFieldsAux bs.length bs

theorem decodeField_lt {bs rest : Bytes} {f : Field} (h : decodeField bs = some (f, rest)) :
    rest.length < bs.length := by
  simp only [decodeField, Option.bind_eq_bind, Option.bind_eq_some_iff] at h
  obtain ⟨⟨tag, bs₁⟩, h₁, h⟩ := h
  have hlt := decodeVarint_lt h₁
  simp only at h
  split at h
  · simp only [Option.bind_eq_some_iff, Option.some.injEq, Prod.mk.injEq] at h
    obtain ⟨⟨v, bs₂⟩, h₂, -, rfl⟩ := h
    exact Nat.lt_trans (decodeVarint_lt h₂) hlt
  · simp only [Option.bind_eq_some_iff] at h
    obtain ⟨⟨l, bs₂⟩, h₂, h⟩ := h
    have := decodeVarint_lt h₂
    simp only at h
    split_ifs at h
    simp only [Option.some.injEq, Prod.mk.injEq] at h
    rw [← h.2, List.length_drop]
    omega
  · cases h

theorem decodeField_append {bs rest : Bytes} {f : Field} (more : Bytes)
    (h : decodeField bs = some (f, rest)) : decodeField (bs ++ more) = some (f, rest ++ more) := by
  simp only [decodeField, Option.bind_eq_bind, Option.bind_eq_some_iff] at h ⊢
  obtain ⟨⟨tag, bs₁⟩, h₁, h⟩ := h
  refine ⟨(tag, bs₁ ++ more), decodeVarint_append more h₁, ?_⟩
  simp only at h ⊢
  split at h
  · simp only [Option.bind_eq_some_iff, Option.some.injEq, Prod.mk.injEq] at h ⊢
    obtain ⟨⟨v, bs₂⟩, h₂, hf, rfl⟩ := h
    exact ⟨(v, bs₂ ++ more), decodeVarint_append more h₂, hf, rfl⟩
  · simp only [Option.bind_eq_some_iff] at h ⊢
    obtain ⟨⟨l, bs₂⟩, h₂, h⟩ := h
    refine ⟨(l, bs₂ ++ more), decodeVarint_append more h₂, ?_⟩
    simp only at h ⊢
    split_ifs at h with hl
    rw [if_pos (by rw [List.length_append]; omega), List.take_append_of_le_length hl,
      List.drop_append_of_le_length hl]
    simp only [Option.some.injEq, Prod.mk.injEq] at h ⊢
    exact ⟨h.1, by rw [h.2]⟩
  · cases h

/-- The tag of a length-delimited field is what its number says. -/
theorem decodeField_tagLen {b : UInt8} {bs rest x : Bytes} {n : ℕ} (hb : b.toNat < 128)
    (h : decodeField (b :: bs) = some ((n, .len x), rest)) : b.toNat = tagLen n := by
  have htag : decodeVarint (b :: bs) = some (b.toNat, bs) := by
    rw [decodeVarint, if_pos hb]
  simp only [decodeField, htag, Option.bind_eq_bind, Option.bind_some] at h
  split at h
  · rw [Option.bind_eq_some_iff] at h
    obtain ⟨_, _, h⟩ := h
    cases h
  · simp only [Option.bind_eq_some_iff] at h
    obtain ⟨_, _, h⟩ := h
    split_ifs at h
    simp only [Option.some.injEq, Prod.mk.injEq] at h
    unfold tagLen
    omega
  · cases h

/-- More fuel than bytes changes nothing: every field takes a byte. -/
theorem decodeFieldsAux_fuel : ∀ (n m : ℕ) (bs : Bytes), bs.length ≤ n → bs.length ≤ m →
    decodeFieldsAux n bs = decodeFieldsAux m bs
  | _, _, [], _, _ => by simp [decodeFieldsAux]
  | 0, _, b :: bs, h, _ => by simp at h
  | _, 0, b :: bs, _, h => by simp at h
  | n + 1, m + 1, b :: bs, hn, hm => by
    simp only [decodeFieldsAux, Option.bind_eq_bind]
    cases hd : decodeField (b :: bs) with
    | none => rfl
    | some p =>
      obtain ⟨f, rest⟩ := p
      have hlt := decodeField_lt hd
      simp only [Option.bind_some]
      rw [decodeFieldsAux_fuel n m rest (by omega) (by omega)]

/-- Decoding goes field by field. -/
theorem decodeFields_step {bs rest : Bytes} {f : Field} (h : decodeField bs = some (f, rest)) :
    decodeFields bs = (decodeFields rest).map (f :: ·) := by
  have hlt := decodeField_lt h
  cases bs with
  | nil => simp at hlt
  | cons b bs =>
    have hf : decodeFieldsAux bs.length rest = decodeFields rest :=
      decodeFieldsAux_fuel _ _ rest (by simp only [List.length_cons] at hlt; omega) (Nat.le_refl _)
    rw [decodeFields, List.length_cons, decodeFieldsAux]
    simp only [h, Option.bind_eq_bind, Option.bind_some, hf]
    cases decodeFields rest <;> rfl

@[simp] theorem decodeFields_nil : decodeFields [] = some [] := rfl

theorem decodeField_none {b : UInt8} {bs : Bytes} (h : decodeField (b :: bs) = none) :
    decodeFields (b :: bs) = none := by
  rw [decodeFields, List.length_cons, decodeFieldsAux]
  simp only [h, Option.bind_eq_bind, Option.bind_none]

theorem tag_div_mod (n w : ℕ) (hw : w < 8) : (8 * n + w) / 8 = n ∧ (8 * n + w) % 8 = w := by
  omega

theorem decodeField_encode : ∀ (f : Field) (rest : Bytes),
    decodeField (encodeField f ++ rest) = some (f, rest)
  | (n, .varint v), rest => by
    have h0 : 8 * n / 8 = n ∧ 8 * n % 8 = 0 := by omega
    simp [decodeField, encodeField, tagVarint, List.append_assoc, h0]
  | (n, .len b), rest => by
    obtain ⟨hd, hm⟩ := tag_div_mod n 2 (by omega)
    simp only [decodeField, encodeField, tagLen, List.append_assoc, decodeVarint_encode,
      Option.bind_eq_bind, Option.bind_some, hm]
    simp [hd]

/-- **Round trip**: the fields of an encoded message are those it was made of. -/
@[simp] theorem decodeFields_encode : ∀ fs : List Field, decodeFields (encodeFields fs) = some fs
  | [] => rfl
  | f :: fs => by
    rw [encodeFields, List.flatMap_cons, decodeFields_step (decodeField_encode f _)]
    have := decodeFields_encode fs
    rw [encodeFields] at this
    rw [this]
    rfl

/-- Behind a whole message, decoding goes on with its fields in front. -/
theorem decodeFields_append_map : ∀ {fs : List Field} {a : Bytes} (b : Bytes), decodeFields a = some fs →
    decodeFields (a ++ b) = (decodeFields b).map (fs ++ ·)
  | fs, [], b, ha => by
    simp only [decodeFields_nil, Option.some.injEq] at ha
    simp [← ha]
  | fs, x :: a, b, ha => by
    cases hd : decodeField (x :: a) with
    | none => rw [decodeField_none hd] at ha; cases ha
    | some p =>
      obtain ⟨f, rest⟩ := p
      have hlt := decodeField_lt hd
      rw [decodeFields_step hd, Option.map_eq_some_iff] at ha
      obtain ⟨fs', hr, rfl⟩ := ha
      rw [decodeFields_step (decodeField_append b hd), decodeFields_append_map b hr, Option.map_map]
      rfl
termination_by _ a => a.length
decreasing_by exact hlt

/-- Decoding a concatenation concatenates the fields. -/
theorem decodeFields_append {fs gs : List Field} {a b : Bytes} (ha : decodeFields a = some fs)
    (hb : decodeFields b = some gs) : decodeFields (a ++ b) = some (fs ++ gs) := by
  rw [decodeFields_append_map b ha, hb]
  rfl

/-- A length with nothing behind it: the message was cut off. -/
theorem decodeFields_cut (n : ℕ) {l : ℕ} (hl : 0 < l) :
    decodeFields (encodeVarint (tagLen n) ++ encodeVarint l) = none := by
  obtain ⟨hd, hm⟩ := tag_div_mod n 2 (by omega)
  have hlen : decodeVarint (encodeVarint l) = some (l, []) := by
    simpa using decodeVarint_encode l []
  have hnone : decodeField (encodeVarint (tagLen n) ++ encodeVarint l) = none := by
    simp only [decodeField, tagLen, decodeVarint_encode, Option.bind_eq_bind, Option.bind_some, hm, hlen]
    simp only [List.length_nil, Nat.le_zero]
    rw [if_neg (Nat.ne_of_gt hl)]
  cases hbs : encodeVarint (tagLen n) ++ encodeVarint l with
  | nil =>
    have := decodeVarint_encode (tagLen n) (encodeVarint l)
    rw [hbs] at this
    cases this
  | cons b bs => exact decodeField_none (hbs ▸ hnone)

/-- A length-delimited field whose length is in the fixed four-byte form. -/
theorem decodeFields_record (n : ℕ) {payload : Bytes} (h : payload.length < 2 ^ 28) (rest : Bytes) :
    decodeFields (encodeVarint (tagLen n) ++ redundantVarint payload.length ++ payload ++ rest) =
      (decodeFields rest).map ((n, .len payload) :: ·) := by
  apply decodeFields_step
  obtain ⟨hd, hm⟩ := tag_div_mod n 2 (by omega)
  simp only [decodeField, tagLen, List.append_assoc, decodeVarint_encode, decodeVarint_redundant h,
    Option.bind_eq_bind, Option.bind_some, hm]
  simp [hd]

end Wire
