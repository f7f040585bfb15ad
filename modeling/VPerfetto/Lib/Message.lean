/-
# Messages over the wire format

Codecs for the values of fields, from which codecs for message types are put
together: `repField` and `optField` write a record's fields, `getAll` and
`getLast` read them back, in any order and past unknown fields. The simp
lemmas here reduce the round trip of a message type with distinct field
numbers to `simp`.

Key definitions: `ValueCodec`, `ValueCodec.message`, `repField`, `optField`,
`getAll`, `getLast`.
-/
import VPerfetto.Lib.Wire

namespace Wire

/-- A type whose values can be written as the value of a field and read back. -/
structure ValueCodec (α : Type) where
  enc : α → Value
  dec : Value → Option α
  dec_enc : ∀ a, dec (enc a) = some a

namespace ValueCodec

attribute [simp] dec_enc

def uint64 : ValueCodec UInt64 where
  enc v := .varint v.toNat
  dec
    | .varint n => some (UInt64.ofNat n)
    | .len _ => none
  dec_enc v := by simp

def uint32 : ValueCodec UInt32 where
  enc v := .varint v.toNat
  dec
    | .varint n => some (UInt32.ofNat n)
    | .len _ => none
  dec_enc v := by simp

/-- An `int32` is sign extended to 64 bits, so a negative one takes ten bytes. -/
def int32 : ValueCodec Int32 where
  enc v := .varint v.toInt64.toUInt64.toNat
  dec
    | .varint n => some (UInt64.ofNat n).toInt64.toInt32
    | .len _ => none
  dec_enc v := by simp

/-- A nested message. -/
def message {α : Type} (toFields : α → List Field) (ofFields : List Field → α)
    (h : ∀ a, ofFields (toFields a) = a) : ValueCodec α where
  enc a := .len (encodeFields (toFields a))
  dec
    | .varint _ => none
    | .len b => (decodeFields b).map ofFields
  dec_enc a := by simp [h]

end ValueCodec

/-! ### The fields of a record -/

section Fields

variable {α β : Type}

def repField (c : ValueCodec α) (n : ℕ) (l : List α) : List Field := l.map fun a => (n, c.enc a)

def optField (c : ValueCodec α) (n : ℕ) (o : Option α) : List Field := repField c n o.toList

/-- The values of field `n`, in order. -/
def getAll (c : ValueCodec α) (n : ℕ) (fs : List Field) : List α :=
  fs.filterMap fun f => if f.1 = n then c.dec f.2 else none

/-- The last value of field `n`, which is the one that counts. -/
def getLast (c : ValueCodec α) (n : ℕ) (fs : List Field) : Option α := (getAll c n fs).getLast?

@[simp] theorem getAll_nil (c : ValueCodec α) (n : ℕ) : getAll c n [] = [] := rfl

@[simp] theorem getAll_append (c : ValueCodec α) (n : ℕ) (fs gs : List Field) :
    getAll c n (fs ++ gs) = getAll c n fs ++ getAll c n gs := by
  simp [getAll]

@[simp] theorem getAll_cons_ne (c : ValueCodec α) {n m : ℕ} (h : m ≠ n) (v : Value) (fs : List Field) :
    getAll c n ((m, v) :: fs) = getAll c n fs := by
  simp [getAll, h]

@[simp] theorem getAll_repField (c : ValueCodec α) (n : ℕ) (l : List α) :
    getAll c n (repField c n l) = l := by
  simp [getAll, repField, List.filterMap_map]

@[simp] theorem getAll_repField_ne (c : ValueCodec α) (d : ValueCodec β) {n m : ℕ} (h : m ≠ n)
    (l : List β) : getAll c n (repField d m l) = [] := by
  simp [getAll, repField, h]

@[simp] theorem getAll_optField (c : ValueCodec α) (n : ℕ) (o : Option α) :
    getAll c n (optField c n o) = o.toList :=
  getAll_repField c n _

@[simp] theorem getAll_optField_ne (c : ValueCodec α) (d : ValueCodec β) {n m : ℕ} (h : m ≠ n)
    (o : Option β) : getAll c n (optField d m o) = [] :=
  getAll_repField_ne c d h _

@[simp] theorem getLast?_toList (o : Option α) : o.toList.getLast? = o := by
  cases o <;> rfl

/-- A reader that looks at other fields finds nothing among these. -/
theorem filterMap_repField (g : Field → Option β) (c : ValueCodec α) (n : ℕ) (l : List α)
    (h : ∀ v, g (n, v) = none) : (repField c n l).filterMap g = [] := by
  simp [repField, h]

theorem filterMap_optField (g : Field → Option β) (c : ValueCodec α) (n : ℕ) (o : Option α)
    (h : ∀ v, g (n, v) = none) : (optField c n o).filterMap g = [] :=
  filterMap_repField g c n _ h

end Fields

end Wire
