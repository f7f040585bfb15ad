/-
# The append-only message writer

A writer of nested messages into a fixed buffer. The length of a nested
message is not known when its tag is written, so four bytes are reserved for
it and backfilled when the message is finalized. Where the buffer ends, the
writer asks its delegate for another one (`extend`, a parameter), and the
delegate may finalize and reset the messages that are being written: handles
to them are then stale, as they are in C++.

`runOps_opened` says what calls leave behind that have room, up to the
messages that are still open and what finalizing them will fill in.
`runOps_finalize` is the fast path: as long as the buffer has room, a
sequence of calls followed by finalizing the root appends `encode` of the
calls and never asks for a new buffer. `decodeFields_encode` reads it back.
`writeBytes_split` is the other path: where the buffer ends in a copy.

Key definitions: `Op`, `encode`, `encodeOpen`, `Message`, `StreamWriter`, `writeBytes`,
`reserveBytes`, `finalize`, `runOps`.
-/
import VPerfetto.Lib.Wire

namespace Protozero

open Wire

/-! ### Calls and the bytes they stand for -/

/-- A call on the innermost message that is open. -/
inductive Op where
  | varInt (id v : ℕ)
  | bytes (id : ℕ) (b : Bytes)
  | beginNested (id : ℕ)
deriving DecidableEq, Repr

/-- The bytes of a message written by these calls. A nested message stays
open, so the calls after `beginNested` are its fields. -/
def encode : List Op → Bytes
  | [] => []
  | .varInt id v :: ops => encodeField (id, .varint v) ++ encode ops
  | .bytes id b :: ops => encodeField (id, .len b) ++ encode ops
  | .beginNested id :: ops =>
    encodeVarint (tagLen id) ++ redundantVarint (encode ops).length ++ encode ops

/-- The bytes of the calls, where the innermost message they opened goes on
with `more`. -/
def encodeOpen (more : Bytes) : List Op → Bytes
  | [] => more
  | .varInt id v :: ops => encodeField (id, .varint v) ++ encodeOpen more ops
  | .bytes id b :: ops => encodeField (id, .len b) ++ encodeOpen more ops
  | .beginNested id :: ops =>
    encodeVarint (tagLen id) ++ redundantVarint (encodeOpen more ops).length ++ encodeOpen more ops

/-- The fields of the message. -/
def fields : List Op → List Field
  | [] => []
  | .varInt id v :: ops => (id, .varint v) :: fields ops
  | .bytes id b :: ops => (id, .len b) :: fields ops
  | .beginNested id :: ops => [(id, .len (encode ops))]

theorem redundantVarint_length (v : ℕ) : (redundantVarint v).length = 4 := by
  simp [redundantVarint]

theorem encode_append : ∀ pre post : List Op, encode (pre ++ post) = encodeOpen (encode post) pre
  | [], _ => rfl
  | .varInt id v :: pre, post => by
    rw [List.cons_append, encode, encode_append pre post, encodeOpen]
  | .bytes id b :: pre, post => by
    rw [List.cons_append, encode, encode_append pre post, encodeOpen]
  | .beginNested id :: pre, post => by
    rw [List.cons_append, encode, encode_append pre post, encodeOpen]

theorem encodeOpen_nil (ops : List Op) : encodeOpen [] ops = encode ops := by
  simpa [encode] using (encode_append ops []).symm

theorem encodeOpen_length (more : Bytes) : ∀ ops : List Op,
    (encodeOpen more ops).length = (encode ops).length + more.length
  | [] => by simp [encodeOpen, encode]
  | .varInt id v :: ops => by
    simp only [encodeOpen, encode, List.length_append, encodeOpen_length more ops]
    omega
  | .bytes id b :: ops => by
    simp only [encodeOpen, encode, List.length_append, encodeOpen_length more ops]
    omega
  | .beginNested id :: ops => by
    simp only [encodeOpen, encode, List.length_append, redundantVarint_length, encodeOpen_length more ops]
    omega

theorem decodeFields_encodeOpen_varInt (more : Bytes) (id v : ℕ) (ops : List Op) :
    decodeFields (encodeOpen more (.varInt id v :: ops))
      = (decodeFields (encodeOpen more ops)).map ((id, .varint v) :: ·) :=
  decodeFields_step (decodeField_encode _ _)

theorem decodeFields_encodeOpen_beginNested {more : Bytes} (id : ℕ) {ops : List Op}
    (h : (encodeOpen more ops).length < 2 ^ 28) :
    decodeFields (encodeOpen more (.beginNested id :: ops)) = some [(id, .len (encodeOpen more ops))] := by
  simpa [encodeOpen] using decodeFields_record id h []

/-- The later calls write no more than all of them. -/
theorem encode_drop_length (ops : List Op) : ∀ n, (encode (ops.drop n)).length ≤ (encode ops).length
  | 0 => Nat.le_refl _
  | n + 1 => by
    cases ops with
    | nil => exact Nat.le_refl _
    | cons op ops =>
      have ih := encode_drop_length ops n
      have htail : (encode ops).length ≤ (encode (op :: ops)).length := by
        cases op <;> simp only [encode, List.length_append] <;> omega
      exact Nat.le_trans ih htail

theorem decodeFields_encode : ∀ {ops : List Op}, (encode ops).length < 2 ^ 28 →
    decodeFields (encode ops) = some (fields ops)
  | [], _ => rfl
  | .varInt id v :: ops, h => by
    have hlen : (encode ops).length < 2 ^ 28 := by
      simp only [encode, List.length_append] at h
      omega
    rw [encode, decodeFields_step (decodeField_encode _ _), decodeFields_encode hlen]
    rfl
  | .bytes id b :: ops, h => by
    have hlen : (encode ops).length < 2 ^ 28 := by
      simp only [encode, List.length_append] at h
      omega
    rw [encode, decodeFields_step (decodeField_encode _ _), decodeFields_encode hlen]
    rfl
  | .beginNested id :: ops, h => by
    have hlen : (encode ops).length < 2 ^ 28 := by
      simp only [encode, List.length_append] at h
      omega
    have hrec := decodeFields_record id hlen []
    simpa [encode, fields] using hrec

/-! ### The writer -/

/-- The state of a message: the bytes it counts, the offset of its reserved
length, the child that is open. -/
structure Message where
  size : ℕ := 0
  sizeField : Option ℕ := none
  nested : Option ℕ := none
  finalized : Bool := false
deriving DecidableEq, Repr

/-- The buffer from its start to the write pointer, with the messages that
are being written into it: message 0 is the root, message `i + 1` is slot `i`
of the arena, of which the first `entries` are in use. -/
structure StreamWriter (δ : Type) where
  bytes : Bytes
  cap : ℕ
  messages : ℕ → Message
  entries : ℕ
  delegate : δ

section Writer

variable {δ : Type}

namespace StreamWriter

def bytesAvailable (s : StreamWriter δ) : ℕ := s.cap - s.bytes.length

def write (s : StreamWriter δ) (src : Bytes) : StreamWriter δ := { s with bytes := s.bytes ++ src }

def setMessage (s : StreamWriter δ) (h : ℕ) (m : Message) : StreamWriter δ :=
  { s with messages := Function.update s.messages h m }

/-- `RootMessage::Reset`: a fresh root and an empty arena. -/
def resetRoot (s : StreamWriter δ) : StreamWriter δ := { s.setMessage 0 {} with entries := 0 }

end StreamWriter

/-- Overwrite the four reserved bytes at `off`. -/
def backfill (bytes : Bytes) (off v : ℕ) : Bytes :=
  bytes.take off ++ redundantVarint v ++ bytes.drop (off + 4)

variable (extend : StreamWriter δ → Option (StreamWriter δ))

/-- `WriteBytesSlowPath`: fill what is left of the buffer, ask for another. -/
def writeBytesSlowPath : ℕ → Bytes → StreamWriter δ → Option (StreamWriter δ)
  | _, [], s => some s
  | 0, _ :: _, _ => none
  | fuel + 1, src, s => do
    let s ← if s.cap ≤ s.bytes.length then extend s else some s
    let burst := min s.bytesAvailable src.length
    writeBytesSlowPath fuel (src.drop burst) (s.write (src.take burst))

def writeBytes (fuel : ℕ) (src : Bytes) (s : StreamWriter δ) : Option (StreamWriter δ) :=
  if s.bytes.length + src.length ≤ s.cap then some (s.write src)
  else writeBytesSlowPath extend fuel src s

/-- Reserve contiguous bytes; their offset is returned. -/
def reserveBytes (size : ℕ) (s : StreamWriter δ) : Option (ℕ × StreamWriter δ) := do
  let s ← if s.cap < s.bytes.length + size then extend s else some s
  return (s.bytes.length, s.write (List.replicate size 0))

/-- `EndNestedMessage`, where a child is open. -/
def closeNested (finalize : ℕ → StreamWriter δ → Option (ℕ × StreamWriter δ)) (h : ℕ) (s : StreamWriter δ) :
    Option (StreamWriter δ) :=
  match (s.messages h).nested with
  | none => some s
  | some n => do
    let (size, s) ← finalize n s
    let m := s.messages h
    return { s.setMessage h { m with size := m.size + size, nested := none } with
      entries := s.entries - 1 }

/-- `Message::Finalize`: close the open child, backfill the reserved length,
seal the message. -/
def finalize : ℕ → ℕ → StreamWriter δ → Option (ℕ × StreamWriter δ)
  | 0, _, _ => none
  | fuel + 1, h, s =>
    if (s.messages h).finalized then some ((s.messages h).size, s) else do
      let s ← closeNested (finalize fuel) h s
      let m := s.messages h
      let s := match m.sizeField with
        | none => s
        | some off => { s with bytes := backfill s.bytes off m.size }
      return (m.size, s.setMessage h { m with sizeField := none, finalized := true })

def writeToStream (fuel h : ℕ) (src : Bytes) (s : StreamWriter δ) : Option (StreamWriter δ) := do
  let s ← writeBytes extend fuel src s
  let m := s.messages h
  return s.setMessage h { m with size := m.size + src.length }

def appendVarInt (fuel h id v : ℕ) (s : StreamWriter δ) : Option (StreamWriter δ) := do
  let s ← closeNested (finalize fuel) h s
  writeToStream extend fuel h (encodeField (id, .varint v)) s

def appendBytes (fuel h id : ℕ) (b : Bytes) (s : StreamWriter δ) : Option (StreamWriter δ) := do
  let s ← closeNested (finalize fuel) h s
  let s ← writeToStream extend fuel h (encodeVarint (tagLen id) ++ encodeVarint b.length) s
  writeToStream extend fuel h b s

/-- The message `n` becomes the open child of `h`, its length reserved at `off`. -/
def StreamWriter.attach (s : StreamWriter δ) (h n off : ℕ) : StreamWriter δ :=
  let s := s.setMessage n { s.messages n with sizeField := some off }
  let m := s.messages h
  s.setMessage h { m with size := m.size + 4, nested := some n }

/-- The handle of the new message is returned. -/
def beginNestedMessage (fuel h id : ℕ) (s : StreamWriter δ) : Option (ℕ × StreamWriter δ) := do
  let s ← closeNested (finalize fuel) h s
  let s ← writeToStream extend fuel h (encodeVarint (tagLen id)) s
  let n := s.entries + 1
  let s := { s.setMessage n {} with entries := n }
  let (off, s) ← reserveBytes extend 4 s
  return (n, s.attach h n off)

/-- Calls on the message `h` and on the messages opened below it. -/
def runOps (fuel : ℕ) : ℕ → List Op → StreamWriter δ → Option (StreamWriter δ)
  | _, [], s => some s
  | h, .varInt id v :: ops, s => do runOps fuel h ops (← appendVarInt extend fuel h id v s)
  | h, .bytes id b :: ops, s => do runOps fuel h ops (← appendBytes extend fuel h id b s)
  | h, .beginNested id :: ops, s => do
    let (n, s) ← beginNestedMessage extend fuel h id s
    runOps fuel n ops s

/-! ### The fast path -/

/-- The number of messages that the calls open. -/
def nesting : List Op → ℕ
  | [] => 0
  | .beginNested _ :: ops => nesting ops + 1
  | _ :: ops => nesting ops

/-- Bytes that a message writes, counted in its size. -/
def StreamWriter.append (s : StreamWriter δ) (h : ℕ) (src : Bytes) : StreamWriter δ :=
  (s.write src).setMessage h { s.messages h with size := (s.messages h).size + src.length }

/-- Backfill the length, where one is reserved. -/
def fillSize (sizeField : Option ℕ) (size : ℕ) (bytes : Bytes) : Bytes :=
  match sizeField with
  | none => bytes
  | some off => backfill bytes off size

@[simp] theorem setMessage_bytes (s : StreamWriter δ) (h : ℕ) (m : Message) :
    (s.setMessage h m).bytes = s.bytes := rfl

@[simp] theorem setMessage_cap (s : StreamWriter δ) (h : ℕ) (m : Message) :
    (s.setMessage h m).cap = s.cap := rfl

@[simp] theorem setMessage_delegate (s : StreamWriter δ) (h : ℕ) (m : Message) :
    (s.setMessage h m).delegate = s.delegate := rfl

@[simp] theorem setMessage_entries (s : StreamWriter δ) (h : ℕ) (m : Message) :
    (s.setMessage h m).entries = s.entries := rfl

@[simp] theorem setMessage_self (s : StreamWriter δ) (h : ℕ) (m : Message) :
    (s.setMessage h m).messages h = m := by
  simp [StreamWriter.setMessage]

theorem setMessage_of_ne (s : StreamWriter δ) {h i : ℕ} (m : Message) (hi : i ≠ h) :
    (s.setMessage h m).messages i = s.messages i := by
  simp [StreamWriter.setMessage, hi]

theorem append_append (s : StreamWriter δ) (h : ℕ) (a b : Bytes) :
    (s.append h a).append h b = s.append h (a ++ b) := by
  simp [StreamWriter.append, StreamWriter.write, StreamWriter.setMessage, Nat.add_assoc]

@[simp] theorem append_nil (s : StreamWriter δ) (h : ℕ) : s.append h [] = s := by
  simp [StreamWriter.append, StreamWriter.write, StreamWriter.setMessage]

theorem append_of_ne (s : StreamWriter δ) {h i : ℕ} (src : Bytes) (hi : i ≠ h) :
    (s.append h src).messages i = s.messages i :=
  setMessage_of_ne _ _ hi

theorem closeNested_none (f : ℕ → StreamWriter δ → Option (ℕ × StreamWriter δ)) {h : ℕ} {s : StreamWriter δ}
    (hn : (s.messages h).nested = none) : closeNested f h s = some s := by
  unfold closeNested
  rw [hn]

theorem writeToStream_fits (fuel h : ℕ) {src : Bytes} {s : StreamWriter δ}
    (hfit : s.bytes.length + src.length ≤ s.cap) :
    writeToStream extend fuel h src s = some (s.append h src) := by
  unfold writeToStream writeBytes
  rw [if_pos hfit]
  rfl

theorem appendVarInt_fits (fuel : ℕ) {h f v : ℕ} {s : StreamWriter δ}
    (hn : (s.messages h).nested = none)
    (hfit : s.bytes.length + (encodeField (f, .varint v)).length ≤ s.cap) :
    appendVarInt extend fuel h f v s = some (s.append h (encodeField (f, .varint v))) := by
  unfold appendVarInt
  rw [closeNested_none _ hn]
  exact writeToStream_fits extend fuel h hfit

theorem appendBytes_fits (fuel : ℕ) {h f : ℕ} {b : Bytes} {s : StreamWriter δ}
    (hn : (s.messages h).nested = none)
    (hfit : s.bytes.length + (encodeField (f, .len b)).length ≤ s.cap) :
    appendBytes extend fuel h f b s = some (s.append h (encodeField (f, .len b))) := by
  have hlen : (encodeField (f, .len b)).length
      = (encodeVarint (tagLen f) ++ encodeVarint b.length).length + b.length := by
    simp [encodeField]
    omega
  unfold appendBytes
  rw [closeNested_none _ hn]
  simp only [Option.bind_eq_bind, Option.bind_some]
  rw [writeToStream_fits extend fuel h (by omega)]
  simp only [Option.bind_some]
  rw [writeToStream_fits extend fuel h, append_append]
  · simp [encodeField]
  · have hb : (s.append h (encodeVarint (tagLen f) ++ encodeVarint b.length)).bytes
        = s.bytes ++ (encodeVarint (tagLen f) ++ encodeVarint b.length) := rfl
    rw [hb, List.length_append]
    show _ ≤ s.cap
    omega

/-- `u` is `s` with a message opened in message `h` after `tag`: its size field
is the four bytes just reserved. -/
structure Opens (h : ℕ) (tag : Bytes) (s u : StreamWriter δ) : Prop where
  bytes : u.bytes = s.bytes ++ tag ++ List.replicate 4 0
  cap : u.cap = s.cap
  delegate : u.delegate = s.delegate
  entries : u.entries = h + 1
  parent : u.messages h = { s.messages h with
    size := (s.messages h).size + tag.length + 4, nested := some (h + 1) }
  child : u.messages (h + 1) = { sizeField := some (s.bytes ++ tag).length }
  below : ∀ i < h, u.messages i = s.messages i

theorem reserveBytes_fits {n : ℕ} {s : StreamWriter δ} (hfit : s.bytes.length + n ≤ s.cap) :
    reserveBytes extend n s = some (s.bytes.length, s.write (List.replicate n 0)) := by
  unfold reserveBytes
  rw [if_neg (Nat.not_lt_of_le hfit)]
  rfl

/-- A message is opened once its tag is written and its length reserved. -/
theorem beginNestedMessage_of {fuel h f off : ℕ} {s a b : StreamWriter δ} (hn : (s.messages h).nested = none)
    (htag : writeToStream extend fuel h (encodeVarint (tagLen f)) s = some a)
    (hlen : reserveBytes extend 4 { a.setMessage (a.entries + 1) {} with entries := a.entries + 1 }
      = some (off, b)) :
    beginNestedMessage extend fuel h f s = some (a.entries + 1, b.attach h (a.entries + 1) off) := by
  unfold beginNestedMessage
  rw [closeNested_none _ hn]
  simp only [Option.bind_eq_bind, Option.bind_some, htag, hlen, Option.pure_def]

/-- With room for its tag and length, a message is opened. -/
theorem beginNestedMessage_fits (fuel : ℕ) {h f : ℕ} {s : StreamWriter δ} (he : s.entries = h)
    (hn : (s.messages h).nested = none)
    (hfit : s.bytes.length + ((encodeVarint (tagLen f)).length + 4) ≤ s.cap) :
    ∃ s', beginNestedMessage extend fuel h f s = some (h + 1, s') ∧ Opens h (encodeVarint (tagLen f)) s s' := by
  subst he
  generalize htag : encodeVarint (tagLen f) = tag at hfit ⊢
  let t : StreamWriter δ := { (s.append s.entries tag).setMessage (s.entries + 1) {} with
    entries := s.entries + 1 }
  have hb : t.bytes = s.bytes ++ tag := rfl
  have hwrite : writeToStream extend fuel s.entries (encodeVarint (tagLen f)) s = some (s.append s.entries tag) := by
    rw [htag]
    exact writeToStream_fits extend fuel _ (by omega)
  have hres : reserveBytes extend 4 t = some (t.bytes.length, t.write (List.replicate 4 0)) := by
    apply reserveBytes_fits extend
    rw [hb, List.length_append]
    show _ ≤ s.cap
    omega
  have hne : s.entries + 1 ≠ s.entries := Nat.succ_ne_self _
  have hth : (t.write (List.replicate 4 0)).messages s.entries
      = { s.messages s.entries with size := (s.messages s.entries).size + tag.length } := by
    show t.messages s.entries = _
    have h1 : t.messages s.entries = (s.append s.entries tag).messages s.entries :=
      setMessage_of_ne _ _ hne.symm
    rw [h1]
    exact setMessage_self _ _ _
  have htn : (t.write (List.replicate 4 0)).messages (s.entries + 1) = {} := setMessage_self _ _ _
  refine ⟨(t.write (List.replicate 4 0)).attach s.entries (s.entries + 1) t.bytes.length,
    beginNestedMessage_of extend (a := s.append s.entries tag) hn hwrite hres, rfl, rfl, rfl, rfl, ?_, ?_, ?_⟩
  · unfold StreamWriter.attach
    simp only [setMessage_self, setMessage_of_ne _ _ hne.symm, hth]
  · unfold StreamWriter.attach
    simp only [setMessage_self, setMessage_of_ne _ _ hne, htn, hb]
  · intro i hi
    unfold StreamWriter.attach
    simp only [setMessage_of_ne _ _ (show i ≠ s.entries by omega),
      setMessage_of_ne _ _ (show i ≠ s.entries + 1 by omega)]
    show t.messages i = _
    have h1 : t.messages i = (s.append s.entries tag).messages i :=
      setMessage_of_ne _ _ (by omega)
    rw [h1, append_of_ne _ _ (by omega)]

theorem backfill_reserved (a : Bytes) (v : ℕ) (b : Bytes) :
    backfill (a ++ List.replicate 4 0 ++ b) a.length v = a ++ redundantVarint v ++ b := by
  have h1 : (a ++ List.replicate 4 0 ++ b).take a.length = a := by simp
  have h2 : (a ++ List.replicate 4 0 ++ b).drop (a.length + 4) = b := by
    have : a.length + 4 = (a ++ List.replicate 4 (0 : UInt8)).length := by simp
    rw [this, List.drop_left]
  rw [backfill, h1, h2]

/-- Finalizing a message whose child is closed. -/
theorem finalize_childless (fuel : ℕ) {h : ℕ} {s : StreamWriter δ} (hn : (s.messages h).nested = none)
    (hf : (s.messages h).finalized = false) :
    finalize (fuel + 1) h s = some ((s.messages h).size,
      { s with bytes := fillSize (s.messages h).sizeField (s.messages h).size s.bytes }.setMessage h
        { s.messages h with sizeField := none, finalized := true }) := by
  unfold finalize
  rw [if_neg (by simp [hf]), closeNested_none _ hn]
  cases hsf : (s.messages h).sizeField with
  | none => simp [hsf, fillSize]
  | some off => simp [hsf, fillSize]

/-- Finalizing a message finalizes its open child first and counts its size. -/
theorem finalize_nested (fuel : ℕ) {h n size : ℕ} {s t : StreamWriter δ}
    (hn : (s.messages h).nested = some n) (hf : (s.messages h).finalized = false)
    (hchild : finalize fuel n s = some (size, t)) (hkeep : t.messages h = s.messages h) :
    ∃ u, finalize (fuel + 1) h s = some ((s.messages h).size + size, u) ∧
      u.bytes = fillSize (s.messages h).sizeField ((s.messages h).size + size) t.bytes ∧
      u.cap = t.cap ∧ u.delegate = t.delegate ∧ u.entries = t.entries - 1 ∧
      ∀ i ≠ h, u.messages i = t.messages i := by
  let m : Message := { s.messages h with size := (s.messages h).size + size, nested := none }
  let c : StreamWriter δ := { t.setMessage h m with entries := t.entries - 1 }
  have hclose : closeNested (finalize fuel) h s = some c := by
    unfold closeNested
    rw [hn]
    simp only [Option.bind_eq_bind, hchild, Option.bind_some, hkeep]
    rfl
  have hm : c.messages h = m := setMessage_self t h m
  refine ⟨{ c with bytes := fillSize m.sizeField m.size c.bytes }.setMessage h
    { m with sizeField := none, finalized := true }, ?_, rfl, rfl, rfl, rfl, fun i hi => ?_⟩
  · unfold finalize
    rw [if_neg (by simp [hf]), hclose]
    simp only [Option.bind_eq_bind, Option.bind_some, hm]
    cases hsf : m.sizeField with
    | none => rfl
    | some off => rfl
  · rw [setMessage_of_ne _ _ hi]
    exact setMessage_of_ne _ _ hi

def StreamWriter.withDelegate (s : StreamWriter δ) (d : δ) : StreamWriter δ := { s with delegate := d }

/-- Finalizing does not look at the delegate. -/
theorem finalize_withDelegate (d : δ) : ∀ (k h : ℕ) (s : StreamWriter δ),
    finalize k h (s.withDelegate d) = (finalize k h s).map fun r => (r.1, r.2.withDelegate d)
  | 0, _, _ => rfl
  | k + 1, h, s => by
    have hm : (s.withDelegate d).messages = s.messages := rfl
    have hclose : closeNested (finalize k) h (s.withDelegate d)
        = (closeNested (finalize k) h s).map (StreamWriter.withDelegate · d) := by
      unfold closeNested
      rw [hm]
      cases (s.messages h).nested with
      | none => rfl
      | some n =>
        simp only [finalize_withDelegate d k n s, Option.bind_eq_bind]
        cases finalize k n s <;> rfl
    unfold finalize
    rw [hm, hclose]
    by_cases hf : (s.messages h).finalized = true
    · simp [hf]
    · simp only [hf, Bool.false_eq_true, if_false, Option.bind_eq_bind]
      cases hc : closeNested (finalize k) h s with
      | none => rfl
      | some u =>
        have hu : (u.withDelegate d).messages = u.messages := rfl
        simp only [Option.map_some, Option.bind_some, hu]
        cases (u.messages h).sizeField <;> rfl

theorem finalize_delegate {k h n : ℕ} {s t : StreamWriter δ} (hf : finalize k h s = some (n, t)) :
    t.delegate = s.delegate := by
  have hd := finalize_withDelegate s.delegate k h s
  have hs : s.withDelegate s.delegate = s := rfl
  rw [hs, hf, Option.map_some, Option.some_inj, Prod.mk.injEq] at hd
  have ht : t.delegate = (t.withDelegate s.delegate).delegate := congrArg StreamWriter.delegate hd.2
  exact ht

/-- Calls on the message `h` of `s` came to `out`: they appended `enc`, up to
the lengths that finalizing `h` fills in, and left the messages below `h` and
the delegate alone. -/
def Writes (k h : ℕ) (s : StreamWriter δ) (out : Option (StreamWriter δ)) (enc : Bytes) : Prop :=
  ∃ s' t, out = some s' ∧ (∀ i < h, s'.messages i = s.messages i) ∧
    finalize k h s' = some ((s.messages h).size + enc.length, t) ∧
    t.bytes = fillSize (s.messages h).sizeField ((s.messages h).size + enc.length) (s.bytes ++ enc) ∧
    t.cap = s.cap ∧ t.delegate = s.delegate ∧ t.entries = h ∧ ∀ i < h, t.messages i = s.messages i

/-- The calls came to `s'`, with the message that they opened last still open.
Whatever is then appended to that message and counted (`x`), and whatever
follows uncounted (`y`), finalizing `h` fills in the lengths of the first. -/
structure Opened (h : ℕ) (ops : List Op) (s s' : StreamWriter δ) : Prop where
  bytes_length : s'.bytes.length = s.bytes.length + (encode ops).length
  cap : s'.cap = s.cap
  delegate : s'.delegate = s.delegate
  entries : s'.entries = h + nesting ops
  innermost : (s'.messages (h + nesting ops)).nested = none
  below : ∀ i < h, s'.messages i = s.messages i
  finalizes : ∀ {k : ℕ} {x y : Bytes} {u : StreamWriter δ}, nesting ops < k →
    u.bytes = s'.bytes ++ x ++ y →
    (∀ i ≤ h + nesting ops, u.messages i = (s'.append (h + nesting ops) x).messages i) →
    ∃ t, finalize k h u = some ((s.messages h).size + (encodeOpen x ops).length, t) ∧
      t.bytes = fillSize (s.messages h).sizeField ((s.messages h).size + (encodeOpen x ops).length)
        (s.bytes ++ encodeOpen x ops ++ y) ∧
      t.cap = u.cap ∧ t.delegate = u.delegate ∧ t.entries = u.entries - nesting ops ∧
      (t.messages (h + nesting ops)).nested = none ∧ ∀ i < h, t.messages i = u.messages i

theorem Opened.nil {h : ℕ} {s : StreamWriter δ} (he : s.entries = h) (hn : (s.messages h).nested = none)
    (hf : (s.messages h).finalized = false) : Opened h [] s s where
  bytes_length := rfl
  cap := rfl
  delegate := rfl
  entries := he
  innermost := hn
  below := fun _ _ => rfl
  finalizes := by
    intro k x y u hk hb hm
    obtain ⟨k, rfl⟩ : ∃ j, k = j + 1 := ⟨k - 1, by omega⟩
    have hmsg : u.messages h = { s.messages h with size := (s.messages h).size + x.length } := by
      rw [hm h (Nat.le_refl h)]
      exact setMessage_self _ _ _
    have hun : (u.messages h).nested = none := by
      rw [hmsg]
      exact hn
    have huf : (u.messages h).finalized = false := by
      rw [hmsg]
      exact hf
    refine ⟨{ u with bytes := fillSize (u.messages h).sizeField (u.messages h).size u.bytes }.setMessage h
      { u.messages h with sizeField := none, finalized := true }, ?_, ?_, rfl, rfl, rfl, ?_, fun i hi => ?_⟩
    · rw [finalize_childless k hun huf, hmsg]
      rfl
    · rw [setMessage_bytes, hmsg, hb]
      rfl
    · exact (congrArg Message.nested (setMessage_self _ _ _)).trans hun
    · exact setMessage_of_ne _ _ (Nat.ne_of_lt hi)

theorem Opened.of_append {h : ℕ} {s s' : StreamWriter δ} {src : Bytes} {op : Op} {ops : List Op}
    (henc : ∀ x, encodeOpen x (op :: ops) = src ++ encodeOpen x ops)
    (hnest : nesting (op :: ops) = nesting ops) (ho : Opened h ops (s.append h src) s') :
    Opened h (op :: ops) s s' := by
  have hm : (s.append h src).messages h
      = { s.messages h with size := (s.messages h).size + src.length } := setMessage_self _ _ _
  have hb : (s.append h src).bytes = s.bytes ++ src := rfl
  refine ⟨?_, ho.cap, ho.delegate, ?_, ?_, fun i hi => ?_, ?_⟩
  · have hlen := ho.bytes_length
    rw [← encodeOpen_nil] at hlen ⊢
    rw [hb] at hlen
    rw [hlen, henc]
    simp only [List.length_append]
    omega
  · rw [hnest]
    exact ho.entries
  · rw [hnest]
    exact ho.innermost
  · rw [ho.below i hi, append_of_ne _ _ (Nat.ne_of_lt hi)]
  · intro k x y u hk hub hum
    rw [hnest] at hk hum ⊢
    obtain ⟨t, hfin, htb, hcap, hdel, hent, hin, hkeep⟩ := ho.finalizes hk hub hum
    have hsize : (s.messages h).size + src.length + (encodeOpen x ops).length
        = (s.messages h).size + (encodeOpen x (op :: ops)).length := by
      rw [henc, List.length_append, Nat.add_assoc]
    rw [hm] at hfin htb
    refine ⟨t, ?_, ?_, hcap, hdel, hent, hin, hkeep⟩
    · rw [← hsize]
      exact hfin
    · rw [← hsize, htb, hb, henc]
      simp only [List.append_assoc]

/-- The parent finalizes the child, and the child's length is filled in there. -/
theorem Opened.of_child {h id : ℕ} {s u s' : StreamWriter δ} {ops : List Op}
    (hopens : Opens h (encodeVarint (tagLen id)) s u) (hf : (s.messages h).finalized = false)
    (ho : Opened (h + 1) ops u s') : Opened h (.beginNested id :: ops) s s' := by
  have hnest : nesting (.beginNested id :: ops) = nesting ops + 1 := rfl
  have hadd : h + (nesting ops + 1) = h + 1 + nesting ops := by omega
  refine ⟨?_, ?_, ?_, ?_, ?_, fun i hi => ?_, ?_⟩
  · rw [ho.bytes_length, hopens.bytes]
    simp only [encode, List.length_append, List.length_replicate, redundantVarint_length]
    omega
  · rw [ho.cap, hopens.cap]
  · rw [ho.delegate, hopens.delegate]
  · rw [hnest, hadd, ho.entries]
  · rw [hnest, hadd]
    exact ho.innermost
  · rw [ho.below i (by omega), hopens.below i hi]
  · intro k x y v hk hvb hvm
    rw [hnest] at hk
    rw [hnest, hadd] at hvm ⊢
    obtain ⟨k, rfl⟩ : ∃ j, k = j + 1 := ⟨k - 1, by omega⟩
    obtain ⟨t, hfin, htb, hcap, hdel, hent, hin, hkeep⟩ := ho.finalizes (Nat.lt_of_succ_lt_succ hk) hvb hvm
    have hparent : v.messages h = u.messages h := by
      rw [hvm h (by omega), append_of_ne _ _ (by omega), ho.below h (Nat.lt_succ_self h)]
    have ht : t.messages h = v.messages h := hkeep h (Nat.lt_succ_self h)
    obtain ⟨w, hw, hwb, hwc, hwd, hwe, hwm⟩ := finalize_nested k (n := h + 1)
      (by rw [hparent, hopens.parent]) (by rw [hparent, hopens.parent]; exact hf) hfin ht
    have hsize : (v.messages h).size + ((u.messages (h + 1)).size + (encodeOpen x ops).length)
        = (s.messages h).size + (encodeOpen x (.beginNested id :: ops)).length := by
      rw [hparent, hopens.parent, hopens.child]
      simp only [encodeOpen, List.length_append, redundantVarint_length]
      omega
    have hbytes : t.bytes = s.bytes ++ encodeOpen x (.beginNested id :: ops) ++ y := by
      calc t.bytes
          = backfill (s.bytes ++ encodeVarint (tagLen id) ++ List.replicate 4 0 ++ encodeOpen x ops ++ y)
              (s.bytes ++ encodeVarint (tagLen id)).length (encodeOpen x ops).length := by
            rw [htb, hopens.child, hopens.bytes, Nat.zero_add]
            rfl
        _ = s.bytes ++ encodeVarint (tagLen id) ++ redundantVarint (encodeOpen x ops).length ++
              (encodeOpen x ops ++ y) := by rw [List.append_assoc _ (encodeOpen x ops) y, backfill_reserved]
        _ = s.bytes ++ encodeOpen x (.beginNested id :: ops) ++ y := by
            simp only [encodeOpen, List.append_assoc]
    refine ⟨w, ?_, ?_, ?_, ?_, ?_, ?_, fun i hi => ?_⟩
    · rw [hw, hsize]
    · rw [hwb, hsize, hbytes, hparent, hopens.parent]
    · rw [hwc, hcap]
    · rw [hwd, hdel]
    · rw [hwe, hent]
      omega
    · rw [hwm _ (by omega)]
      exact hin
    · rw [hwm i (Nat.ne_of_lt hi), hkeep i (by omega)]

/-- **Calls with room.** They never ask for another buffer, and the calls that
follow go on in the message that was opened last. -/
theorem runOps_opened (fuel : ℕ) : ∀ (ops : List Op) {h : ℕ} {s : StreamWriter δ}, s.entries = h →
    (s.messages h).nested = none → (s.messages h).finalized = false →
    s.bytes.length + (encode ops).length ≤ s.cap →
    ∃ s', (∀ post, runOps extend fuel h (ops ++ post) s = runOps extend fuel (h + nesting ops) post s') ∧
      Opened h ops s s'
  | [], h, s, he, hn, hf, _ => ⟨s, fun _ => rfl, Opened.nil he hn hf⟩
  | .varInt id v :: ops, h, s, he, hn, hf, hfit => by
    simp only [encode, List.length_append] at hfit
    have happend := appendVarInt_fits extend fuel (h := h) (f := id) (v := v) hn (by omega)
    obtain ⟨s', hrun, ho⟩ := runOps_opened fuel ops (s := s.append h (encodeField (id, .varint v))) he
      (by simpa [StreamWriter.append] using hn) (by simpa [StreamWriter.append] using hf) (by
        simp only [StreamWriter.append, setMessage_bytes, StreamWriter.write, List.length_append, setMessage_cap]
        omega)
    refine ⟨s', fun post => ?_, ho.of_append (fun _ => rfl) rfl⟩
    rw [List.cons_append, runOps, happend]
    exact hrun post
  | .bytes id b :: ops, h, s, he, hn, hf, hfit => by
    simp only [encode, List.length_append] at hfit
    have happend := appendBytes_fits extend fuel (h := h) (f := id) (b := b) hn (by omega)
    obtain ⟨s', hrun, ho⟩ := runOps_opened fuel ops (s := s.append h (encodeField (id, .len b))) he
      (by simpa [StreamWriter.append] using hn) (by simpa [StreamWriter.append] using hf) (by
        simp only [StreamWriter.append, setMessage_bytes, StreamWriter.write, List.length_append, setMessage_cap]
        omega)
    refine ⟨s', fun post => ?_, ho.of_append (fun _ => rfl) rfl⟩
    rw [List.cons_append, runOps, happend]
    exact hrun post
  | .beginNested id :: ops, h, s, he, hn, hf, hfit => by
    simp only [encode, List.length_append, redundantVarint_length] at hfit
    obtain ⟨u, hbegin, hopens⟩ := beginNestedMessage_fits extend fuel (f := id) he hn (by omega)
    have hroom : u.bytes.length + (encode ops).length ≤ u.cap := by
      rw [hopens.bytes, hopens.cap]
      simp only [List.length_append, List.length_replicate]
      omega
    obtain ⟨s', hrun, ho⟩ := runOps_opened fuel ops hopens.entries (by rw [hopens.child])
      (by rw [hopens.child]) hroom
    refine ⟨s', fun post => ?_, ho.of_child hopens hf⟩
    have hadd : h + nesting (.beginNested id :: ops) = h + 1 + nesting ops := by
      simp only [nesting]
      omega
    rw [List.cons_append, runOps, hbegin, hadd]
    exact hrun post

/-- **The fast path.** With room for all of them, the calls append their
encoding and never ask for another buffer. -/
theorem runOps_finalize (fuel : ℕ) (ops : List Op) {k h : ℕ} {s : StreamWriter δ} (he : s.entries = h)
    (hn : (s.messages h).nested = none) (hf : (s.messages h).finalized = false)
    (hfit : s.bytes.length + (encode ops).length ≤ s.cap) (hk : nesting ops < k) :
    Writes k h s (runOps extend fuel h ops s) (encode ops) := by
  obtain ⟨s', hrun, ho⟩ := runOps_opened extend fuel ops he hn hf hfit
  obtain ⟨t, hfin, hbytes, hcap, hdel, hent, -, hkeep⟩ := ho.finalizes (u := s') (x := []) (y := [])
    hk (by simp) (fun i _ => by rw [append_nil])
  rw [encodeOpen_nil] at hfin hbytes
  have hrunAll : runOps extend fuel h ops s = some s' := by
    simpa [runOps] using hrun []
  refine ⟨s', t, hrunAll, ho.below, hfin, ?_, hcap.trans ho.cap, hdel.trans ho.delegate, ?_, fun i hi => ?_⟩
  · simpa using hbytes
  · rw [hent, ho.entries, Nat.add_sub_cancel]
  · rw [hkeep i hi, ho.below i hi]

/-! ### Where the buffer ends -/

/-- One turn of the loop. -/
theorem writeBytesSlowPath_step (fuel : ℕ) {src : Bytes} {s t : StreamWriter δ} (hsrc : src ≠ [])
    (hext : (if s.cap ≤ s.bytes.length then extend s else some s) = some t) :
    writeBytesSlowPath extend (fuel + 1) src s
      = writeBytesSlowPath extend fuel (src.drop (min t.bytesAvailable src.length))
          (t.write (src.take (min t.bytesAvailable src.length))) := by
  obtain ⟨x, src, rfl⟩ := List.exists_cons_of_ne_nil hsrc
  rw [writeBytesSlowPath]
  · by_cases hend : s.cap ≤ s.bytes.length
    · rw [if_pos hend] at hext ⊢
      simp only [hext, Option.bind_eq_bind, Option.bind_some]
    · rw [if_neg hend, Option.some_inj] at hext
      rw [if_neg hend, hext, Option.bind_eq_bind, Option.bind_some]
  · exact List.cons_ne_nil _ _

/-- At the end of the buffer the loop goes on in the one that the delegate gives. -/
theorem writeBytesSlowPath_extend {fuel : ℕ} {src : Bytes} {s u : StreamWriter δ} (hfuel : src.length ≤ fuel)
    (hsrc : src ≠ []) (hend : s.cap ≤ s.bytes.length) (hext : extend s = some u) (hroom : u.bytes.length < u.cap) :
    writeBytesSlowPath extend fuel src s = writeBytesSlowPath extend fuel src u := by
  have hpos := List.length_pos_of_ne_nil hsrc
  obtain ⟨fuel, rfl⟩ : ∃ f, fuel = f + 1 := ⟨fuel - 1, by omega⟩
  rw [writeBytesSlowPath_step extend fuel hsrc ((if_pos hend).trans hext),
    writeBytesSlowPath_step extend fuel hsrc (if_neg (Nat.not_le_of_lt hroom))]

theorem writeBytesSlowPath_fits {fuel : ℕ} {src : Bytes} {s : StreamWriter δ} (hfuel : src.length ≤ fuel)
    (hfit : s.bytes.length + src.length ≤ s.cap) : writeBytesSlowPath extend fuel src s = some (s.write src) := by
  cases src with
  | nil => cases fuel <;> simp [writeBytesSlowPath, StreamWriter.write]
  | cons x src =>
    rw [List.length_cons] at hfuel hfit
    obtain ⟨fuel, rfl⟩ : ∃ f, fuel = f + 1 := ⟨fuel - 1, by omega⟩
    have hburst : min s.bytesAvailable (x :: src).length = (x :: src).length := by
      unfold StreamWriter.bytesAvailable
      rw [List.length_cons]
      omega
    rw [writeBytesSlowPath_step extend fuel (List.cons_ne_nil x src) (if_neg (by omega)), hburst, List.drop_length,
      List.take_length]
    cases fuel <;> rfl

/-- A delegate that gives no room is asked for another buffer for ever. -/
theorem writeBytesSlowPath_stuck (hext : ∀ s u, extend s = some u → u.cap ≤ u.bytes.length) :
    ∀ (fuel : ℕ) {src : Bytes} {s : StreamWriter δ}, src ≠ [] → s.cap ≤ s.bytes.length →
      writeBytesSlowPath extend fuel src s = none
  | 0, [], s, hsrc, _ => absurd rfl hsrc
  | 0, x :: src, s, _, _ => rfl
  | fuel + 1, src, s, hsrc, hend => by
    cases hu : extend s with
    | none =>
      obtain ⟨x, src, rfl⟩ := List.exists_cons_of_ne_nil hsrc
      rw [writeBytesSlowPath]
      · rw [if_pos hend, hu]
        rfl
      · exact List.cons_ne_nil _ _
    | some u =>
      have hnone : u.bytesAvailable = 0 := Nat.sub_eq_zero_of_le (hext s u hu)
      have hwrite : u.write [] = u := by simp [StreamWriter.write]
      rw [writeBytesSlowPath_step extend fuel hsrc ((if_pos hend).trans hu), hnone, Nat.zero_min, List.drop_zero,
        List.take_zero, hwrite]
      exact writeBytesSlowPath_stuck hext fuel hsrc (hext s u hu)

theorem writeBytes_stuck (hext : ∀ s u, extend s = some u → u.cap ≤ u.bytes.length) (fuel : ℕ) {src : Bytes}
    {s : StreamWriter δ} (hsrc : src ≠ []) (hend : s.cap ≤ s.bytes.length) :
    writeBytes extend fuel src s = none := by
  have hpos := List.length_pos_of_ne_nil hsrc
  unfold writeBytes
  rw [if_neg (by omega)]
  exact writeBytesSlowPath_stuck extend hext fuel hsrc hend

/-- Bytes that do not fit: the buffer is filled to its end, and the delegate is
asked for another one in the middle of the copy. -/
theorem writeBytes_split {fuel : ℕ} {src : Bytes} {s u : StreamWriter δ} (hlen : s.bytes.length ≤ s.cap)
    (hcut : s.cap < s.bytes.length + src.length) (hfuel : src.length ≤ fuel)
    (hext : extend (s.write (src.take s.bytesAvailable)) = some u) (hroom : u.bytes.length < u.cap) :
    ∃ fuel', (src.drop s.bytesAvailable).length ≤ fuel' ∧
      writeBytes extend fuel src s = writeBytesSlowPath extend fuel' (src.drop s.bytesAvailable) u := by
  have hslow : writeBytes extend fuel src s = writeBytesSlowPath extend fuel src s := by
    unfold writeBytes
    rw [if_neg (by omega)]
  have havail : s.bytesAvailable = s.cap - s.bytes.length := rfl
  have hleft : src.drop s.bytesAvailable ≠ [] := by
    rw [← List.length_pos_iff, List.length_drop]
    omega
  rw [hslow]
  rcases Nat.eq_or_lt_of_le hlen with heq | hlt
  · have hzero : s.bytesAvailable = 0 := by omega
    have hwrite : s.write [] = s := by simp [StreamWriter.write]
    rw [hzero, List.take_zero, hwrite] at hext
    rw [hzero, List.drop_zero] at hleft ⊢
    exact ⟨fuel, hfuel, writeBytesSlowPath_extend extend hfuel hleft (Nat.le_of_eq heq.symm) hext hroom⟩
  · -- a first turn fills the buffer
    have hsrc : src ≠ [] := by
      rw [← List.length_pos_iff]
      omega
    obtain ⟨fuel, rfl⟩ : ∃ f, fuel = f + 1 := ⟨fuel - 1, by omega⟩
    have hburst : min s.bytesAvailable src.length = s.bytesAvailable := by omega
    have hdrop : (src.drop s.bytesAvailable).length ≤ fuel := by
      rw [List.length_drop]
      omega
    refine ⟨fuel, hdrop, ?_⟩
    rw [writeBytesSlowPath_step extend fuel hsrc (if_neg (Nat.not_le_of_lt hlt)), hburst]
    refine writeBytesSlowPath_extend extend hdrop hleft ?_ hext hroom
    simp only [StreamWriter.write, List.length_append, List.length_take]
    omega

end Writer

end Protozero
