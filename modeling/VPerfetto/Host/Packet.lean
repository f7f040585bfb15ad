/-
# The packets of the host trace

The trace packets a `TraceContext` writes, as the calls it makes on the
message writer, and the reader of a host trace: a file is a sequence of
length-delimited fields 1, each of them a `TracePacket` of which the fields
used here are read by number.

Key definitions: `Packet`, `Packet.ops`, `Packet.bytes`, `HostPacket`,
`decodePacket`, `decodeTrace`, `Packet.record`.
Key theorems: `decodePacket_encode`, `decodeTrace_bytes`, `Packet.bytes_length_le`.
-/
import VPerfetto.Lib.Protozero

namespace VPerfetto
namespace Host

open Wire Protozero

/-- The packets written by `ensureThreadInfo`, `beginTrace`, `endTrace` and
`traceCounter`, with what goes into them. -/
inductive Packet where
  | sequenceStart
  | category (iid : UInt32) (name : Bytes)
  | threadTrack (threadId : UInt32)
  | eventName (iid : UInt32) (name : Bytes)
  | sliceBegin (timestamp : UInt64) (threadId categoryIid nameIid : UInt32)
  | sliceEnd (timestamp : UInt64) (threadId categoryIid nameIid : UInt32)
  | counterTrack (uuid : UInt64) (threadId : UInt32) (name : Bytes)
  | counter (timestamp uuid : UInt64) (value : Int64)
deriving DecidableEq, Repr

def kSequenceId : ℕ := 1

/-- `"gfxstream"`. -/
def kCategory : Bytes := [103, 102, 120, 115, 116, 114, 101, 97, 109]

/-- `SEQ_INCREMENTAL_STATE_CLEARED`. -/
def seqIncrementalStateCleared : UInt32 := 1

/-- A number as a stream prints it. -/
def decimal (n : ℕ) : Bytes := (Nat.toDigits 10 n).map fun c => UInt8.ofNat c.toNat

/-- `"emu-"` and the thread id. -/
def getTrackNameFromThreadId (threadId : UInt32) : Bytes :=
  [101, 109, 117, 45] ++ decimal threadId.toNat

/-- `"emu-"`, the thread id, `"-count-"` and the counter's name. -/
def getTrackNameFromThreadIdAndCounterName (threadId : UInt32) (counterName : Bytes) : Bytes :=
  [101, 109, 117, 45] ++ decimal threadId.toNat ++ [45, 99, 111, 117, 110, 116, 45] ++ counterName

/-- The calls on `mPacket` between `beginPacket` and `endPacket`, in their order. -/
def Packet.ops : Packet → List Op
  | .sequenceStart => [.varInt 10 1, .varInt 13 1]
  | .category iid name =>
    [.varInt 10 kSequenceId, .varInt 13 2, .beginNested 12, .beginNested 1, .varInt 1 iid.toNat,
      .bytes 2 name]
  | .threadTrack threadId =>
    [.varInt 10 kSequenceId, .varInt 13 2, .beginNested 60, .varInt 1 threadId.toNat,
      .bytes 2 (getTrackNameFromThreadId threadId)]
  | .eventName iid name =>
    [.varInt 10 kSequenceId, .varInt 13 2, .beginNested 12, .beginNested 2, .varInt 1 iid.toNat,
      .bytes 2 name]
  | .sliceBegin timestamp threadId categoryIid nameIid =>
    [.varInt 10 kSequenceId, .varInt 13 2, .varInt 8 timestamp.toNat, .beginNested 11,
      .varInt 11 threadId.toNat, .varInt 3 categoryIid.toNat, .varInt 10 nameIid.toNat, .varInt 9 1]
  | .sliceEnd timestamp threadId categoryIid nameIid =>
    [.varInt 10 kSequenceId, .varInt 13 2, .varInt 8 timestamp.toNat, .beginNested 11,
      .varInt 3 categoryIid.toNat, .varInt 11 threadId.toNat, .varInt 10 nameIid.toNat, .varInt 9 2]
  -- no sequence id and no flags here
  | .counterTrack uuid threadId name =>
    [.beginNested 60, .varInt 1 uuid.toNat,
      .bytes 2 (getTrackNameFromThreadIdAndCounterName threadId name), .beginNested 8]
  | .counter timestamp uuid value =>
    [.varInt 10 kSequenceId, .varInt 13 2, .varInt 8 timestamp.toNat, .beginNested 11,
      .varInt 11 uuid.toNat, .varInt 9 4, .varInt 30 value.toUInt64.toNat]

/-- The packet in a buffer: the preamble of field 1, a length of four bytes,
the payload. -/
def Packet.bytes (p : Packet) : Bytes :=
  encodeVarint (tagLen 1) ++ redundantVarint (encode p.ops).length ++ encode p.ops

/-! ### Reading a host trace -/

/-- An `EventCategory` or an `EventName`. -/
structure InternedString where
  iid : Option UInt64
  name : Option Bytes
deriving DecidableEq, Repr

structure InternedData where
  eventCategories : List InternedString
  eventNames : List InternedString
deriving DecidableEq, Repr

structure TrackEvent where
  categoryIids : List UInt64
  nameIid : Option UInt64
  type : Option UInt32
  trackUuid : Option UInt64
  counterValue : Option Int64
deriving DecidableEq, Repr

structure TrackDescriptor where
  uuid : Option UInt64
  name : Option Bytes
  isCounter : Bool
deriving DecidableEq, Repr

/-- The fields of a `TracePacket` that the host writes. -/
structure HostPacket where
  timestamp : Option UInt64 := none
  trustedPacketSequenceId : Option UInt32 := none
  sequenceFlags : Option UInt32 := none
  internedData : Option InternedData := none
  trackEvent : Option TrackEvent := none
  trackDescriptor : Option TrackDescriptor := none
deriving DecidableEq, Repr

/-- The values of a varint field, in order. -/
def varints (n : ℕ) : List Field → List ℕ
  | [] => []
  | (m, .varint v) :: fs => if m = n then v :: varints n fs else varints n fs
  | (_, .len _) :: fs => varints n fs

/-- The values of a length-delimited field, in order. -/
def lens (n : ℕ) : List Field → List Bytes
  | [] => []
  | (m, .len b) :: fs => if m = n then b :: lens n fs else lens n fs
  | (_, .varint _) :: fs => lens n fs

/-- The value of an optional message field, if it can be read. -/
def nestedMessage {α : Type} (decode : List Field → Option α) (n : ℕ) (fs : List Field) :
    Option (Option α) :=
  match (lens n fs).getLast? with
  | none => some none
  | some b => ((decodeFields b).bind decode).map some

def readInternedString (fs : List Field) : Option InternedString :=
  some ⟨(varints 1 fs).getLast?.map UInt64.ofNat, (lens 2 fs).getLast?⟩

def readInternedData (fs : List Field) : Option InternedData := do
  let categories ← (lens 1 fs).mapM fun b => (decodeFields b).bind readInternedString
  let names ← (lens 2 fs).mapM fun b => (decodeFields b).bind readInternedString
  return ⟨categories, names⟩

def readTrackEvent (fs : List Field) : Option TrackEvent :=
  some ⟨(varints 3 fs).map UInt64.ofNat, (varints 10 fs).getLast?.map UInt64.ofNat,
    (varints 9 fs).getLast?.map UInt32.ofNat, (varints 11 fs).getLast?.map UInt64.ofNat,
    (varints 30 fs).getLast?.map fun v => (UInt64.ofNat v).toInt64⟩

def readTrackDescriptor (fs : List Field) : Option TrackDescriptor :=
  some ⟨(varints 1 fs).getLast?.map UInt64.ofNat, (lens 2 fs).getLast?, !(lens 8 fs).isEmpty⟩

def readPacket (fs : List Field) : Option HostPacket := do
  let internedData ← nestedMessage readInternedData 12 fs
  let trackEvent ← nestedMessage readTrackEvent 11 fs
  let trackDescriptor ← nestedMessage readTrackDescriptor 60 fs
  return ⟨(varints 8 fs).getLast?.map UInt64.ofNat, (varints 10 fs).getLast?.map UInt32.ofNat,
    (varints 13 fs).getLast?.map UInt32.ofNat, internedData, trackEvent, trackDescriptor⟩

def decodePacket (payload : Bytes) : Option HostPacket := (decodeFields payload).bind readPacket

/-- A trace file: complete length-delimited fields 1 and nothing else. -/
def decodeTrace (file : Bytes) : Option (List HostPacket) :=
  (decodeFields file).bind fun fs => fs.mapM fun
    | (1, .len payload) => decodePacket payload
    | _ => none

/-- What a reader sees of a packet. -/
def Packet.record : Packet → HostPacket
  | .sequenceStart =>
    { trustedPacketSequenceId := some 1, sequenceFlags := some seqIncrementalStateCleared }
  | .category iid name =>
    { trustedPacketSequenceId := some 1, sequenceFlags := some 2
      internedData := some ⟨[⟨some iid.toUInt64, some name⟩], []⟩ }
  | .threadTrack threadId =>
    { trustedPacketSequenceId := some 1, sequenceFlags := some 2
      trackDescriptor :=
        some ⟨some threadId.toUInt64, some (getTrackNameFromThreadId threadId), false⟩ }
  | .eventName iid name =>
    { trustedPacketSequenceId := some 1, sequenceFlags := some 2
      internedData := some ⟨[], [⟨some iid.toUInt64, some name⟩]⟩ }
  | .sliceBegin timestamp threadId categoryIid nameIid =>
    { timestamp := some timestamp, trustedPacketSequenceId := some 1, sequenceFlags := some 2
      trackEvent := some ⟨[categoryIid.toUInt64], some nameIid.toUInt64, some 1,
        some threadId.toUInt64, none⟩ }
  | .sliceEnd timestamp threadId categoryIid nameIid =>
    { timestamp := some timestamp, trustedPacketSequenceId := some 1, sequenceFlags := some 2
      trackEvent := some ⟨[categoryIid.toUInt64], some nameIid.toUInt64, some 2,
        some threadId.toUInt64, none⟩ }
  | .counterTrack uuid threadId name =>
    { trackDescriptor :=
        some ⟨some uuid, some (getTrackNameFromThreadIdAndCounterName threadId name), true⟩ }
  | .counter timestamp uuid value =>
    { timestamp := some timestamp, trustedPacketSequenceId := some 1, sequenceFlags := some 2
      trackEvent := some ⟨[], none, some 4, some uuid, some value⟩ }

/-- A message nested in a packet is read back as its own fields. -/
theorem decodeFields_drop {p : Packet} (h : (encode p.ops).length < 2 ^ 28) (n : ℕ) :
    decodeFields (encode (p.ops.drop n)) = some (fields (p.ops.drop n)) :=
  Protozero.decodeFields_encode (Nat.lt_of_le_of_lt (encode_drop_length _ n) h)

/-- A packet is read back as what went into it. -/
theorem decodePacket_encode (p : Packet) (h : (encode p.ops).length < 2 ^ 28) :
    decodePacket (encode p.ops) = some p.record := by
  unfold decodePacket
  rw [Protozero.decodeFields_encode h]
  cases p with
  | sequenceStart => rfl
  | category iid name =>
    have h1 := decodeFields_drop h 3
    have h2 := decodeFields_drop h 4
    simp only [Packet.ops, List.drop_succ_cons, List.drop_zero] at h1 h2
    simp [Packet.ops, fields, readPacket, nestedMessage, lens, varints, h1, h2, readInternedData,
      readInternedString, Packet.record, kSequenceId]
  | eventName iid name =>
    have h1 := decodeFields_drop h 3
    have h2 := decodeFields_drop h 4
    simp only [Packet.ops, List.drop_succ_cons, List.drop_zero] at h1 h2
    simp [Packet.ops, fields, readPacket, nestedMessage, lens, varints, h1, h2, readInternedData,
      readInternedString, Packet.record, kSequenceId]
  | threadTrack threadId =>
    have h1 := decodeFields_drop h 3
    simp only [Packet.ops, List.drop_succ_cons, List.drop_zero] at h1
    simp [Packet.ops, fields, readPacket, nestedMessage, lens, varints, h1, readTrackDescriptor,
      Packet.record, kSequenceId]
  | counterTrack uuid threadId name =>
    have h1 := decodeFields_drop h 1
    simp only [Packet.ops, List.drop_succ_cons, List.drop_zero] at h1
    simp [Packet.ops, fields, readPacket, nestedMessage, lens, varints, h1, readTrackDescriptor,
      Packet.record]
  | sliceBegin timestamp threadId categoryIid nameIid =>
    have h1 := decodeFields_drop h 4
    simp only [Packet.ops, List.drop_succ_cons, List.drop_zero] at h1
    simp [Packet.ops, fields, readPacket, nestedMessage, lens, varints, h1, readTrackEvent,
      Packet.record, kSequenceId]
  | sliceEnd timestamp threadId categoryIid nameIid =>
    have h1 := decodeFields_drop h 4
    simp only [Packet.ops, List.drop_succ_cons, List.drop_zero] at h1
    simp [Packet.ops, fields, readPacket, nestedMessage, lens, varints, h1, readTrackEvent,
      Packet.record, kSequenceId]
  | counter timestamp uuid value =>
    have h1 := decodeFields_drop h 4
    have hv : Int64.ofNat value.toUInt64.toNat = value := by
      rw [← UInt64.toInt64_ofNat', UInt64.ofNat_toNat]
      exact Int64.toInt64_toUInt64 value
    simp only [Packet.ops, List.drop_succ_cons, List.drop_zero] at h1
    simp [Packet.ops, fields, readPacket, nestedMessage, lens, varints, h1, readTrackEvent,
      Packet.record, kSequenceId, hv]

theorem mapM_some {α β : Type} {f : α → Option β} {g : α → β} {l : List α}
    (h : ∀ a ∈ l, f a = some (g a)) : l.mapM f = some (l.map g) := by
  induction l with
  | nil => rfl
  | cons a l ih =>
    rw [List.mapM_cons, h a List.mem_cons_self, ih fun b hb => h b (List.mem_cons_of_mem a hb)]
    rfl

theorem mapM_none {α β : Type} {f : α → Option β} {a : α} {l : List α} (ha : a ∈ l) (hf : f a = none) :
    l.mapM f = none := by
  induction l with
  | nil => cases ha
  | cons b l ih =>
    rw [List.mapM_cons]
    rcases List.mem_cons.mp ha with rfl | ha
    · rw [hf]
      rfl
    · rw [ih ha]
      cases f b <;> rfl

/-- **A file of complete packets reads as those packets, in order.** -/
theorem decodeTrace_bytes {ps : List Packet} (h : ∀ p ∈ ps, (encode p.ops).length < 2 ^ 28) :
    decodeTrace (ps.flatMap Packet.bytes) = some (ps.map Packet.record) := by
  have hfields : decodeFields (ps.flatMap Packet.bytes)
      = some (ps.map fun p => (1, .len (encode p.ops))) := by
    induction ps with
    | nil => rfl
    | cons p ps ih =>
      have hp := decodeFields_record 1 (h p List.mem_cons_self) (ps.flatMap Packet.bytes)
      rw [List.flatMap_cons, Packet.bytes, hp, ih fun q hq => h q (List.mem_cons_of_mem p hq)]
      rfl
  unfold decodeTrace
  rw [hfields, Option.bind_some, List.mapM_map]
  exact mapM_some fun p hp => decodePacket_encode p (h p hp)

/-! ### The size of a packet -/

/-- The names in a packet have at most `n` bytes. -/
def Packet.namesLe (n : ℕ) : Packet → Prop
  | .category _ name => name.length ≤ n
  | .eventName _ name => name.length ≤ n
  | .counterTrack _ _ name => name.length ≤ n
  | _ => True

theorem decimal_length (n : UInt32) : (decimal n.toNat).length ≤ 10 := by
  unfold decimal
  rw [List.length_map, Nat.length_toDigits_le_iff (by omega) (by omega)]
  have := n.toNat_lt
  omega

theorem encodeField_varint_length {j k f v : ℕ} (hj : 0 < j) (hid : 8 * f < 128 ^ j) (hk : 0 < k)
    (hv : v < 128 ^ k) : (encodeField (f, .varint v)).length ≤ j + k := by
  have h1 := encodeVarint_length hj hid
  have h2 := encodeVarint_length hk hv
  simp only [encodeField, tagVarint, List.length_append]
  omega

theorem encodeField_len_length {k f : ℕ} {b : Bytes} (hid : 8 * f + 2 < 128) (hk : 0 < k)
    (hb : b.length < 128 ^ k) : (encodeField (f, .len b)).length ≤ 1 + k + b.length := by
  have h1 := encodeVarint_length (n := 1) (by omega) (show tagLen f < 128 ^ 1 by simpa [tagLen] using hid)
  have h2 := encodeVarint_length hk hb
  simp only [encodeField, List.length_append]
  omega

theorem encodeVarint_tagLen_length {j f : ℕ} (hj : 0 < j) (hid : 8 * f + 2 < 128 ^ j) :
    (encodeVarint (tagLen f)).length ≤ j :=
  encodeVarint_length hj hid

theorem encodeField_uint32_length {f : ℕ} (hid : f < 16) (v : UInt32) :
    (encodeField (f, .varint v.toNat)).length ≤ 6 :=
  encodeField_varint_length (j := 1) (k := 5) (by omega) (by omega) (by omega)
    (Nat.lt_of_lt_of_le v.toNat_lt (by decide))

theorem encodeField_uint64_length {j f : ℕ} (hj : 0 < j) (hid : 8 * f < 128 ^ j) (v : UInt64) :
    (encodeField (f, .varint v.toNat)).length ≤ j + 10 :=
  encodeField_varint_length (k := 10) hj hid (by omega) (Nat.lt_of_lt_of_le v.toNat_lt (by decide))

/-- The timestamp and the tag of a packet with a track event. -/
theorem trackEvent_length (timestamp : UInt64) :
    (encodeField (8, .varint timestamp.toNat)).length + (encodeVarint (tagLen 11)).length ≤ 12 := by
  have hts := encodeField_uint64_length (f := 8) (j := 1) (by omega) (by omega) timestamp
  have htag := encodeVarint_tagLen_length (j := 1) (f := 11) (by omega) (by omega)
  omega

/-- **A packet with names of at most 150 bytes takes at most 208 bytes**, so a
buffer with that much room holds it. -/
theorem Packet.bytes_length_le {p : Packet} (h : p.namesLe 150) : p.bytes.length ≤ 208 := by
  have hhead := encodeVarint_tagLen_length (j := 1) (f := 1) (by omega) (by omega)
  have hseq := encodeField_varint_length (j := 1) (k := 1) (f := 10) (v := kSequenceId) (by omega)
    (by omega) (by omega) (by decide)
  have hflags := encodeField_varint_length (j := 1) (k := 1) (f := 13) (v := 2) (by omega)
    (by omega) (by omega) (by decide)
  unfold Packet.bytes
  simp only [List.length_append, redundantVarint_length]
  cases p with
  | sequenceStart => decide
  | category iid name =>
    have h12 := encodeVarint_tagLen_length (j := 1) (f := 12) (by omega) (by omega)
    have hiid := encodeField_uint32_length (f := 1) (by omega) iid
    have hname := encodeField_len_length (k := 2) (f := 2) (b := name) (by omega) (by omega)
      (Nat.lt_of_le_of_lt h (by decide))
    simp only [Packet.namesLe] at h
    simp only [Packet.ops, encode, List.length_append, redundantVarint_length, List.length_nil]
    omega
  | eventName iid name =>
    have h12 := encodeVarint_tagLen_length (j := 1) (f := 12) (by omega) (by omega)
    have h2 := encodeVarint_tagLen_length (j := 1) (f := 2) (by omega) (by omega)
    have hiid := encodeField_uint32_length (f := 1) (by omega) iid
    have hname := encodeField_len_length (k := 2) (f := 2) (b := name) (by omega) (by omega)
      (Nat.lt_of_le_of_lt h (by decide))
    simp only [Packet.namesLe] at h
    simp only [Packet.ops, encode, List.length_append, redundantVarint_length, List.length_nil]
    omega
  | threadTrack threadId =>
    have h60 := encodeVarint_tagLen_length (j := 2) (f := 60) (by omega) (by omega)
    have huuid := encodeField_uint32_length (f := 1) (by omega) threadId
    have hname : (getTrackNameFromThreadId threadId).length ≤ 14 := by
      have := decimal_length threadId
      simp only [getTrackNameFromThreadId, List.length_append, List.length_cons, List.length_nil]
      omega
    have hfield := encodeField_len_length (k := 2) (f := 2) (b := getTrackNameFromThreadId threadId)
      (by omega) (by omega) (Nat.lt_of_le_of_lt hname (by decide))
    simp only [Packet.ops, encode, List.length_append, redundantVarint_length, List.length_nil]
    omega
  | counterTrack uuid threadId name =>
    have h60 := encodeVarint_tagLen_length (j := 2) (f := 60) (by omega) (by omega)
    have h8 := encodeVarint_tagLen_length (j := 1) (f := 8) (by omega) (by omega)
    have huuid := encodeField_uint64_length (f := 1) (j := 1) (by omega) (by omega) uuid
    have hname : (getTrackNameFromThreadIdAndCounterName threadId name).length ≤ 171 := by
      have := decimal_length threadId
      simp only [Packet.namesLe] at h
      simp only [getTrackNameFromThreadIdAndCounterName, List.length_append, List.length_cons,
        List.length_nil]
      omega
    have hfield := encodeField_len_length (k := 2) (f := 2)
      (b := getTrackNameFromThreadIdAndCounterName threadId name)
      (by omega) (by omega) (Nat.lt_of_le_of_lt hname (by decide))
    simp only [Packet.ops, encode, List.length_append, redundantVarint_length, List.length_nil]
    omega
  | sliceBegin timestamp threadId categoryIid nameIid =>
    have hev := trackEvent_length timestamp
    have hthread := encodeField_uint32_length (f := 11) (by omega) threadId
    have hcategory := encodeField_uint32_length (f := 3) (by omega) categoryIid
    have hname := encodeField_uint32_length (f := 10) (by omega) nameIid
    have htype : (encodeField (9, .varint 1)).length = 2 := by decide
    simp only [Packet.ops, encode, List.length_append, redundantVarint_length, List.length_nil]
    omega
  | sliceEnd timestamp threadId categoryIid nameIid =>
    have hev := trackEvent_length timestamp
    have hthread := encodeField_uint32_length (f := 11) (by omega) threadId
    have hcategory := encodeField_uint32_length (f := 3) (by omega) categoryIid
    have hname := encodeField_uint32_length (f := 10) (by omega) nameIid
    have htype : (encodeField (9, .varint 2)).length = 2 := by decide
    simp only [Packet.ops, encode, List.length_append, redundantVarint_length, List.length_nil]
    omega
  | counter timestamp uuid value =>
    have hev := trackEvent_length timestamp
    have huuid := encodeField_uint64_length (f := 11) (j := 1) (by omega) (by omega) uuid
    have hvalue := encodeField_uint64_length (f := 30) (j := 2) (by omega) (by omega) value.toUInt64
    have htype : (encodeField (9, .varint 4)).length = 2 := by decide
    simp only [Packet.ops, encode, List.length_append, redundantVarint_length, List.length_nil]
    omega

end Host
end VPerfetto
