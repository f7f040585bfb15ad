/-
# The trace buffer of a thread

The part of `TraceContext` that moves bytes: `allocTraceBuffer`,
`saveLocked`, `finishAndRefresh`, `beginPacket`, `endPacket` and the delegate
`GetNewBuffer` of the stream writer.

A packet that fits in 208 bytes never reaches the end of the buffer, since
`beginPacket` makes that much room: `writePacket_fits` says that such a packet
ends up in the buffer as the bytes of `Packet.bytes`.

Key definitions: `TraceBuffer`, `SavedTraceInfo`, `beginPacket`,
`getNewBuffer`, `writePacket`.
-/
import VPerfetto.Host.Packet

namespace VPerfetto
namespace Host

open Wire Protozero

/-- What `TraceStorage` keeps of a buffer: the bytes up to the write pointer. -/
structure SavedTraceInfo where
  data : Bytes
  allocSize : ℕ
  first : Bool
deriving DecidableEq, Repr

/-- `mTraceBuffer` is not null, `mFirst`, `mWritingPacket`. -/
structure BufferFlags where
  allocated : Bool := false
  first : Bool := false
  writingPacket : Bool := false
deriving DecidableEq, Repr

/-- The writer with the messages of `mPacket` and the flags of the context. -/
abbrev TraceBuffer := StreamWriter BufferFlags

/-- The buffer together with `mSavedTraces`, to which it is moved when full. -/
abbrev Writing := StreamWriter (BufferFlags × List SavedTraceInfo)

def emptyBuffer : TraceBuffer :=
  { bytes := [], cap := 0, messages := fun _ => {}, entries := 0, delegate := {} }

/-- A call starts writing with the saved traces as they are. -/
def TraceBuffer.start (b : TraceBuffer) (saved : List SavedTraceInfo) : Writing :=
  { bytes := b.bytes, cap := b.cap, messages := b.messages, entries := b.entries
    delegate := (b.delegate, saved) }

def Writing.buffer (w : Writing) : TraceBuffer :=
  { bytes := w.bytes, cap := w.cap, messages := w.messages, entries := w.entries
    delegate := w.delegate.1 }

def Writing.saved (w : Writing) : List SavedTraceInfo := w.delegate.2

/-- `saveLocked` and `saveTraceLocked`: a buffer that is not null goes to the
saved traces. This is the part of the reset that a partial one does too. -/
def TraceBuffer.save (b : TraceBuffer) (saved : List SavedTraceInfo) :
    TraceBuffer × List SavedTraceInfo :=
  ({ b with delegate := { b.delegate with allocated := false, first := false } },
    if b.delegate.allocated then saved ++ [⟨b.bytes, b.cap, b.delegate.first⟩] else saved)

section Packets

-- the size of a new buffer, `perThreadStorageMb * 1048576` in 32 bits
variable (size : ℕ)

def allocTraceBuffer (w : Writing) : Writing :=
  { w with
    bytes := [], cap := size
    delegate := ({ w.delegate.1 with allocated := true }, w.delegate.2) }

def finishAndRefresh (w : Writing) : Writing :=
  let (b, saved) := w.buffer.save w.saved
  allocTraceBuffer size (if w.delegate.1.allocated then b.start saved else w)

/-- `kPacketHeaderSize + 4 + kTrackEventPadding`. -/
def neededSpace : ℕ := 4 + 4 + 200

/-- The first half of `beginPacket`. -/
def makeRoom (w : Writing) : Writing :=
  let w := if w.delegate.1.allocated then w else allocTraceBuffer size w
  if w.bytesAvailable < neededSpace then finishAndRefresh size w else w

def setWritingPacket (b : Bool) (w : Writing) : Writing :=
  { w with delegate := ({ w.delegate.1 with writingPacket := b }, w.delegate.2) }

/-- `beginPacket`, over what the writer does where the buffer ends. -/
def beginPacketWith (extend : Writing → Option Writing) (fuel : ℕ) (w : Writing) : Option Writing := do
  let w := (makeRoom size w).resetRoot
  let w ← writeBytes extend fuel (encodeVarint (tagLen 1)) w
  let (off, w) ← reserveBytes extend 4 w
  return setWritingPacket true (w.setMessage 0 { w.messages 0 with sizeField := some off })

/-- Close the packet that is being written, save the buffer and begin the
packet again in a new one. -/
def getNewBuffer : ℕ → Writing → Option Writing
  | 0, _ => none
  | fuel + 1, w => do
    let w ← if w.delegate.1.writingPacket then (finalize fuel 0 w).map (·.2) else some w
    let w := finishAndRefresh size w
    if w.delegate.1.writingPacket then beginPacketWith size (getNewBuffer fuel) fuel w else some w

def beginPacket (fuel : ℕ) (w : Writing) : Option Writing :=
  beginPacketWith size (getNewBuffer size fuel) fuel w

def endPacket (fuel : ℕ) (w : Writing) : Option Writing :=
  (finalize fuel 0 (setWritingPacket false w)).map (·.2)

def writePacket (fuel : ℕ) (p : Packet) (w : Writing) : Option Writing := do
  let w ← beginPacket size fuel w
  let w ← runOps (getNewBuffer size fuel) fuel 0 p.ops w
  endPacket fuel w

/-- The packets of a call, in order. -/
def writePackets (fuel : ℕ) : List Packet → Writing → Option Writing
  | [], w => some w
  | p :: ps, w => do writePackets fuel ps (← writePacket size fuel p w)

/-! ### A packet that fits -/

variable {size}

theorem makeRoom_available (hsize : neededSpace ≤ size) {w : Writing} :
    (makeRoom size w).bytes.length + neededSpace ≤ (makeRoom size w).cap := by
  unfold makeRoom
  generalize (if w.delegate.1.allocated then w else allocTraceBuffer size w) = u
  by_cases h : u.bytesAvailable < neededSpace
  · simpa [h, finishAndRefresh, allocTraceBuffer] using hsize
  · have hroom : neededSpace ≤ u.cap - u.bytes.length := Nat.le_of_not_lt h
    simp only [h, if_false]
    unfold neededSpace at hroom ⊢
    omega

theorem Packet.nesting_le (p : Packet) : nesting p.ops ≤ 2 := by
  cases p <;> simp [Packet.ops, nesting]

/-- A packet opened behind `r`: its tag, and four bytes for its length. -/
def openedPacket (r : Writing) (tag : Bytes) : Writing :=
  setWritingPacket true (((r.resetRoot.write tag).write (List.replicate 4 0)).setMessage 0
    { sizeField := some (r.bytes ++ tag).length })

theorem openedPacket_message (r : Writing) (tag : Bytes) :
    (openedPacket r tag).messages 0 = { sizeField := some (r.bytes ++ tag).length } :=
  setMessage_self ((r.resetRoot.write tag).write (List.replicate 4 0)) 0 _

theorem beginPacket_fits (fuel : ℕ) {w r : Writing} (hr : makeRoom size w = r)
    (hroom : r.bytes.length + (encodeVarint (tagLen 1)).length + 4 ≤ r.cap) :
    beginPacket size fuel w = some (openedPacket r (encodeVarint (tagLen 1))) := by
  generalize htag : encodeVarint (tagLen 1) = tag at hroom ⊢
  have hwrite : writeBytes (getNewBuffer size fuel) fuel tag r.resetRoot = some (r.resetRoot.write tag) := by
    unfold writeBytes
    rw [if_pos]
    show r.bytes.length + tag.length ≤ r.cap
    omega
  have hreserve := reserveBytes_fits (getNewBuffer size fuel) (n := 4) (s := r.resetRoot.write tag) (by
    show (r.bytes ++ tag).length + 4 ≤ r.cap
    rw [List.length_append]
    omega)
  have h0 : ((r.resetRoot.write tag).write (List.replicate 4 0)).messages 0 = {} := setMessage_self r 0 {}
  unfold beginPacket beginPacketWith
  rw [hr, htag]
  simp only [Option.bind_eq_bind, hwrite, Option.bind_some, hreserve]
  rw [h0]
  rfl

/-- A finalized packet is ended, and the flag for an open packet is cleared. -/
theorem endPacket_finalized {fuel n : ℕ} {r s t : Writing} {tag : Bytes} (hfin : finalize fuel 0 s = some (n, t))
    (hdel : s.delegate = (openedPacket r tag).delegate) :
    endPacket fuel s = some (t.withDelegate (setWritingPacket false r).delegate) := by
  have hset : setWritingPacket false s = s.withDelegate (setWritingPacket false r).delegate := by
    unfold setWritingPacket StreamWriter.withDelegate
    rw [hdel]
    rfl
  unfold endPacket
  rw [hset, finalize_withDelegate, hfin]
  rfl

/-- **A packet that fits.** With fuel for its nested messages the packet is
written whole, as `Packet.bytes`, behind what the buffer has after `makeRoom`. -/
theorem writePacket_room {fuel : ℕ} (hfuel : 2 < fuel) {p : Packet} {w : Writing}
    (hp : (makeRoom size w).bytes.length + p.bytes.length ≤ (makeRoom size w).cap) :
    ∃ w', writePacket size fuel p w = some w' ∧
      w'.bytes = (makeRoom size w).bytes ++ p.bytes ∧ w'.cap = (makeRoom size w).cap ∧
      w'.delegate = (setWritingPacket false (makeRoom size w)).delegate := by
  generalize hr : makeRoom size w = r at hp
  have hlen : p.bytes.length = (encodeVarint (tagLen 1)).length + 4 + (encode p.ops).length := by
    rw [Packet.bytes, List.length_append, List.length_append, redundantVarint_length]
  rw [hlen] at hp
  have hbegin := beginPacket_fits fuel hr (by omega)
  generalize htag : encodeVarint (tagLen 1) = tag at hp hbegin
  set o := openedPacket r tag with ho
  have hmsg : o.messages 0 = { sizeField := some (r.bytes ++ tag).length } := openedPacket_message r tag
  have hob : o.bytes = r.bytes ++ tag ++ List.replicate 4 0 := rfl
  have hfit : o.bytes.length + (encode p.ops).length ≤ o.cap := by
    show _ ≤ r.cap
    rw [hob]
    simp only [List.length_append, List.length_replicate]
    omega
  have hnest : nesting p.ops < fuel := Nat.lt_of_le_of_lt p.nesting_le hfuel
  obtain ⟨s', t, hrun, -, hfin, hbytes, hcap, hdel, -, -⟩ := runOps_finalize (getNewBuffer size fuel) fuel
    p.ops (k := fuel) (h := 0) (s := o) rfl (by rw [hmsg]) (by rw [hmsg]) hfit hnest
  have hend := endPacket_finalized hfin ((finalize_delegate hfin).symm.trans hdel)
  refine ⟨t.withDelegate (setWritingPacket false r).delegate, ?_, ?_, hcap, rfl⟩
  · unfold writePacket
    simp only [hbegin, hrun, Option.bind_eq_bind, Option.bind_some]
    exact hend
  · show t.bytes = _
    rw [hbytes, hmsg, hob]
    show backfill _ _ _ = _
    rw [Nat.zero_add, backfill_reserved, Packet.bytes, htag]
    simp only [List.append_assoc]

/-- `beginPacket` makes room for a packet of at most 208 bytes. -/
theorem writePacket_fits {fuel : ℕ} (hfuel : 2 < fuel) (hsize : neededSpace ≤ size) {p : Packet}
    (hp : p.bytes.length ≤ neededSpace) (w : Writing) :
    ∃ w', writePacket size fuel p w = some w' ∧
      w'.bytes = (makeRoom size w).bytes ++ p.bytes ∧ w'.cap = (makeRoom size w).cap ∧
      w'.delegate = (setWritingPacket false (makeRoom size w)).delegate := by
  have hroom := makeRoom_available hsize (w := w)
  exact writePacket_room hfuel (by omega)

end Packets

end Host
end VPerfetto
