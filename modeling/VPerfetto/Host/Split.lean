/-
# A packet at the end of the buffer

`beginPacket` makes room for 208 bytes, so only a packet with a long name can
reach the end of the buffer. `GetNewBuffer` is then called from inside the
copy of the name, or from `set_counter` behind it: it closes the packet, saves
the buffer and begins the packet again, while the caller goes on writing to
messages that are closed already. What it writes is counted nowhere: behind a
record of length 0 comes the rest of the name, or a tag that is no packet's.

Key definitions: `Intact`, `SplitKeeps`, `Restarted`, `cutPacket`, `Corrupts`.
Key theorems: `getNewBuffer_opened`, `Packet.corrupts`, `splitKeeps_iff`.
-/
import VPerfetto.Host.Buffer

namespace VPerfetto
namespace Host

open Wire Protozero

/-! ### What a split should keep -/

/-- The names that a record gives: of interned strings by their iid, of a track
by its uuid. -/
def HostPacket.names (r : HostPacket) : List (Option UInt64 × Option Bytes) :=
  (r.internedData.elim [] fun d => (d.eventCategories ++ d.eventNames).map fun s => (s.iid, s.name)) ++
    r.trackDescriptor.elim [] fun d => [(d.uuid, d.name)]

/-- The buffers that were written to between `r` and `w`: those saved since
then, and the current one. -/
def involved (r w : Writing) : List Bytes :=
  (w.saved.drop r.saved.length).map SavedTraceInfo.data ++ [w.bytes]

/-- Every buffer is a sequence of complete packets, and the names of `p` can be
read from them. -/
structure Intact (p : Packet) (r w : Writing) : Prop where
  records : ∀ b ∈ involved r w, (decodeTrace b).isSome
  names : ∀ n ∈ p.record.names, ∃ b ∈ involved r w, ∃ packets, decodeTrace b = some packets ∧
    ∃ q ∈ packets, n ∈ q.names

/-- A packet that reaches the end of the buffer is split without corrupting the
trace: if a buffer was saved while the packet was open, the buffers are intact. -/
def SplitKeeps (size fuel : ℕ) (p : Packet) (w : Writing) : Prop :=
  ∀ w', writePacket size fuel p w = some w' → (makeRoom size w).saved.length < w'.saved.length →
    Intact p (makeRoom size w) w'

/-! ### Buffers that cannot be read -/

/-- A record that cannot be read makes its buffer unreadable, whatever follows. -/
theorem decodeTrace_record_none {a payload : Bytes} (ha : (decodeTrace a).isSome)
    (hlen : payload.length < 2 ^ 28) (hp : decodePacket payload = none) (rest : Bytes) :
    decodeTrace (a ++ (encodeVarint (tagLen 1) ++ redundantVarint payload.length ++ payload ++ rest)) = none := by
  unfold decodeTrace at ha ⊢
  cases hfs : decodeFields a with
  | none =>
    rw [hfs] at ha
    cases ha
  | some fs =>
    rw [decodeFields_append_map _ hfs, decodeFields_record 1 hlen]
    cases decodeFields rest with
    | none => rfl
    | some gs => exact mapM_none (List.mem_append_right fs List.mem_cons_self) hp

/-- Behind a record of length 0, a byte that is not the tag of a packet. -/
theorem decodeTrace_bad_tag {b : UInt8} (hb : b.toNat < 128) (hne : b.toNat ≠ tagLen 1) {bytes : Bytes}
    (h : encodeVarint (tagLen 1) ++ redundantVarint 0 ++ [b] <+: bytes) : decodeTrace bytes = none := by
  obtain ⟨rest, rfl⟩ := h
  have hrec := decodeFields_record 1 (show ([] : Bytes).length < 2 ^ 28 by decide) (b :: rest)
  have hbytes : encodeVarint (tagLen 1) ++ redundantVarint 0 ++ [b] ++ rest
      = encodeVarint (tagLen 1) ++ redundantVarint ([] : Bytes).length ++ [] ++ b :: rest := by simp
  unfold decodeTrace
  rw [hbytes, hrec]
  cases hd : decodeField (b :: rest) with
  | none =>
    rw [decodeField_none hd]
    rfl
  | some q =>
    obtain ⟨f, tail⟩ := q
    rw [decodeFields_step hd]
    cases decodeFields tail with
    | none => rfl
    | some fs =>
      apply mapM_none (a := f) (List.mem_cons_of_mem _ List.mem_cons_self)
      obtain ⟨n, v⟩ := f
      cases v with
      | varint v => simp
      | len x =>
        have htag := decodeField_tagLen hb hd
        have hn : n ≠ 1 := by
          intro h1
          rw [h1] at htag
          exact hne htag
        split
        · rename_i heq
          exact absurd (congrArg Prod.fst heq) hn
        · rfl

/-! ### The packet begun again -/

/-- A packet begun again in a fresh buffer, with at least `g` behind its header:
its root message has counted nothing. -/
structure Restarted (size : ℕ) (saved : List SavedTraceInfo) (g : Bytes) (w : Writing) : Prop where
  root : w.messages 0 = { sizeField := some 1 }
  bytes : encodeVarint (tagLen 1) ++ List.replicate 4 0 ++ g <+: w.bytes
  cap : w.cap = size
  allocated : w.delegate.1.allocated = true
  writing : w.delegate.1.writingPacket = true
  saved : saved <+: w.saved

namespace Restarted

variable {size : ℕ} {saved : List SavedTraceInfo} {g : Bytes} {w : Writing}

theorem write (h : Restarted size saved g w) (src : Bytes) : Restarted size saved g (w.write src) where
  root := h.root
  bytes := h.bytes.trans (List.prefix_append _ _)
  cap := h.cap
  allocated := h.allocated
  writing := h.writing
  saved := h.saved

theorem setMessage (h : Restarted size saved g w) {i : ℕ} (hi : i ≠ 0) (m : Message) :
    Restarted size saved g (w.setMessage i m) where
  root := (setMessage_of_ne w m hi.symm).trans h.root
  bytes := h.bytes
  cap := h.cap
  allocated := h.allocated
  writing := h.writing
  saved := h.saved

theorem setEntries (h : Restarted size saved g w) (n : ℕ) :
    Restarted size saved g { w with entries := n } := by
  obtain ⟨h1, h2, h3, h4, h5, h6⟩ := h
  exact ⟨h1, h2, h3, h4, h5, h6⟩

theorem attach (h : Restarted size saved g w) {i n : ℕ} (hi : i ≠ 0) (hn : n ≠ 0) (off : ℕ) :
    Restarted size saved g (w.attach i n off) :=
  (h.setMessage hn _).setMessage hi _

/-- Ending the packet fills in the length 0. -/
theorem endPacket (h : Restarted size saved g w) {fuel : ℕ} (hf : 0 < fuel) :
    ∃ w', endPacket fuel w = some w' ∧ saved <+: w'.saved ∧
      encodeVarint (tagLen 1) ++ redundantVarint 0 ++ g <+: w'.bytes := by
  obtain ⟨fuel, rfl⟩ : ∃ f, fuel = f + 1 := ⟨fuel - 1, by omega⟩
  have hroot : (setWritingPacket false w).messages 0 = { sizeField := some 1 } := h.root
  obtain ⟨rest, hb⟩ := h.bytes
  have hfin := finalize_childless fuel (h := 0) (s := setWritingPacket false w) (by rw [hroot]) (by rw [hroot])
  have hwb : (setWritingPacket false w).bytes = w.bytes := rfl
  unfold Host.endPacket
  rw [hfin, hroot]
  refine ⟨_, rfl, h.saved, rest, ?_⟩
  have hfill := backfill_reserved (encodeVarint (tagLen 1)) 0 (g ++ rest)
  have htag : (encodeVarint (tagLen 1)).length = 1 := by decide
  rw [htag] at hfill
  rw [setMessage_bytes, hwb, ← hb]
  calc encodeVarint (tagLen 1) ++ redundantVarint 0 ++ g ++ rest
      = encodeVarint (tagLen 1) ++ redundantVarint 0 ++ (g ++ rest) := List.append_assoc _ g rest
    _ = backfill (encodeVarint (tagLen 1) ++ List.replicate 4 0 ++ (g ++ rest)) 1 0 := hfill.symm
    _ = backfill (encodeVarint (tagLen 1) ++ List.replicate 4 0 ++ g ++ rest) 1 0 := by
        rw [List.append_assoc _ g rest]

end Restarted

variable {size : ℕ}

theorem finishAndRefresh_allocated {w : Writing} (ha : w.delegate.1.allocated = true) :
    finishAndRefresh size w = { w with
      bytes := [], cap := size
      delegate := ({ w.delegate.1 with allocated := true, first := false },
        w.saved ++ [⟨w.bytes, w.cap, w.delegate.1.first⟩]) } := by
  unfold finishAndRefresh TraceBuffer.save Writing.buffer
  simp only [ha, if_true]
  rfl

/-- `GetNewBuffer` for an open packet saves the buffer as the finalized packet
leaves it, and begins the packet again. -/
theorem getNewBuffer_writing (hsize : neededSpace ≤ size) {fuel n : ℕ} {w t : Writing}
    (hw : w.delegate.1.writingPacket = true) (ha : w.delegate.1.allocated = true)
    (hfin : finalize fuel 0 w = some (n, t)) :
    ∃ u, getNewBuffer size (fuel + 1) w = some u ∧
      u.bytes = encodeVarint (tagLen 1) ++ List.replicate 4 0 ∧
      Restarted size (w.saved ++ [⟨t.bytes, t.cap, w.delegate.1.first⟩]) [] u ∧
      ∀ i ≠ 0, u.messages i = t.messages i := by
  have hdel := finalize_delegate hfin
  set r := finishAndRefresh size t with hr
  have hta : t.delegate.1.allocated = true := by rw [hdel, ha]
  have hrb : r.bytes = [] := rfl
  have hrc : r.cap = size := rfl
  have hrd : r.delegate = ({ w.delegate.1 with allocated := true, first := false },
      w.saved ++ [⟨t.bytes, t.cap, w.delegate.1.first⟩]) := by
    rw [hr, finishAndRefresh_allocated hta]
    unfold Writing.saved
    rw [hdel]
  have hrm : r.messages = t.messages := by
    rw [hr, finishAndRefresh_allocated hta]
  have hmake : makeRoom size r = r := by
    unfold makeRoom
    rw [hrd]
    have hroom : ¬ r.bytesAvailable < neededSpace := by
      unfold StreamWriter.bytesAvailable
      rw [hrb, hrc]
      exact Nat.not_lt_of_le hsize
    simp [hroom]
  have hbegin := beginPacket_fits fuel hmake (by
    rw [hrb, hrc]
    exact Nat.le_trans (by decide) hsize)
  have hnew : getNewBuffer size (fuel + 1) w = beginPacket size fuel r := by
    unfold getNewBuffer
    rw [if_pos hw, hfin]
    simp only [Option.map_some, Option.bind_eq_bind, Option.bind_some, ← hr]
    rw [if_pos (by rw [hrd]; exact hw)]
    rfl
  refine ⟨_, hnew.trans hbegin, ?_, ⟨?_, ?_, rfl, ?_, rfl, ?_⟩, fun i hi => ?_⟩
  · show r.bytes ++ _ ++ _ = _
    rw [hrb, List.nil_append]
  · rw [openedPacket_message, hrb]
    rfl
  · have hbytes : (openedPacket r (encodeVarint (tagLen 1))).bytes
        = encodeVarint (tagLen 1) ++ List.replicate 4 0 ++ [] := by
      rw [List.append_nil]
      show r.bytes ++ _ ++ _ = _
      rw [hrb, List.nil_append]
    exact hbytes ▸ List.prefix_rfl
  · show r.delegate.1.allocated = true
    rw [hrd]
  · have hsaved : (openedPacket r (encodeVarint (tagLen 1))).saved
        = w.saved ++ [⟨t.bytes, t.cap, w.delegate.1.first⟩] := congrArg Prod.snd hrd
    exact hsaved ▸ List.prefix_rfl
  · have hopen : (openedPacket r (encodeVarint (tagLen 1))).messages i = r.messages i := by
      refine (setMessage_of_ne _ _ hi).trans ?_
      exact setMessage_of_ne r _ hi
    rw [hopen, hrm]

namespace Restarted

variable {saved : List SavedTraceInfo} {g : Bytes} {w : Writing}

/-- A packet begun again may come to the end of the buffer once more. -/
theorem extend (hsize : neededSpace ≤ size) (h : Restarted size saved g w) {fuel : ℕ} (hf : 2 ≤ fuel) :
    ∃ u, getNewBuffer size fuel w = some u ∧ u.bytes.length < u.cap ∧ Restarted size saved [] u ∧
      ∀ i ≠ 0, u.messages i = w.messages i := by
  obtain ⟨fuel, rfl⟩ : ∃ f, fuel = f + 1 + 1 := ⟨fuel - 2, by omega⟩
  have hfin := finalize_childless fuel (h := 0) (s := w) (by rw [h.root]) (by rw [h.root])
  obtain ⟨u, hnew, hbytes, hu, hkeep⟩ := getNewBuffer_writing hsize h.writing h.allocated hfin
  refine ⟨u, hnew, ?_, ⟨hu.root, hu.bytes, hu.cap, hu.allocated, hu.writing, ?_⟩, fun i hi => ?_⟩
  · rw [hbytes, hu.cap]
    exact Nat.lt_of_lt_of_le (by decide) hsize
  · exact h.saved.trans ((List.prefix_append _ _).trans hu.saved)
  · rw [hkeep i hi, setMessage_of_ne _ _ hi]

/-- The loop of a copy: every turn writes, or goes on in a new buffer. -/
theorem writeBytesSlowPath (hsize : neededSpace ≤ size) {fuel : ℕ} (hf : 2 ≤ fuel) :
    ∀ (k : ℕ) {src : Bytes} {w : Writing}, src.length ≤ k → Restarted size saved [] w →
    ∃ u, writeBytesSlowPath (getNewBuffer size fuel) k src w = some u ∧ Restarted size saved [] u ∧
      ∀ i ≠ 0, u.messages i = w.messages i
  | k, [], w, _, h => by
    refine ⟨w, ?_, h, fun _ _ => rfl⟩
    cases k <;> rfl
  | 0, x :: src, w, hk, _ => absurd hk (by simp)
  | k + 1, x :: src, w, hk, h => by
    have hne : x :: src ≠ [] := List.cons_ne_nil x src
    obtain ⟨v, hv, hroom, hr, hkeep⟩ : ∃ v, (if w.cap ≤ w.bytes.length then getNewBuffer size fuel w else some w)
        = some v ∧ v.bytes.length < v.cap ∧ Restarted size saved [] v ∧ ∀ i ≠ 0, v.messages i = w.messages i := by
      by_cases hend : w.cap ≤ w.bytes.length
      · obtain ⟨v, hnew, hroom, hr, hkeep⟩ := h.extend hsize hf
        exact ⟨v, (if_pos hend).trans hnew, hroom, hr, hkeep⟩
      · exact ⟨w, if_neg hend, Nat.lt_of_not_le hend, h, fun _ _ => rfl⟩
    have hburst : 0 < min v.bytesAvailable (x :: src).length := by
      unfold StreamWriter.bytesAvailable
      rw [List.length_cons]
      omega
    have hleft : ((x :: src).drop (min v.bytesAvailable (x :: src).length)).length ≤ k := by
      rw [List.length_drop]
      omega
    obtain ⟨u, hu, hur, huk⟩ := writeBytesSlowPath hsize hf k hleft (hr.write _)
    refine ⟨u, ?_, hur, fun i hi => ?_⟩
    · rw [writeBytesSlowPath_step _ k hne hv]
      exact hu
    · rw [huk i hi]
      exact hkeep i hi

theorem writeBytes (hsize : neededSpace ≤ size) {fuel : ℕ} (hf : 2 ≤ fuel) {src : Bytes}
    (hsrc : src.length ≤ fuel) (h : Restarted size saved [] w) :
    ∃ u, writeBytes (getNewBuffer size fuel) fuel src w = some u ∧ Restarted size saved [] u ∧
      ∀ i ≠ 0, u.messages i = w.messages i := by
  unfold Protozero.writeBytes
  by_cases hfit : w.bytes.length + src.length ≤ w.cap
  · exact ⟨w.write src, if_pos hfit, h.write src, fun _ _ => rfl⟩
  · obtain ⟨u, hu, hr, hkeep⟩ := writeBytesSlowPath hsize hf fuel hsrc h
    exact ⟨u, (if_neg hfit).trans hu, hr, hkeep⟩

end Restarted

/-! ### The name is cut -/

/-- `beginPacket` looks for room in a buffer that is allocated, and nothing is
saved before that. -/
theorem makeRoom_cases (size : ℕ) (w : Writing) : ∃ u, u.delegate.1.allocated = true ∧ u.saved = w.saved ∧
    makeRoom size w = if u.bytesAvailable < neededSpace then finishAndRefresh size u else u := by
  by_cases ha : w.delegate.1.allocated = true
  · refine ⟨w, ha, rfl, ?_⟩
    unfold makeRoom
    simp only [ha, if_true]
  · refine ⟨allocTraceBuffer size w, rfl, rfl, ?_⟩
    unfold makeRoom
    simp only [ha, Bool.false_eq_true, if_false]

theorem makeRoom_allocated (w : Writing) : (makeRoom size w).delegate.1.allocated = true := by
  obtain ⟨u, halloc, -, hmake⟩ := makeRoom_cases size w
  rw [hmake]
  split
  · rw [finishAndRefresh_allocated halloc]
  · exact halloc

/-- The tag and the length in front of the bytes of a field. -/
def lenHead (id : ℕ) (b : Bytes) : Bytes := encodeVarint (tagLen id) ++ encodeVarint b.length

/-- The packet that stays behind where a name is cut: its messages count the
head of the name's field, and no byte of the name. -/
def cutPacket (pre : List Op) (id : ℕ) (name : Bytes) : Bytes := encodeOpen (lenHead id name) pre

/-- A packet whose name does not fit any more. The calls before the name leave
`nesting pre` messages open, and the calls after it go on in the last of them. -/
structure NameCut (r : Writing) (fuel : ℕ) (pre : List Op) (id : ℕ) (name : Bytes) : Prop where
  nested : nesting pre ≠ 0
  fuel_nesting : nesting pre + 2 ≤ fuel
  fuel_name : name.length ≤ fuel
  head_fits : r.bytes.length + 5 + (encode pre).length + (lenHead id name).length ≤ r.cap
  cut : r.cap < r.bytes.length + 5 + (encode pre).length + (lenHead id name).length + name.length

theorem openedPacket_length (r : Writing) :
    (openedPacket r (encodeVarint (tagLen 1))).bytes.length = r.bytes.length + 5 := by
  have hb : (openedPacket r (encodeVarint (tagLen 1))).bytes
      = r.bytes ++ encodeVarint (tagLen 1) ++ List.replicate 4 0 := rfl
  have htag : (encodeVarint (tagLen 1)).length = 1 := by decide
  rw [hb]
  simp only [List.length_append, List.length_replicate, htag]

/-- The calls of a packet that still has room for them. -/
theorem runOps_openedPacket (size fuel : ℕ) {r : Writing} {pre : List Op}
    (hfit : r.bytes.length + 5 + (encode pre).length ≤ r.cap) :
    ∃ s', (∀ post, runOps (getNewBuffer size fuel) fuel 0 (pre ++ post)
        (openedPacket r (encodeVarint (tagLen 1))) = runOps (getNewBuffer size fuel) fuel (nesting pre) post s') ∧
      Opened 0 pre (openedPacket r (encodeVarint (tagLen 1))) s' ∧
      s'.bytes.length = r.bytes.length + 5 + (encode pre).length ∧ s'.cap = r.cap := by
  have hmsg := openedPacket_message r (encodeVarint (tagLen 1))
  have hlen := openedPacket_length r
  obtain ⟨s', hrun, ho⟩ := runOps_opened (getNewBuffer size fuel) fuel pre (h := 0)
    (s := openedPacket r (encodeVarint (tagLen 1))) rfl (by rw [hmsg]) (by rw [hmsg]) (by rw [hlen]; exact hfit)
  rw [Nat.zero_add] at hrun
  exact ⟨s', hrun, ho, by rw [ho.bytes_length, hlen], ho.cap⟩

/-- `GetNewBuffer` while the calls `pre` are written and `x` follows in the
message opened last: the record saved counts `x`, but not the `y` behind it. -/
theorem getNewBuffer_opened (hsize : neededSpace ≤ size) {r : Writing} (ha : r.delegate.1.allocated = true)
    {fuel : ℕ} {pre : List Op} {s' v : Writing} {x y : Bytes} (hf : nesting pre + 2 ≤ fuel)
    (ho : Opened 0 pre (openedPacket r (encodeVarint (tagLen 1))) s') (hb : v.bytes = s'.bytes ++ x ++ y)
    (hm : ∀ i ≤ nesting pre, v.messages i = (s'.append (nesting pre) x).messages i)
    (hc : v.cap = s'.cap) (hd : v.delegate = s'.delegate) :
    ∃ u, getNewBuffer size fuel v = some u ∧
      u.bytes = encodeVarint (tagLen 1) ++ List.replicate 4 0 ∧
      (nesting pre ≠ 0 → (u.messages (nesting pre)).nested = none) ∧
      Restarted size (r.saved ++ [⟨r.bytes ++ (encodeVarint (tagLen 1) ++
        redundantVarint (encodeOpen x pre).length ++ encodeOpen x pre ++ y), r.cap,
        r.delegate.1.first⟩]) [] u := by
  obtain ⟨fuel, rfl⟩ : ∃ f, fuel = f + 1 := ⟨fuel - 1, by omega⟩
  have hzero : 0 + nesting pre = nesting pre := Nat.zero_add _
  have hvd : v.delegate = ({ r.delegate.1 with writingPacket := true }, r.delegate.2) := by
    rw [hd, ho.delegate]
    rfl
  obtain ⟨t, hfin, htb, htc, -, -, hin, -⟩ := ho.finalizes (k := fuel) (by omega) hb (by rwa [hzero])
  rw [hzero] at hin
  have hbytes : t.bytes = r.bytes ++ (encodeVarint (tagLen 1) ++
      redundantVarint (encodeOpen x pre).length ++ encodeOpen x pre ++ y) := by
    have hob : (openedPacket r (encodeVarint (tagLen 1))).bytes
        = r.bytes ++ encodeVarint (tagLen 1) ++ List.replicate 4 0 := rfl
    calc t.bytes
        = backfill (r.bytes ++ encodeVarint (tagLen 1) ++ List.replicate 4 0 ++ encodeOpen x pre ++ y)
            (r.bytes ++ encodeVarint (tagLen 1)).length (encodeOpen x pre).length := by
          rw [htb, openedPacket_message, hob, Nat.zero_add]
          rfl
      _ = r.bytes ++ encodeVarint (tagLen 1) ++ redundantVarint (encodeOpen x pre).length ++
            (encodeOpen x pre ++ y) := by rw [List.append_assoc _ (encodeOpen x pre) y, backfill_reserved]
      _ = _ := by simp only [List.append_assoc]
  have hcap : t.cap = r.cap := by
    rw [htc, hc, ho.cap]
    rfl
  obtain ⟨u, hnew, hub, hu, hkeep⟩ := getNewBuffer_writing hsize (by rw [hvd]) (by rw [hvd]; exact ha) hfin
  refine ⟨u, hnew, hub, fun hne => ?_, ?_⟩
  · rw [hkeep _ hne]
    exact hin
  · have hsaved : v.saved = r.saved := by
      unfold Writing.saved
      rw [hvd]
    have hfirst : v.delegate.1.first = r.delegate.1.first := by rw [hvd]
    rw [hsaved, hfirst, hbytes, hcap] at hu
    exact hu

/-- A name is cut: the packet without it is saved, and what follows goes to a
packet begun again. -/
theorem NameCut.runOps (hsize : neededSpace ≤ size) {r : Writing} (ha : r.delegate.1.allocated = true)
    {fuel id : ℕ} {pre : List Op} {name : Bytes} (h : NameCut r fuel pre id name) :
    ∃ u x, (∀ post, runOps (getNewBuffer size fuel) fuel 0 (pre ++ .bytes id name :: post)
        (openedPacket r (encodeVarint (tagLen 1)))
          = runOps (getNewBuffer size fuel) fuel (nesting pre) post u) ∧
      (u.messages (nesting pre)).nested = none ∧
      Restarted size (r.saved ++ [⟨r.bytes ++ (encodeVarint (tagLen 1) ++
        redundantVarint (cutPacket pre id name).length ++ cutPacket pre id name ++ x), r.cap,
        r.delegate.1.first⟩]) [] u := by
  obtain ⟨hpre, hfuel, hname, hhead, hcut⟩ := h
  obtain ⟨s', hrun, hopened, hlen, hcap⟩ := runOps_openedPacket size fuel
    (show r.bytes.length + 5 + (encode pre).length ≤ r.cap by omega)
  have hin := hopened.innermost
  have hnest : nesting pre + 2 ≤ fuel := hfuel
  rw [Nat.zero_add] at hin
  generalize hd : nesting pre = d at hpre hfuel hrun hin
  -- the head of the field fits, and is counted
  set a := s'.append d (lenHead id name) with hadef
  have hab : a.bytes = s'.bytes ++ lenHead id name := rfl
  have hac : a.cap = s'.cap := rfl
  have hal : a.bytes.length = s'.bytes.length + (lenHead id name).length := by
    rw [hab, List.length_append]
  have hwriteHead : writeToStream (getNewBuffer size fuel) fuel d (lenHead id name) s' = some a :=
    writeToStream_fits _ fuel d (by omega)
  -- the name does not fit
  obtain ⟨u, hnew, hub, hun, hu⟩ := getNewBuffer_opened hsize ha (v := a.write (name.take a.bytesAvailable))
    (x := lenHead id name) hnest hopened rfl (fun i _ => by rw [hd]; rfl) rfl rfl
  have hroom : u.bytes.length < u.cap := by
    rw [hub, hu.cap]
    exact Nat.lt_of_lt_of_le (by decide) hsize
  obtain ⟨fuel', hleft, hsplit⟩ := writeBytes_split (getNewBuffer size fuel) (by omega)
    (by omega) hname hnew hroom
  obtain ⟨v, hv, hvr, hvk⟩ := Restarted.writeBytesSlowPath hsize (show 2 ≤ fuel by omega) fuel' hleft hu
  have hvn : (v.messages d).nested = none := by
    rw [hvk d hpre]
    rw [hd] at hun
    exact hun hpre
  let m : Message := { v.messages d with size := (v.messages d).size + name.length }
  have happend : appendBytes (getNewBuffer size fuel) fuel d id name s' = some (v.setMessage d m) := by
    unfold appendBytes
    rw [closeNested_none _ hin]
    simp only [Option.bind_eq_bind, Option.bind_some]
    unfold lenHead at hwriteHead
    rw [hwriteHead, Option.bind_some]
    unfold writeToStream
    rw [hsplit, hv]
    rfl
  refine ⟨v.setMessage d m, name.take a.bytesAvailable, fun post => ?_, ?_, hvr.setMessage hpre m⟩
  · rw [hrun, Protozero.runOps, happend]
    rfl
  · rw [setMessage_self]
    exact hvn

/-! ### The calls behind the name -/

/-- Another message in a packet begun again. -/
theorem Restarted.beginNested (hsize : neededSpace ≤ size) {fuel d id : ℕ} {saved : List SavedTraceInfo}
    {w : Writing} (h : Restarted size saved [] w) (hf : 2 ≤ fuel) (hd : d ≠ 0)
    (hn : (w.messages d).nested = none) (hid : (encodeVarint (tagLen id)).length ≤ fuel) :
    ∃ v, runOps (getNewBuffer size fuel) fuel d [.beginNested id] w = some v ∧ Restarted size saved [] v := by
  obtain ⟨u, hu, hur, -⟩ := h.writeBytes hsize hf hid
  let m : Message := { u.messages d with size := (u.messages d).size + (encodeVarint (tagLen id)).length }
  have hwrite : writeToStream (getNewBuffer size fuel) fuel d (encodeVarint (tagLen id)) w
      = some (u.setMessage d m) := by
    unfold writeToStream
    rw [hu]
    rfl
  let t : Writing := { (u.setMessage d m).setMessage (u.entries + 1) {} with entries := u.entries + 1 }
  have ht : Restarted size saved [] t :=
    ((hur.setMessage hd m).setMessage (Nat.succ_ne_zero _) {}).setEntries (u.entries + 1)
  obtain ⟨off, v, hv, hvr⟩ : ∃ off v, reserveBytes (getNewBuffer size fuel) 4 t = some (off, v) ∧
      Restarted size saved [] v := by
    unfold reserveBytes
    by_cases hend : t.cap < t.bytes.length + 4
    · obtain ⟨v, hv, -, hvr, -⟩ := ht.extend hsize hf
      exact ⟨_, _, by rw [if_pos hend, hv]; rfl, hvr.write _⟩
    · exact ⟨_, _, by rw [if_neg hend]; rfl, ht.write _⟩
  refine ⟨v.attach d (u.entries + 1) off, ?_, hvr.attach hd (Nat.succ_ne_zero _) off⟩
  rw [runOps, beginNestedMessage_of (getNewBuffer size fuel) hn hwrite hv]
  rfl

section Counter

variable {r s' : Writing} {fuel : ℕ} {pre : List Op}

/-- The buffer is full before the message behind the name: its tag is the first
byte behind the header of the packet begun again. -/
theorem runOps_tag_cut (hsize : neededSpace ≤ size) (ha : r.delegate.1.allocated = true)
    (hpre : nesting pre ≠ 0) (hf : nesting pre + 2 ≤ fuel)
    (ho : Opened 0 pre (openedPacket r (encodeVarint (tagLen 1))) s') (hfull : s'.cap = s'.bytes.length) :
    ∃ v info, runOps (getNewBuffer size fuel) fuel (nesting pre) [.beginNested 8] s' = some v ∧
      Restarted size (r.saved ++ [info]) [66] v := by
  have hin := ho.innermost
  rw [Nat.zero_add] at hin
  have htag : encodeVarint (tagLen 8) = [66] := by decide
  obtain ⟨u, hnew, hub, -, hu⟩ := getNewBuffer_opened hsize ha (v := s'.write ([66].take s'.bytesAvailable))
    (x := []) (y := [66].take s'.bytesAvailable) hf ho (by simp [StreamWriter.write])
    (fun i _ => by rw [append_nil]; rfl) rfl rfl
  have hroom : u.bytes.length + 5 ≤ u.cap := by
    rw [hub, hu.cap]
    exact Nat.le_trans (by decide) hsize
  obtain ⟨fuel', hleft, hsplit⟩ := writeBytes_split (getNewBuffer size fuel) (Nat.le_of_eq hfull.symm)
    (by simp [hfull]) (show [66].length ≤ fuel by simp; omega) hnew (by omega)
  have hzero : s'.bytesAvailable = 0 := by
    unfold StreamWriter.bytesAvailable
    omega
  rw [hzero, List.drop_zero] at hleft hsplit
  let m : Message := { u.messages (nesting pre) with size := (u.messages (nesting pre)).size + 1 }
  have hwrite : writeToStream (getNewBuffer size fuel) fuel (nesting pre) (encodeVarint (tagLen 8)) s'
      = some ((u.write [66]).setMessage (nesting pre) m) := by
    unfold writeToStream
    rw [htag, hsplit, writeBytesSlowPath_fits _ hleft (by simp; omega)]
    rfl
  let c : Writing := { ((u.write [66]).setMessage (nesting pre) m).setMessage (u.entries + 1) {} with
    entries := u.entries + 1 }
  have hreserve : reserveBytes (getNewBuffer size fuel) 4 c
      = some (c.bytes.length, c.write (List.replicate 4 0)) := by
    apply reserveBytes_fits _
    show (u.bytes ++ [66]).length + 4 ≤ u.cap
    simp only [List.length_append, List.length_cons, List.length_nil]
    omega
  have hbytes : (u.write [66]).bytes = encodeVarint (tagLen 1) ++ List.replicate 4 0 ++ [66] := by
    rw [StreamWriter.write, hub]
  have hwritten : Restarted size _ [66] (u.write [66]) :=
    ⟨hu.root, hbytes ▸ List.prefix_rfl, hu.cap, hu.allocated, hu.writing, hu.saved⟩
  have hc : Restarted size _ [66] c :=
    ((hwritten.setMessage hpre m).setMessage (Nat.succ_ne_zero _) {}).setEntries _
  refine ⟨(c.write (List.replicate 4 0)).attach (nesting pre) (u.entries + 1) c.bytes.length, _, ?_,
    (hc.write _).attach hpre (Nat.succ_ne_zero _) _⟩
  rw [runOps, beginNestedMessage_of (getNewBuffer size fuel) hin hwrite hreserve]
  rfl

/-- The tag still fits and the four bytes of the length do not: the zeros
reserved are the first bytes behind the header of the packet begun again. -/
theorem runOps_length_cut (hsize : neededSpace ≤ size) (ha : r.delegate.1.allocated = true)
    (hpre : nesting pre ≠ 0) (hf : nesting pre + 2 ≤ fuel)
    (ho : Opened 0 pre (openedPacket r (encodeVarint (tagLen 1))) s') (hfit : s'.bytes.length < s'.cap)
    (hcut : s'.cap < s'.bytes.length + 5) :
    ∃ v info, runOps (getNewBuffer size fuel) fuel (nesting pre) [.beginNested 8] s' = some v ∧
      Restarted size (r.saved ++ [info]) [0] v := by
  have hin := ho.innermost
  have hent := ho.entries
  rw [Nat.zero_add] at hin hent
  have htag : encodeVarint (tagLen 8) = [66] := by decide
  set a := s'.append (nesting pre) [66] with hadef
  have hal : a.bytes.length = s'.bytes.length + 1 := by
    rw [hadef]
    simp [StreamWriter.append, StreamWriter.write]
  have hwrite : writeToStream (getNewBuffer size fuel) fuel (nesting pre) (encodeVarint (tagLen 8)) s'
      = some a := by
    rw [htag]
    exact writeToStream_fits _ fuel _ hfit
  let t : Writing := { a.setMessage (a.entries + 1) {} with entries := a.entries + 1 }
  have hae : a.entries = nesting pre := hent
  obtain ⟨u, hnew, hub, -, hu⟩ := getNewBuffer_opened hsize ha (v := t) (x := [66]) (y := []) hf ho
    (by rw [List.append_nil]; rfl) (fun i hi => setMessage_of_ne a {} (by omega)) rfl rfl
  have hreserve : reserveBytes (getNewBuffer size fuel) 4 t
      = some (u.bytes.length, u.write (List.replicate 4 0)) := by
    have hend : t.cap < t.bytes.length + 4 := by
      show s'.cap < a.bytes.length + 4
      omega
    unfold reserveBytes
    rw [if_pos hend, hnew]
    rfl
  have hbytes : encodeVarint (tagLen 1) ++ List.replicate 4 0 ++ [0] <+: (u.write (List.replicate 4 0)).bytes := by
    refine ⟨List.replicate 3 0, ?_⟩
    rw [StreamWriter.write, hub, List.append_assoc]
    rfl
  have hwritten : Restarted size _ [0] (u.write (List.replicate 4 0)) :=
    ⟨hu.root, hbytes, hu.cap, hu.allocated, hu.writing, hu.saved⟩
  refine ⟨(u.write (List.replicate 4 0)).attach (nesting pre) (a.entries + 1) u.bytes.length, _, ?_,
    hwritten.attach hpre (Nat.succ_ne_zero _) _⟩
  rw [runOps, beginNestedMessage_of (getNewBuffer size fuel) hin hwrite hreserve]
  rfl

/-- The message behind the name does not fit: the packet begun again starts
with a byte that is not the tag of a packet. -/
theorem runOps_counter_cut (hsize : neededSpace ≤ size) (ha : r.delegate.1.allocated = true)
    (hpre : nesting pre ≠ 0) (hf : nesting pre + 2 ≤ fuel)
    (hfit : r.bytes.length + 5 + (encode pre).length ≤ r.cap)
    (hcut : r.cap < r.bytes.length + 5 + (encode pre).length + 5) :
    ∃ v info b, runOps (getNewBuffer size fuel) fuel 0 (pre ++ [.beginNested 8])
        (openedPacket r (encodeVarint (tagLen 1))) = some v ∧
      Restarted size (r.saved ++ [info]) [b] v ∧ b.toNat < 128 ∧ b.toNat ≠ tagLen 1 := by
  obtain ⟨s', hrun, hopened, hlen, hcap⟩ := runOps_openedPacket size fuel hfit
  rw [hrun]
  rcases Nat.eq_or_lt_of_le (show s'.bytes.length ≤ s'.cap by omega) with hfull | hroom
  · obtain ⟨v, info, hv, hr⟩ := runOps_tag_cut hsize ha hpre hf hopened hfull.symm
    exact ⟨v, info, 66, hv, hr, by decide, by decide⟩
  · obtain ⟨v, info, hv, hr⟩ := runOps_length_cut hsize ha hpre hf hopened hroom (by omega)
    exact ⟨v, info, 0, hv, hr, by decide, by decide⟩

end Counter

/-! ### Packets that do not fit -/

/-- A packet saved while it was written is among the buffers involved. -/
theorem involved_of_prefix {r w : Writing} {info : SavedTraceInfo} (h : r.saved ++ [info] <+: w.saved) :
    r.saved.length < w.saved.length ∧ info.data ∈ involved r w := by
  obtain ⟨rest, hw⟩ := h
  refine ⟨?_, List.mem_append_left _ ?_⟩
  · rw [← hw]
    simp only [List.length_append, List.length_cons, List.length_nil]
    omega
  · rw [← hw, List.append_assoc, List.drop_left]
    exact List.mem_map_of_mem List.mem_cons_self

/-- A packet begun again is ended like any other. -/
theorem writePacket_restarted (hsize : neededSpace ≤ size) {fuel : ℕ} (hf : 0 < fuel) {p : Packet} {w v : Writing}
    {saved : List SavedTraceInfo} {g : Bytes}
    (hrun : runOps (getNewBuffer size fuel) fuel 0 p.ops
      (openedPacket (makeRoom size w) (encodeVarint (tagLen 1))) = some v) (h : Restarted size saved g v) :
    ∃ w', writePacket size fuel p w = some w' ∧ saved <+: w'.saved ∧
      encodeVarint (tagLen 1) ++ redundantVarint 0 ++ g <+: w'.bytes := by
  have havail := makeRoom_available hsize (w := w)
  have htag : (encodeVarint (tagLen 1)).length = 1 := by decide
  have hroom : (makeRoom size w).bytes.length + (encodeVarint (tagLen 1)).length + 4 ≤ (makeRoom size w).cap := by
    unfold neededSpace at havail
    omega
  have hbegin := beginPacket_fits fuel rfl hroom
  obtain ⟨w', hend, hsaved, hbytes⟩ := h.endPacket hf
  refine ⟨w', ?_, hsaved, hbytes⟩
  unfold writePacket
  simp only [hbegin, hrun, Option.bind_eq_bind, Option.bind_some]
  exact hend

/-- Writing `p` came to the end of the buffer, and one of the buffers it was
written to cannot be read. -/
def Corrupts (size fuel : ℕ) (p : Packet) (w : Writing) : Prop :=
  ∃ w', writePacket size fuel p w = some w' ∧ (makeRoom size w).saved.length < w'.saved.length ∧
    ∃ b ∈ involved (makeRoom size w) w', decodeTrace b = none

theorem NameCut.corrupts (hsize : neededSpace ≤ size) {fuel id : ℕ} {p : Packet} {w : Writing} {pre post : List Op}
    {name : Bytes} (h : NameCut (makeRoom size w) fuel pre id name) (hops : p.ops = pre ++ .bytes id name :: post)
    (hpost : post = [] ∨ post = [.beginNested 8]) (hdec : decodePacket (cutPacket pre id name) = none)
    (hlen : (cutPacket pre id name).length < 2 ^ 28) (hw : (decodeTrace (makeRoom size w).bytes).isSome) :
    Corrupts size fuel p w := by
  have hfuel := h.fuel_nesting
  obtain ⟨u, x, hrun, hun, hu⟩ := h.runOps hsize (makeRoom_allocated w)
  generalize hinfo : SavedTraceInfo.mk _ _ _ = info at hu
  obtain ⟨v, hv, hvr⟩ : ∃ v, Protozero.runOps (getNewBuffer size fuel) fuel (nesting pre) post u = some v ∧
      Restarted size ((makeRoom size w).saved ++ [info]) [] v := by
    rcases hpost with rfl | rfl
    · exact ⟨u, rfl, hu⟩
    · have htag : (encodeVarint (tagLen 8)).length = 1 := by decide
      exact hu.beginNested hsize (by omega) h.nested hun (by omega)
  have hall : Protozero.runOps (getNewBuffer size fuel) fuel 0 p.ops
      (openedPacket (makeRoom size w) (encodeVarint (tagLen 1))) = some v := by
    rw [hops, hrun post]
    exact hv
  obtain ⟨w', hwrite, hsaved, -⟩ := writePacket_restarted hsize (by omega) hall hvr
  obtain ⟨hmore, hmem⟩ := involved_of_prefix hsaved
  rw [← hinfo] at hmem
  exact ⟨w', hwrite, hmore, _, hmem, decodeTrace_record_none hw hlen hdec x⟩

/-- The calls before the name of a category (`n = 1`) or an event (`n = 2`). -/
def internedPre (n : ℕ) (iid : UInt32) : List Op :=
  [.varInt 10 kSequenceId, .varInt 13 2, .beginNested 12, .beginNested n, .varInt 1 iid.toNat]

/-- The calls before the name of a counter track. -/
def trackPre (uuid : UInt64) : List Op := [.beginNested 60, .varInt 1 uuid.toNat]

theorem lenHead_length {name : Bytes} (hname : name.length < 128 ^ 5) : (lenHead 2 name).length ≤ 6 := by
  have htag : (encodeVarint (tagLen 2)).length = 1 := by decide
  have hlen := encodeVarint_length (n := 5) (by omega) hname
  unfold lenHead
  rw [List.length_append]
  omega

theorem internedPre_length {n : ℕ} (hn : n = 1 ∨ n = 2) (iid : UInt32) :
    (encode (internedPre n iid)).length ≤ 20 := by
  have h10 : (encodeField (10, .varint kSequenceId)).length = 2 := by decide
  have h13 : (encodeField (13, .varint 2)).length = 2 := by decide
  have h12 := encodeVarint_tagLen_length (j := 1) (f := 12) (by omega) (by omega)
  have hmsg := encodeVarint_tagLen_length (j := 1) (f := n) (by omega) (by omega)
  have hiid := encodeField_uint32_length (f := 1) (by omega) iid
  simp only [internedPre, encode, List.length_append, redundantVarint_length, List.length_nil]
  omega

theorem trackPre_length (uuid : UInt64) : (encode (trackPre uuid)).length ≤ 17 := by
  have h60 := encodeVarint_tagLen_length (j := 2) (f := 60) (by omega) (by omega)
  have huuid := encodeField_uint64_length (f := 1) (j := 1) (by omega) (by omega) uuid
  simp only [trackPre, encode, List.length_append, redundantVarint_length, List.length_nil]
  omega

/-- Within a packet that is cut, a message is as short as the packet. -/
theorem encodeOpen_drop_lt {x : Bytes} {ops : List Op} (h : (encodeOpen x ops).length < 2 ^ 28) (n : ℕ) :
    (encodeOpen x (ops.drop n)).length < 2 ^ 28 := by
  have hdrop := encode_drop_length ops n
  rw [encodeOpen_length] at h ⊢
  omega

theorem decodePacket_internedPre {n : ℕ} (hn : n = 1 ∨ n = 2) (iid : UInt32) {name : Bytes}
    (hname : 0 < name.length) (hlen : (cutPacket (internedPre n iid) 2 name).length < 2 ^ 28) :
    decodePacket (cutPacket (internedPre n iid) 2 name) = none := by
  have hhead : decodeFields (lenHead 2 name) = none := decodeFields_cut 2 hname
  unfold cutPacket at hlen ⊢
  generalize lenHead 2 name = x at hhead hlen ⊢
  have h3 := encodeOpen_drop_lt hlen 3
  have h4 := encodeOpen_drop_lt hlen 4
  simp only [internedPre, List.drop_succ_cons, List.drop_zero] at h3 h4
  have hstring : decodeFields (encodeOpen x [.varInt 1 iid.toNat]) = none := by
    rw [decodeFields_encodeOpen_varInt, encodeOpen, hhead]
    rfl
  have hdata := decodeFields_encodeOpen_beginNested n h4
  have hpacket := decodeFields_encodeOpen_beginNested 12 h3
  unfold decodePacket internedPre
  rw [decodeFields_encodeOpen_varInt, decodeFields_encodeOpen_varInt, hpacket]
  rcases hn with rfl | rfl
  · simp [readPacket, nestedMessage, lens, hdata, readInternedData, hstring]
  · simp [readPacket, nestedMessage, lens, hdata, readInternedData, hstring]

theorem decodePacket_trackPre (uuid : UInt64) {name : Bytes} (hname : 0 < name.length)
    (hlen : (cutPacket (trackPre uuid) 2 name).length < 2 ^ 28) :
    decodePacket (cutPacket (trackPre uuid) 2 name) = none := by
  have hhead : decodeFields (lenHead 2 name) = none := decodeFields_cut 2 hname
  unfold cutPacket at hlen ⊢
  generalize lenHead 2 name = x at hhead hlen ⊢
  have h1 := encodeOpen_drop_lt hlen 1
  simp only [trackPre, List.drop_succ_cons, List.drop_zero] at h1
  have htrack : decodeFields (encodeOpen x [.varInt 1 uuid.toNat]) = none := by
    rw [decodeFields_encodeOpen_varInt, encodeOpen, hhead]
    rfl
  have hpacket := decodeFields_encodeOpen_beginNested 60 h1
  unfold decodePacket trackPre
  rw [hpacket]
  simp [readPacket, nestedMessage, lens, htrack]

/-- The size of a packet with a name, and of its parts. -/
theorem Packet.bytes_length_of {p : Packet} {pre post : List Op} {name : Bytes}
    (hops : p.ops = pre ++ .bytes 2 name :: post) :
    p.bytes.length = 5 + (encode pre).length + (lenHead 2 name).length + name.length + (encode post).length := by
  have htag : (encodeVarint (tagLen 1)).length = 1 := by decide
  have hfield : (encode (.bytes 2 name :: post)).length
      = (lenHead 2 name).length + name.length + (encode post).length := by
    simp only [encode, encodeField, lenHead, List.length_append]
  unfold Packet.bytes
  rw [hops, encode_append, List.length_append, List.length_append, redundantVarint_length, htag,
    encodeOpen_length, hfield]
  omega

/-- A packet whose name is cut. At most 20 bytes of its messages are before
the name's field, so `beginPacket` has made room for them. -/
theorem corrupts_of_name_cut (hsize : neededSpace ≤ size) {fuel : ℕ} {p : Packet} {w : Writing}
    {pre post : List Op} {name : Bytes} (hops : p.ops = pre ++ .bytes 2 name :: post)
    (hpost : post = [] ∨ post = [.beginNested 8]) (hnest : nesting pre = 1 ∨ nesting pre = 2)
    (hpre : (encode pre).length ≤ 20) (hname : name.length < 2 ^ 29) (hfuel : name.length ≤ fuel)
    (hdec : 0 < name.length → (cutPacket pre 2 name).length < 2 ^ 28 → decodePacket (cutPacket pre 2 name) = none)
    (hw : (decodeTrace (makeRoom size w).bytes).isSome)
    (hcut : (makeRoom size w).cap < (makeRoom size w).bytes.length + 5 + (encode pre).length +
      (lenHead 2 name).length + name.length) : Corrupts size fuel p w := by
  have hroom := makeRoom_available hsize (w := w)
  have hhead := lenHead_length (Nat.lt_trans hname (by decide))
  unfold neededSpace at hroom
  have hlen : (cutPacket pre 2 name).length < 2 ^ 28 := by
    rw [cutPacket, encodeOpen_length]
    omega
  have hcutName : NameCut (makeRoom size w) fuel pre 2 name := ⟨by omega, by omega, hfuel, by omega, hcut⟩
  exact hcutName.corrupts hsize hops hpost (hdec (by omega) hlen) hlen hw

/-- A packet that fits up to the empty message at its end. -/
theorem corrupts_of_counter_cut (hsize : neededSpace ≤ size) {fuel : ℕ} {p : Packet} {w : Writing} {pre : List Op}
    (hops : p.ops = pre ++ [.beginNested 8]) (hnest : nesting pre = 1) (hf : 3 ≤ fuel)
    (hfit : (makeRoom size w).bytes.length + 5 + (encode pre).length ≤ (makeRoom size w).cap)
    (hcut : (makeRoom size w).cap < (makeRoom size w).bytes.length + 5 + (encode pre).length + 5) :
    Corrupts size fuel p w := by
  have hne : nesting pre ≠ 0 := by omega
  have hfuel : nesting pre + 2 ≤ fuel := by omega
  obtain ⟨v, info, b, hv, hr, hb, hbne⟩ := runOps_counter_cut hsize (makeRoom_allocated w) hne hfuel hfit hcut
  rw [← hops] at hv
  obtain ⟨w', hwrite, hsaved, hbytes⟩ := writePacket_restarted hsize (by omega) hv hr
  obtain ⟨hmore, -⟩ := involved_of_prefix hsaved
  have hmem : w'.bytes ∈ involved (makeRoom size w) w' := List.mem_append_right _ List.mem_cons_self
  exact ⟨w', hwrite, hmore, w'.bytes, hmem, decodeTrace_bad_tag hb hbne hbytes⟩

/-- A counter track that does not fit: its name is cut, or the message behind it. -/
theorem counterTrack_corrupts (hsize : neededSpace ≤ size) {fuel : ℕ} (uuid : UInt64) (threadId : UInt32)
    {name : Bytes} (hname : name.length ≤ 2 ^ 28 - 1)
    (hfuel : (Packet.counterTrack uuid threadId name).bytes.length ≤ fuel) {w : Writing}
    (hw : (decodeTrace (makeRoom size w).bytes).isSome)
    (hcut : (makeRoom size w).cap
      < (makeRoom size w).bytes.length + (Packet.counterTrack uuid threadId name).bytes.length) :
    Corrupts size fuel (.counterTrack uuid threadId name) w := by
  set p := Packet.counterTrack uuid threadId name with hp
  set track := getTrackNameFromThreadIdAndCounterName threadId name with htrack
  have hops : p.ops = trackPre uuid ++ .bytes 2 track :: [.beginNested 8] := rfl
  have hlen := Packet.bytes_length_of hops
  rw [show (encode [.beginNested 8]).length = 5 by decide] at hlen
  have hpre := trackPre_length uuid
  have htracklen : track.length < 2 ^ 29 := by
    have hdec := decimal_length threadId
    rw [htrack]
    simp only [getTrackNameFromThreadIdAndCounterName, List.length_append, List.length_cons, List.length_nil]
    omega
  by_cases hnamecut : (makeRoom size w).cap < (makeRoom size w).bytes.length + 5 + (encode (trackPre uuid)).length +
      (lenHead 2 track).length + track.length
  · exact corrupts_of_name_cut hsize hops (Or.inr rfl) (Or.inl rfl) (by omega) htracklen (by omega)
      (decodePacket_trackPre uuid) hw hnamecut
  · -- the name fits, and the empty message behind it does not
    have hops' : p.ops = (trackPre uuid ++ [.bytes 2 track]) ++ [.beginNested 8] := rfl
    have hencode : (encode (trackPre uuid ++ [.bytes 2 track])).length
        = (encode (trackPre uuid)).length + (lenHead 2 track).length + track.length := by
      rw [encode_append, encodeOpen_length]
      simp only [encode, encodeField, lenHead, List.length_append, List.length_nil]
      omega
    exact corrupts_of_counter_cut hsize hops' rfl (by omega) (by omega) (by omega)

/-- **A packet that does not fit is corrupted.** -/
theorem Packet.corrupts (hsize : neededSpace ≤ size) {fuel : ℕ} {p : Packet} (hnames : p.namesLe (2 ^ 28 - 1))
    (hfuel : p.bytes.length ≤ fuel) {w : Writing} (hw : (decodeTrace (makeRoom size w).bytes).isSome)
    (hcut : (makeRoom size w).cap < (makeRoom size w).bytes.length + p.bytes.length) :
    Corrupts size fuel p w := by
  have hshort : ¬ p.namesLe 150 := by
    intro h
    have hroom := makeRoom_available hsize (w := w)
    have hle := Packet.bytes_length_le h
    unfold neededSpace at hroom
    omega
  -- an interned name is the end of its packet
  have hinterned : ∀ {n : ℕ} {iid : UInt32} {name : Bytes}, n = 1 ∨ n = 2 → name.length ≤ 2 ^ 28 - 1 →
      p.ops = internedPre n iid ++ [.bytes 2 name] → Corrupts size fuel p w := by
    intro n iid name hn hname hops
    have hlen := Packet.bytes_length_of hops
    rw [show (encode []).length = 0 from rfl] at hlen
    exact corrupts_of_name_cut hsize hops (Or.inl rfl) (Or.inr rfl) (internedPre_length hn iid) (by omega) (by omega)
      (decodePacket_internedPre hn iid) hw (by omega)
  cases p with
  | category iid name => exact hinterned (Or.inl rfl) hnames rfl
  | eventName iid name => exact hinterned (Or.inr rfl) hnames rfl
  | counterTrack uuid threadId name => exact counterTrack_corrupts hsize uuid threadId hnames hfuel hw hcut
  | _ => exact absurd trivial hshort

theorem Corrupts.not_splitKeeps {fuel : ℕ} {p : Packet} {w : Writing} (h : Corrupts size fuel p w) :
    ¬ SplitKeeps size fuel p w := by
  intro hkeep
  obtain ⟨w', hwrite, hmore, b, hmem, hnone⟩ := h
  have hsome := (hkeep w' hwrite hmore).records b hmem
  rw [hnone] at hsome
  cases hsome

/-- A packet that fits is not split. -/
theorem splitKeeps_of_fits {fuel : ℕ} {p : Packet} {w w' : Writing} (hwrite : writePacket size fuel p w = some w')
    (hdel : w'.delegate = (setWritingPacket false (makeRoom size w)).delegate) : SplitKeeps size fuel p w := by
  intro v hv hmore
  rw [hwrite, Option.some_inj] at hv
  have hsaved : v.saved = (makeRoom size w).saved := by
    rw [← hv]
    unfold Writing.saved
    rw [hdel]
    rfl
  rw [hsaved] at hmore
  exact absurd hmore (Nat.lt_irrefl _)

/-- **No split keeps the trace.** From a buffer of complete packets, with names
shorter than `2 ^ 28` bytes and fuel for the copies, a packet is written without
corruption exactly if it fits in the buffer, so that it is not split at all. -/
theorem splitKeeps_iff {fuel : ℕ} (hsize : neededSpace ≤ size) {p : Packet} (hnames : p.namesLe (2 ^ 28 - 1))
    (hfuel : p.bytes.length ≤ fuel) {w : Writing} (hw : (decodeTrace (makeRoom size w).bytes).isSome) :
    (writePacket size fuel p w).isSome ∧
      (SplitKeeps size fuel p w ↔
        (makeRoom size w).bytes.length + p.bytes.length ≤ (makeRoom size w).cap) := by
  by_cases hfit : (makeRoom size w).bytes.length + p.bytes.length ≤ (makeRoom size w).cap
  · have hpos : 2 < p.bytes.length := by
      have htag : (encodeVarint (tagLen 1)).length = 1 := by decide
      simp only [Packet.bytes, List.length_append, redundantVarint_length, htag]
      omega
    obtain ⟨w', hwrite, -, -, hdel⟩ := writePacket_room (Nat.lt_of_lt_of_le hpos hfuel) hfit
    exact ⟨by rw [hwrite]; rfl, fun _ => hfit, fun _ => splitKeeps_of_fits hwrite hdel⟩
  · have hcorrupts := Packet.corrupts hsize hnames hfuel hw (Nat.lt_of_not_le hfit)
    have hsome : (writePacket size fuel p w).isSome := by
      obtain ⟨w', hwrite, -⟩ := hcorrupts
      rw [hwrite]
      rfl
    exact ⟨hsome, fun hkeep => absurd hkeep hcorrupts.not_splitKeeps, fun h => absurd h hfit⟩

/-- A name as long as a buffer of 1 MiB. -/
def longName : Bytes := List.replicate 1048576 97

theorem longName_length : longName.length = 1048576 := List.length_replicate

/-- A packet with such a name is longer than a new buffer. -/
theorem longName_packet {p : Packet} {pre post : List Op} {name : Bytes} (hops : p.ops = pre ++ .bytes 2 name :: post)
    (hpre : (encode pre).length ≤ 20) (hpost : (encode post).length ≤ 5) (hname : 1048576 ≤ name.length)
    (hname' : name.length ≤ 1048700) : 1048576 < p.bytes.length ∧ p.bytes.length ≤ 2097152 := by
  have hlen := Packet.bytes_length_of hops
  have hhead := lenHead_length (Nat.lt_of_le_of_lt hname' (by decide))
  omega

theorem splitKeeps_longCounter :
    ¬ SplitKeeps 1048576 2097152 (.counterTrack 1 1 longName) (emptyBuffer.start []) := by
  set p := Packet.counterTrack 1 1 longName with hp
  set track := getTrackNameFromThreadIdAndCounterName 1 longName with htrack
  have hnames : p.namesLe (2 ^ 28 - 1) := by
    show longName.length ≤ _
    rw [longName_length]
    omega
  have htracklen : track.length = 1048588 := by
    rw [htrack]
    simp only [getTrackNameFromThreadIdAndCounterName, List.length_append, longName_length]
    decide
  have hops : p.ops = trackPre 1 ++ .bytes 2 track :: [.beginNested 8] := rfl
  have hpre := trackPre_length 1
  obtain ⟨hlong, hshort⟩ := longName_packet hops (by omega) (by decide) (by omega) (by omega)
  have hiff : _ ∧ (SplitKeeps 1048576 2097152 p (emptyBuffer.start []) ↔ _) :=
    splitKeeps_iff (by decide) hnames hshort rfl
  have hcap : (makeRoom 1048576 (emptyBuffer.start [])).cap = 1048576 := rfl
  rw [hiff.2, hcap]
  omega

/-- An event whose name is as long as the buffer corrupts the trace. -/
theorem longEvent_corrupts : ¬ SplitKeeps 1048576 2097152 (.eventName 1 longName) (emptyBuffer.start []) := by
  set p := Packet.eventName 1 longName with hp
  have hnames : p.namesLe (2 ^ 28 - 1) := by
    show longName.length ≤ _
    rw [longName_length]
    omega
  have hops : p.ops = internedPre 2 1 ++ [.bytes 2 longName] := rfl
  obtain ⟨hlong, hshort⟩ := longName_packet hops (internedPre_length (Or.inr rfl) 1) (by decide)
    (Nat.le_of_eq longName_length.symm) (Nat.le_trans (Nat.le_of_eq longName_length) (by decide))
  have hcap : (makeRoom 1048576 (emptyBuffer.start [])).cap = 1048576 := rfl
  have hcorrupts : Corrupts 1048576 2097152 p (emptyBuffer.start []) := by
    apply Packet.corrupts (by decide) hnames hshort rfl
    rw [hcap]
    omega
  exact hcorrupts.not_splitKeeps

end Host
end VPerfetto
