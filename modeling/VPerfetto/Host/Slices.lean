/-
# The events of slices

What a call writes of slices, and what it does to the depth and to the two
arrays of ids. `beginTrace` writes one beginning and `endTrace` one end, both
with the ids in the cells of the depth (`Call.body_slices`); no call touches
any other cell (`Call.body_cells`).

Key definitions: `SliceIds`, `Packet.slice`, `Body.slices`, `ThreadInfo.sliceIds`,
`ThreadInfo.openIds`, `Quiet`.
Key theorems: `Call.body_slices`, `Call.body_cells`, `Call.body_openIds`.
-/
import VPerfetto.Lib.Brackets
import VPerfetto.Host.Names

namespace VPerfetto
namespace Host

open Wire Brackets DyckStep

/-- What the two events of a slice have in common. -/
structure SliceIds where
  trackUuid : Option UInt64
  nameIid : Option UInt64
  categoryIids : List UInt64
deriving DecidableEq

/-- `TYPE_SLICE_BEGIN` and `TYPE_SLICE_END` as brackets. -/
def TrackEvent.slice (e : TrackEvent) : Option (DyckStep × SliceIds) :=
  if e.type = some 1 then some (U, ⟨e.trackUuid, e.nameIid, e.categoryIids⟩)
  else if e.type = some 2 then some (D, ⟨e.trackUuid, e.nameIid, e.categoryIids⟩)
  else none

def Packet.slice (p : Packet) : Option (DyckStep × SliceIds) := p.record.trackEvent.bind TrackEvent.slice

/-- The events of slices that a call writes. -/
def Body.slices (b : Body) : List (DyckStep × SliceIds) := b.packets.filterMap Packet.slice

namespace ThreadInfo

/-- The ids of an event of the slice at this depth. -/
def sliceIds (i : ThreadInfo) (depth : ℕ) : SliceIds :=
  ⟨some i.threadId.toUInt64, some (i.currentEventNameIid depth).toUInt64, [(i.currentCategoryIid depth).toUInt64]⟩

/-- The ids in the cells below this depth, from the innermost slice. -/
def openIds (i : ThreadInfo) : ℕ → List SliceIds
  | 0 => []
  | depth + 1 => i.sliceIds depth :: i.openIds depth

theorem openIds_congr {i i' : ThreadInfo} (hid : i'.threadId = i.threadId) : ∀ {depth : ℕ},
    (∀ k < depth, i'.currentCategoryIid k = i.currentCategoryIid k ∧
      i'.currentEventNameIid k = i.currentEventNameIid k) → i'.openIds depth = i.openIds depth
  | 0, _ => rfl
  | depth + 1, h => by
    obtain ⟨hcat, hname⟩ := h depth (Nat.lt_succ_self depth)
    have hrest := openIds_congr hid fun k hk => h k (Nat.lt_succ_of_lt hk)
    simp only [openIds, sliceIds, hid, hcat, hname, hrest]

end ThreadInfo

section

variable {strings : Ptr → Bytes} {call : Call} {now : UInt64} {c : VirtualDeviceTraceConfig}
  {i : ThreadInfo} {a b b' : Body}

theorem emit_slices (b : Body) (p : Packet) : (b.emit p).slices = b.slices ++ p.slice.toList := by
  rw [Body.slices, Body.emit, List.filterMap_append]
  cases h : p.slice <;> simp [Body.slices, h]

/-- A part of a call that writes no event of a slice and of the cells changes
those of the depth alone. -/
structure Quiet (b b' : Body) : Prop where
  slices : b'.slices = b.slices
  depth : b'.info.stackDepth = b.info.stackDepth
  cells : ∀ k ≠ b.info.stackDepth, b'.info.currentCategoryIid k = b.info.currentCategoryIid k ∧
    b'.info.currentEventNameIid k = b.info.currentEventNameIid k

theorem Quiet.refl (b : Body) : Quiet b b := ⟨rfl, rfl, fun _ _ => ⟨rfl, rfl⟩⟩

theorem Quiet.trans (h1 : Quiet a b) (h2 : Quiet b b') : Quiet a b' := by
  refine ⟨h2.slices.trans h1.slices, h2.depth.trans h1.depth, fun k hk => ?_⟩
  obtain ⟨hcat, hname⟩ := h1.cells k hk
  obtain ⟨hcat', hname'⟩ := h2.cells k (h1.depth ▸ hk)
  exact ⟨hcat'.trans hcat, hname'.trans hname⟩

theorem Quiet.emit {p : Packet} (hp : p.slice = none) (b : Body) : Quiet b (b.emit p) := by
  refine ⟨?_, rfl, fun _ _ => ⟨rfl, rfl⟩⟩
  rw [emit_slices, hp]
  exact List.append_nil b.slices

theorem writeCategory_quiet (b : Body) : Quiet b (writeCategory b) := by
  rcases writeCategory_cases b with ⟨iid, -, he⟩ | he
  · rw [he]
    exact ⟨rfl, rfl, fun k hk => ⟨Function.update_of_ne hk _ _, rfl⟩⟩
  · rw [he]
    refine ⟨?_, rfl, fun k hk => ⟨Function.update_of_ne hk _ _, rfl⟩⟩
    exact (Quiet.emit (p := .category b.config.currentInterningId kCategory) rfl b).slices

theorem writeThreadTrack_quiet (b : Body) : Quiet b (writeThreadTrack b) := by
  unfold writeThreadTrack
  split
  · refine ⟨?_, rfl, fun _ _ => ⟨rfl, rfl⟩⟩
    exact (Quiet.emit (p := .threadTrack (b.config.currentThreadId + 1)) rfl b).slices
  · exact Quiet.refl b

theorem ensureThreadInfo_quiet (h : ensureThreadInfo { config := c, info := i } = some b) :
    Quiet { config := c, info := i } b := by
  obtain ⟨b₀, h0, -, -, rfl, -⟩ := ensureThreadInfo_cases h
  have hstart : Quiet { config := c, info := i } b₀ := by
    rcases writeSequenceId_cases h0 with ⟨-, rfl⟩ | ⟨-, -, rfl⟩
    · exact ⟨rfl, rfl, fun _ _ => ⟨rfl, rfl⟩⟩
    · exact ⟨rfl, rfl, fun _ _ => ⟨rfl, rfl⟩⟩
  exact hstart.trans ((writeCategory_quiet b₀).trans (writeThreadTrack_quiet _))

theorem writeCounter_quiet (strings : Ptr → Bytes) (now : UInt64) (name : Ptr) (val : Int64) (b : Body) :
    Quiet b (writeCounter strings now name val b) := by
  obtain ⟨b₁, uuid, hb₁, he⟩ := writeCounter_cases strings now name val b
  rw [he]
  have htrack : Quiet b b₁ := by
    rcases hb₁ with ⟨-, rfl⟩ | ⟨-, rfl⟩
    · exact Quiet.refl b₁
    · refine ⟨?_, rfl, fun _ _ => ⟨rfl, rfl⟩⟩
      exact (Quiet.emit (p := .counterTrack uuid b.info.threadId (strings name)) rfl b).slices
  exact htrack.trans (Quiet.emit rfl b₁)

/-- A slice begins: up to its event nothing is written of slices, and the event
has the ids in the cells. -/
theorem writeSliceBegin_quiet (strings : Ptr → Bytes) (now : UInt64) (name : Ptr) (b : Body) :
    ∃ b₁, Quiet b b₁ ∧ (writeSliceBegin strings now name b).info = { b₁.info with stackDepth := b.info.stackDepth + 1 } ∧
      (writeSliceBegin strings now name b).slices = b.slices ++ [(U, b₁.info.sliceIds b.info.stackDepth)] := by
  obtain ⟨b₁, iid, hb₁, he⟩ := writeSliceBegin_cases strings now name b
  have hname : Quiet b b₁ := by
    rcases hb₁ with ⟨-, rfl⟩ | ⟨-, rfl⟩
    · exact ⟨rfl, rfl, fun k hk => ⟨rfl, Function.update_of_ne hk _ _⟩⟩
    · refine ⟨?_, rfl, fun k hk => ⟨rfl, Function.update_of_ne hk _ _⟩⟩
      exact (Quiet.emit (p := .eventName iid (strings name)) rfl b).slices
  refine ⟨b₁, hname, ?_, ?_⟩
  · rw [he, ← hname.depth]
  · have hemit := emit_slices b₁ (.sliceBegin (b₁.config.getTimestamp now) b₁.info.threadId
      (b₁.info.currentCategoryIid b₁.info.stackDepth) (b₁.info.currentEventNameIid b₁.info.stackDepth))
    rw [he, ← hname.depth, ← hname.slices]
    exact hemit

/-- **What a call writes of slices**, and the depth after it. -/
theorem Call.body_slices (h : call.body strings now c i = some b) :
    (∃ name, call = .beginTrace name ∧ b.info.stackDepth = i.stackDepth + 1 ∧
        b.slices = [(U, b.info.sliceIds i.stackDepth)]) ∨
      (call = .endTrace ∧ b.info = i ∧ b.slices = [(D, i.sliceIds i.stackDepth)]) ∨
      (∃ name val, call = .traceCounter name val ∧ b.info.stackDepth = i.stackDepth ∧ b.slices = []) := by
  cases call with
  | beginTrace name =>
    obtain ⟨b₀, h0, h⟩ := Option.bind_eq_some_iff.mp h
    obtain rfl := Option.some.inj h
    have hensure := ensureThreadInfo_quiet h0
    obtain ⟨b₁, -, hinfo, hslices⟩ := writeSliceBegin_quiet strings now name b₀
    refine Or.inl ⟨name, rfl, ?_, ?_⟩
    · rw [hinfo, ← show b₀.info.stackDepth = i.stackDepth from hensure.depth]
    · rw [hslices, hinfo, show b₀.slices = [] from hensure.slices,
        show b₀.info.stackDepth = i.stackDepth from hensure.depth]
      rfl
  | endTrace =>
    obtain rfl := Option.some.inj h
    exact Or.inr (Or.inl ⟨rfl, rfl, rfl⟩)
  | traceCounter name val =>
    obtain ⟨b₀, h0, h⟩ := Option.bind_eq_some_iff.mp h
    obtain rfl := Option.some.inj h
    have hcounter := (ensureThreadInfo_quiet h0).trans (writeCounter_quiet strings now name val b₀)
    exact Or.inr (Or.inr ⟨name, val, rfl, hcounter.depth, hcounter.slices⟩)

/-- **Of the cells a call changes those of its depth alone.** -/
theorem Call.body_cells (h : call.body strings now c i = some b) (k : ℕ) (hk : k ≠ i.stackDepth) :
    b.info.currentCategoryIid k = i.currentCategoryIid k ∧ b.info.currentEventNameIid k = i.currentEventNameIid k := by
  cases call with
  | beginTrace name =>
    obtain ⟨b₀, h0, h⟩ := Option.bind_eq_some_iff.mp h
    obtain rfl := Option.some.inj h
    obtain ⟨b₁, hname, hinfo, -⟩ := writeSliceBegin_quiet strings now name b₀
    rw [hinfo]
    exact ((ensureThreadInfo_quiet h0).trans hname).cells k hk
  | endTrace =>
    obtain rfl := Option.some.inj h
    exact ⟨rfl, rfl⟩
  | traceCounter name val =>
    obtain ⟨b₀, h0, h⟩ := Option.bind_eq_some_iff.mp h
    obtain rfl := Option.some.inj h
    exact ((ensureThreadInfo_quiet h0).trans (writeCounter_quiet strings now name val b₀)).cells k hk

/-- The ids of the open slices stay, once the thread has its own. -/
theorem Call.body_openIds (h : call.body strings now c i = some b)
    (hid : 0 < i.stackDepth → i.needToSetThreadId = false) : b.info.openIds i.stackDepth = i.openIds i.stackDepth := by
  rcases Nat.eq_zero_or_pos i.stackDepth with h0 | hpos
  · rw [h0]
    rfl
  · have hset := hid hpos
    obtain ⟨hthread, -⟩ := Call.body_assignedId (fun _ => hset) h
    have hsame : b.info.threadId = i.threadId := by
      rw [hthread, ThreadInfo.assignedId, hset]
      rfl
    exact ThreadInfo.openIds_congr hsame fun k hk => Call.body_cells h k (Nat.ne_of_lt hk)

end

end Host
end VPerfetto
