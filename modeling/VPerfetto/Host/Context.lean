/-
# The calls of a thread

What `beginTrace`, `endTrace` and `traceCounter` do, apart from how packets
reach the buffer: the part before the lock (`Call.enter`) and the part under
it (`Call.body`), which hands out ids and yields the packets to write.

Key definitions: `ThreadInfo`, `Call`, `Call.enter`, `Call.body`.
Key theorems: `ensureThreadInfo_cases`, `Call.body_cases`.
-/
import VPerfetto.Host.Config
import VPerfetto.Host.Packet

namespace VPerfetto
namespace Host

open Wire

/-- A name pointer. Tables are keyed by pointers, not by the strings. -/
abbrev Ptr := ℕ

/-- The fields of a `TraceContext` that are not about its buffer.
`mNeedToConfigureGuestTime` and `mTimeDiff` are left out: nothing reads them.
The two arrays have 16 entries; cells from 16 on stand for the memory after them. -/
structure ThreadInfo where
  needToSetThreadId : Bool := true
  threadId : UInt32 := 0
  currentCounterId : UInt32 := 1
  stackDepth : ℕ := 0
  currentCategoryIid : ℕ → UInt32 := fun _ => 0
  currentEventNameIid : ℕ → UInt32 := fun _ => 0
  eventCategoryInterningIds : List (Ptr × UInt32) := []
  eventNameInterningIds : List (Ptr × UInt32) := []
  counterNameToTrackUuids : List (Ptr × UInt64) := []

/-- `TRACE_STACK_DEPTH_MAX`. -/
def traceStackDepthMax : ℕ := 16

/-- The part of `resetLocked(false)` about these fields. The arrays keep their contents. -/
def ThreadInfo.reset (i : ThreadInfo) : ThreadInfo :=
  { currentCategoryIid := i.currentCategoryIid, currentEventNameIid := i.currentEventNameIid }

/-- The lookup that `internCategory` and `internEvent` share: the id, whether
it is new, the table after it and the next id to hand out. -/
def intern (table : List (Ptr × UInt32)) (next : UInt32) (str : Ptr) :
    UInt32 × Bool × List (Ptr × UInt32) × UInt32 :=
  match table.lookup str with
  | some iid => (iid, false, table, next)
  | none => (next, true, (str, next) :: table, next + 1)

/-- What a call under the lock leaves behind: whether it set `mFirst`, and the
packets it writes, in order. -/
structure Body where
  config : VirtualDeviceTraceConfig
  info : ThreadInfo
  first : Bool := false
  packets : List Packet := []

def internCategory (str : Ptr) (b : Body) : UInt32 × Bool × Body :=
  let (iid, new, table, next) := intern b.info.eventCategoryInterningIds b.config.currentInterningId str
  (iid, new, { b with
    info := { b.info with eventCategoryInterningIds := table }
    config := { b.config with currentInterningId := next } })

def internEvent (str : Ptr) (b : Body) : UInt32 × Bool × Body :=
  let (iid, new, table, next) := intern b.info.eventNameInterningIds b.config.currentInterningId str
  (iid, new, { b with
    info := { b.info with eventNameInterningIds := table }
    config := { b.config with currentInterningId := next } })

def Body.emit (b : Body) (p : Packet) : Body := { b with packets := b.packets ++ [p] }

/-- The address of the literal `kCategory`, the only key of its table. -/
def kCategoryPtr : Ptr := 0

/-- The packet that starts the sequence, by the first call of a session; later
calls wait for it (`none`: they spin). -/
def writeSequenceId (b : Body) : Option Body :=
  let b := { b with config := { b.config with packetsWritten := b.config.packetsWritten + 1 } }
  if b.config.packetsWritten = 1 then
    some ({ b with first := true, config := { b.config with sequenceIdWritten := true } }.emit .sequenceStart)
  else if !b.config.sequenceIdWritten then none
  else some b

def writeCategory (b : Body) : Body :=
  let (iid, new, b) := internCategory kCategoryPtr b
  let b := { b with info := { b.info with
    currentCategoryIid := Function.update b.info.currentCategoryIid b.info.stackDepth iid } }
  if new then b.emit (.category iid kCategory) else b

def writeThreadTrack (b : Body) : Body :=
  if b.info.needToSetThreadId then
    let threadId := b.config.currentThreadId + 1
    { b with
      config := { b.config with currentThreadId := threadId }
      info := { b.info with threadId := threadId, needToSetThreadId := false } }.emit (.threadTrack threadId)
  else b

def ensureThreadInfo (b : Body) : Option Body := do
  let b ← writeSequenceId b
  return writeThreadTrack (writeCategory b)

/-- `(((uint64_t)mCurrentCounterId) << 32) | mThreadId`. -/
def counterTrackUuid (counterId threadId : UInt32) : UInt64 :=
  (counterId.toUInt64 <<< 32) ||| threadId.toUInt64

/-- The uuid, whether it is new, and the context after it. -/
def getOrCreateCounterTrackUuid (name : Ptr) (i : ThreadInfo) : UInt64 × Bool × ThreadInfo :=
  match i.counterNameToTrackUuids.lookup name with
  | some uuid => (uuid, false, i)
  | none =>
    let uuid := counterTrackUuid i.currentCounterId i.threadId
    (uuid, true, { i with
      counterNameToTrackUuids := (name, uuid) :: i.counterNameToTrackUuids
      currentCounterId := i.currentCounterId + 1 })

inductive Call where
  | beginTrace (name : Ptr)
  | endTrace
  | traceCounter (name : Ptr) (val : Int64)
deriving DecidableEq, Repr

/-- Before the lock: the tests that make a call return at once (`none`), and
the decrement of `endTrace`, as one step on a natural number. -/
def Call.enter (c : VirtualDeviceTraceConfig) (i : ThreadInfo) : Call → Option ThreadInfo
  | .beginTrace _ =>
    if c.tracingDisabled then none
    else if i.stackDepth = traceStackDepthMax then none
    else some i
  | .endTrace =>
    if c.tracingDisabled then none
    else if i.stackDepth = traceStackDepthMax then none
    else if i.stackDepth = 0 then none
    else some { i with stackDepth := i.stackDepth - 1 }
  | .traceCounter _ _ => if c.tracingDisabled then none else some i

section Body

variable (strings : Ptr → Bytes)

def writeSliceBegin (now : UInt64) (name : Ptr) (b : Body) : Body :=
  let (iid, new, b) := internEvent name b
  let b := { b with info := { b.info with
    currentEventNameIid := Function.update b.info.currentEventNameIid b.info.stackDepth iid } }
  let b := if new then b.emit (.eventName iid (strings name)) else b
  let b := b.emit (.sliceBegin (b.config.getTimestamp now) b.info.threadId
    (b.info.currentCategoryIid b.info.stackDepth) (b.info.currentEventNameIid b.info.stackDepth))
  { b with info := { b.info with stackDepth := b.info.stackDepth + 1 } }

def writeSliceEnd (now : UInt64) (b : Body) : Body :=
  b.emit (.sliceEnd (b.config.getTimestamp now) b.info.threadId
    (b.info.currentCategoryIid b.info.stackDepth) (b.info.currentEventNameIid b.info.stackDepth))

def writeCounter (now : UInt64) (name : Ptr) (val : Int64) (b : Body) : Body :=
  let (uuid, new, info) := getOrCreateCounterTrackUuid name b.info
  let b := { b with info := info }
  let b := if new then b.emit (.counterTrack uuid info.threadId (strings name)) else b
  b.emit (.counter (b.config.getTimestamp now) uuid val)

/-- Under the lock, at boot time `now`. -/
def Call.body (now : UInt64) (c : VirtualDeviceTraceConfig) (i : ThreadInfo) : Call → Option Body
  | .beginTrace name => do
    let b ← ensureThreadInfo { config := c, info := i }
    return writeSliceBegin strings now name b
  | .endTrace => some (writeSliceEnd now { config := c, info := i })
  | .traceCounter name val => do
    let b ← ensureThreadInfo { config := c, info := i }
    return writeCounter strings now name val b

end Body

/-! ### What the parts of a call write -/

/-- From `b` to `b'`, packets that satisfy `Q` are written and ids handed out. -/
structure Extends (Q : Packet → Prop) (b b' : Body) : Prop where
  first : b'.first = b.first
  config : ∃ interningId threadId, b'.config =
    { b.config with currentInterningId := interningId, currentThreadId := threadId }
  packets : ∃ new, b'.packets = b.packets ++ new ∧ ∀ p ∈ new, Q p

section Extends

variable {strings : Ptr → Bytes} {Q : Packet → Prop} {a b c : Body}

theorem Extends.refl (Q : Packet → Prop) (b : Body) : Extends Q b b :=
  ⟨rfl, ⟨_, _, rfl⟩, [], by simp, by simp⟩

theorem Extends.trans (h1 : Extends Q a b) (h2 : Extends Q b c) : Extends Q a c := by
  obtain ⟨i1, t1, hc1⟩ := h1.config
  obtain ⟨i2, t2, hc2⟩ := h2.config
  obtain ⟨n1, hp1, hq1⟩ := h1.packets
  obtain ⟨n2, hp2, hq2⟩ := h2.packets
  refine ⟨h2.first.trans h1.first, ⟨i2, t2, ?_⟩, n1 ++ n2, ?_, fun p hp => ?_⟩
  · rw [hc2, hc1]
  · rw [hp2, hp1, List.append_assoc]
  · rcases List.mem_append.mp hp with hp | hp
    · exact hq1 p hp
    · exact hq2 p hp

theorem Extends.emit {p : Packet} (h : Q p) (b : Body) : Extends Q b (b.emit p) :=
  ⟨rfl, ⟨_, _, rfl⟩, [p], rfl, by simpa using h⟩

/-- A change of the context alone. -/
theorem Extends.info (Q : Packet → Prop) (b : Body) (i : ThreadInfo) : Extends Q b { b with info := i } :=
  ⟨rfl, ⟨_, _, rfl⟩, [], by simp, by simp⟩

theorem Extends.emit_if {p : Packet} (h : Q p) (new : Bool) (b : Body) :
    Extends Q b (if new then b.emit p else b) := by
  split
  · exact .emit h b
  · exact .refl Q b

theorem internCategory_extends (str : Ptr) (b : Body) : Extends Q b (internCategory str b).2.2 :=
  ⟨rfl, ⟨_, _, rfl⟩, [], by simp [internCategory], by simp⟩

theorem internEvent_extends (str : Ptr) (b : Body) : Extends Q b (internEvent str b).2.2 :=
  ⟨rfl, ⟨_, _, rfl⟩, [], by simp [internEvent], by simp⟩

theorem writeCategory_extends (h : ∀ iid, Q (.category iid kCategory)) (b : Body) :
    Extends Q b (writeCategory b) :=
  ((internCategory_extends _ b).trans (.info Q _ _)).trans (.emit_if (h _) _ _)

theorem writeThreadTrack_extends {b : Body}
    (h : b.info.needToSetThreadId = true → Q (.threadTrack (b.config.currentThreadId + 1))) :
    Extends Q b (writeThreadTrack b) := by
  unfold writeThreadTrack
  split
  · rename_i hn
    exact ⟨rfl, ⟨_, _, rfl⟩, [.threadTrack (b.config.currentThreadId + 1)], rfl, by simpa using h hn⟩
  · exact .refl Q b

theorem writeSliceBegin_extends {name : Ptr} {b : Body} (hn : ∀ iid, Q (.eventName iid (strings name)))
    (hs : ∀ ts cat iid, Q (.sliceBegin ts b.info.threadId cat iid)) (now : UInt64) :
    Extends Q b (writeSliceBegin strings now name b) := by
  refine ((((internEvent_extends _ b).trans (.info Q _ _)).trans (.emit_if (hn _) _ _)).trans
    (.emit ?_ _)).trans (.info Q _ _)
  split <;> exact hs _ _ _

theorem writeSliceEnd_extends {b : Body} (hs : ∀ ts cat iid, Q (.sliceEnd ts b.info.threadId cat iid))
    (now : UInt64) : Extends Q b (writeSliceEnd now b) :=
  .emit (hs _ _ _) b

theorem writeCounter_extends {name : Ptr} {b : Body}
    (ht : ∀ uuid, Q (.counterTrack uuid b.info.threadId (strings name)))
    (hc : ∀ ts uuid v, Q (.counter ts uuid v)) (now : UInt64) (val : Int64) :
    Extends Q b (writeCounter strings now name val b) := by
  refine ((Extends.info Q b _).trans (.emit_if ?_ _ _)).trans (.emit (hc _ _ _) _)
  split <;> exact ht _

/-- `writeSequenceId` counts the call; the first one of a session writes the
start of the sequence and has the mark. -/
theorem writeSequenceId_cases {c : VirtualDeviceTraceConfig} {i : ThreadInfo}
    (h : writeSequenceId { config := c, info := i } = some b) :
    (c.packetsWritten + 1 = 1 ∧ b = { config := { c with packetsWritten := 1, sequenceIdWritten := true }
                                      info := i, first := true, packets := [.sequenceStart] }) ∨
      (c.packetsWritten + 1 ≠ 1 ∧ c.sequenceIdWritten = true ∧
        b = { config := { c with packetsWritten := c.packetsWritten + 1 }, info := i }) := by
  unfold writeSequenceId at h
  dsimp only at h
  by_cases hw : c.packetsWritten + 1 = 1
  · rw [if_pos hw] at h
    refine Or.inl ⟨hw, ?_⟩
    rw [← Option.some.inj h, hw]
    rfl
  · rw [if_neg hw] at h
    split at h
    · exact absurd h.symm (Option.some_ne_none _)
    · rename_i hs
      exact Or.inr ⟨hw, by simpa using hs, (Option.some.inj h).symm⟩

/-- The id of the thread once `ensureThreadInfo` has run. -/
def ThreadInfo.assignedId (i : ThreadInfo) (c : VirtualDeviceTraceConfig) : UInt32 :=
  if i.needToSetThreadId then c.currentThreadId + 1 else i.threadId

/-- Predicates of all that a call can write after the start of the sequence. -/
structure Writable (strings : Ptr → Bytes) (Q : Packet → Prop) (c : VirtualDeviceTraceConfig)
    (i : ThreadInfo) (call : Call) : Prop where
  category : ∀ iid, Q (.category iid kCategory)
  threadTrack : i.needToSetThreadId = true → Q (.threadTrack (c.currentThreadId + 1))
  eventName : ∀ name iid, call = .beginTrace name → Q (.eventName iid (strings name))
  sliceBegin : ∀ ts cat iid, Q (.sliceBegin ts (i.assignedId c) cat iid)
  sliceEnd : call = .endTrace → ∀ ts cat iid, Q (.sliceEnd ts i.threadId cat iid)
  counterTrack : ∀ name val uuid, call = .traceCounter name val →
    Q (.counterTrack uuid (i.assignedId c) (strings name))
  counter : ∀ ts uuid v, Q (.counter ts uuid v)

/-- The thread id after the stages of `ensureThreadInfo`. -/
theorem ensureThreadInfo_cases {c : VirtualDeviceTraceConfig} {i : ThreadInfo}
    (h : ensureThreadInfo { config := c, info := i } = some b) :
    ∃ b₀, writeSequenceId { config := c, info := i } = some b₀ ∧ b₀.info = i ∧
      b₀.config.currentThreadId = c.currentThreadId ∧ b = writeThreadTrack (writeCategory b₀) ∧
      b.info.threadId = i.assignedId c ∧ b.info.needToSetThreadId = false ∧
      b.config.currentThreadId = (if i.needToSetThreadId then c.currentThreadId + 1 else c.currentThreadId) ∧
      b.info.stackDepth = i.stackDepth := by
  unfold ensureThreadInfo at h
  simp only [Option.bind_eq_bind, Option.bind_eq_some_iff, Option.pure_def, Option.some.injEq] at h
  obtain ⟨b₀, h0, rfl⟩ := h
  have hi : b₀.info = i ∧ b₀.config.currentThreadId = c.currentThreadId := by
    rcases writeSequenceId_cases h0 with ⟨-, rfl⟩ | ⟨-, -, rfl⟩ <;> exact ⟨rfl, rfl⟩
  obtain ⟨hi, hc⟩ := hi
  have hcat : (writeCategory b₀).info.needToSetThreadId = i.needToSetThreadId ∧
      (writeCategory b₀).info.threadId = i.threadId ∧
      (writeCategory b₀).config.currentThreadId = c.currentThreadId ∧
      (writeCategory b₀).info.stackDepth = i.stackDepth := by
    unfold writeCategory
    dsimp only
    split <;> simp [internCategory, Body.emit, hi, hc]
  obtain ⟨h1, h2, h3, h4⟩ := hcat
  refine ⟨b₀, h0, hi, hc, rfl, ?_⟩
  unfold writeThreadTrack ThreadInfo.assignedId
  rw [h1, h3]
  by_cases hn : i.needToSetThreadId = true
  · simp [hn, Body.emit, h4]
  · simp only [Bool.not_eq_true] at hn
    simp [hn, h1, h2, h3, h4]

/-- **What the body of a call writes.** `endTrace` writes one packet and
nothing else changes; the other calls count themselves, the first of a session
starts the sequence, and all end with an event. -/
theorem Call.body_cases {call : Call} {now : UInt64} {c : VirtualDeviceTraceConfig} {i : ThreadInfo}
    (hQ : Writable strings Q c i call) (h : call.body strings now c i = some b) :
    b.packets ≠ [] ∧ ((call = .endTrace ∧ Extends Q { config := c, info := i } b ∧ b.config = c) ∨
      (call ≠ .endTrace ∧ ∃ b₀, writeSequenceId { config := c, info := i } = some b₀ ∧ Extends Q b₀ b)) := by
  have hensure : ∀ {b₂ : Body}, ensureThreadInfo { config := c, info := i } = some b₂ →
      b₂.info.threadId = i.assignedId c ∧
        ∃ b₀, writeSequenceId { config := c, info := i } = some b₀ ∧ Extends Q b₀ b₂ := by
    intro b₂ he
    obtain ⟨b₀, h0, hi, hc, rfl, hid, -, -, -⟩ := ensureThreadInfo_cases he
    refine ⟨hid, b₀, h0, (writeCategory_extends hQ.category b₀).trans (writeThreadTrack_extends fun hn => ?_)⟩
    have hcat : (writeCategory b₀).info.needToSetThreadId = i.needToSetThreadId ∧
        (writeCategory b₀).config.currentThreadId = c.currentThreadId := by
      unfold writeCategory
      dsimp only
      split <;> simp [internCategory, Body.emit, hi, hc]
    rw [hcat.2]
    exact hQ.threadTrack (hcat.1 ▸ hn)
  cases call with
  | beginTrace name =>
    simp only [Call.body, Option.bind_eq_bind, Option.bind_eq_some_iff, Option.pure_def, Option.some.injEq] at h
    obtain ⟨b₁, h1, rfl⟩ := h
    obtain ⟨hid, b₀, h0, hx⟩ := hensure h1
    refine ⟨by simp [writeSliceBegin, Body.emit], Or.inr ⟨by simp, b₀, h0, hx.trans ?_⟩⟩
    exact writeSliceBegin_extends (fun iid => hQ.eventName name iid rfl) (hid ▸ hQ.sliceBegin) now
  | endTrace =>
    obtain rfl := Option.some.inj h
    exact ⟨by simp [writeSliceEnd, Body.emit], Or.inl ⟨rfl, writeSliceEnd_extends (hQ.sliceEnd rfl) now, rfl⟩⟩
  | traceCounter name val =>
    simp only [Call.body, Option.bind_eq_bind, Option.bind_eq_some_iff, Option.pure_def, Option.some.injEq] at h
    obtain ⟨b₁, h1, rfl⟩ := h
    obtain ⟨hid, b₀, h0, hx⟩ := hensure h1
    refine ⟨by simp [writeCounter, Body.emit], Or.inr ⟨by simp, b₀, h0, hx.trans ?_⟩⟩
    exact writeCounter_extends (hid ▸ fun uuid => hQ.counterTrack name val uuid rfl) hQ.counter now val

/-- All that a call writes. -/
theorem Call.body_packets {call : Call} {now : UInt64} {c : VirtualDeviceTraceConfig} {i : ThreadInfo}
    (hQ : Writable strings Q c i call) (h0 : Q .sequenceStart) (h : call.body strings now c i = some b) :
    ∀ p ∈ b.packets, Q p := by
  obtain ⟨-, ⟨-, hx, -⟩ | ⟨-, b₀, hb, hx⟩⟩ := Call.body_cases hQ h
  · obtain ⟨new, hp, hq⟩ := hx.packets
    intro p hm
    rw [hp] at hm
    exact hq p (by simpa using hm)
  · obtain ⟨new, hp, hq⟩ := hx.packets
    intro p hm
    rw [hp] at hm
    rcases List.mem_append.mp hm with hm | hm
    · rcases writeSequenceId_cases hb with ⟨-, rfl⟩ | ⟨-, -, rfl⟩
      · rw [List.mem_singleton.mp hm]
        exact h0
      · exact absurd hm List.not_mem_nil
    · exact hq p hm

theorem Extends.mem {p : Packet} (h : Extends Q a b) (hp : p ∈ a.packets) : p ∈ b.packets := by
  obtain ⟨new, hn, -⟩ := h.packets
  rw [hn]
  exact List.mem_append_left new hp

/-- After a call that sets up its thread, the thread has its id, and if the id
is new its track has been written. -/
theorem Call.body_threadId {call : Call} {now : UInt64} {c : VirtualDeviceTraceConfig} {i : ThreadInfo}
    (hcall : call ≠ .endTrace) (h : call.body strings now c i = some b) :
    b.info.threadId = i.assignedId c ∧ b.info.needToSetThreadId = false ∧
      b.config.currentThreadId = (if i.needToSetThreadId then c.currentThreadId + 1 else c.currentThreadId) ∧
      (i.needToSetThreadId = true → .threadTrack (c.currentThreadId + 1) ∈ b.packets) := by
  have htrack : ∀ {b₁ : Body}, ensureThreadInfo { config := c, info := i } = some b₁ →
      i.needToSetThreadId = true → Packet.threadTrack (c.currentThreadId + 1) ∈ b₁.packets := by
    intro b₁ h1 hn
    obtain ⟨b₀, -, hi, hc, rfl, -⟩ := ensureThreadInfo_cases h1
    have hcat : (writeCategory b₀).info.needToSetThreadId = true ∧
        (writeCategory b₀).config.currentThreadId = c.currentThreadId := by
      unfold writeCategory
      dsimp only
      split <;> simp [internCategory, Body.emit, hi, hc, hn]
    unfold writeThreadTrack
    rw [if_pos hcat.1, hcat.2]
    simp [Body.emit]
  cases call with
  | beginTrace name =>
    simp only [Call.body, Option.bind_eq_bind, Option.bind_eq_some_iff, Option.pure_def, Option.some.injEq] at h
    obtain ⟨b₁, h1, rfl⟩ := h
    obtain ⟨-, -, -, -, -, h2, h3, h4, -⟩ := ensureThreadInfo_cases h1
    have hx : Extends (fun _ => True) b₁ (writeSliceBegin strings now name b₁) :=
      writeSliceBegin_extends (fun _ => trivial) (fun _ _ _ => trivial) now
    refine ⟨h2 ▸ ?_, h3 ▸ ?_, h4 ▸ ?_, fun hn => hx.mem (htrack h1 hn)⟩
    all_goals
      unfold writeSliceBegin
      dsimp only
      split <;> rfl
  | endTrace => exact absurd rfl hcall
  | traceCounter name val =>
    simp only [Call.body, Option.bind_eq_bind, Option.bind_eq_some_iff, Option.pure_def, Option.some.injEq] at h
    obtain ⟨b₁, h1, rfl⟩ := h
    obtain ⟨-, -, -, -, -, h2, h3, h4, -⟩ := ensureThreadInfo_cases h1
    have hx : Extends (fun _ => True) b₁ (writeCounter strings now name val b₁) :=
      writeCounter_extends (fun _ => trivial) (fun _ _ _ => trivial) now val
    refine ⟨h2 ▸ ?_, h3 ▸ ?_, h4 ▸ ?_, fun hn => hx.mem (htrack h1 hn)⟩
    all_goals
      unfold writeCounter getOrCreateCounterTrackUuid
      cases b₁.info.counterNameToTrackUuids.lookup name <;> rfl

/-- `endTrace` changes nothing under the lock and needs a thread with an id;
then what holds of the other calls holds of it too. -/
theorem Call.body_assignedId {call : Call} {now : UInt64} {c : VirtualDeviceTraceConfig} {i : ThreadInfo}
    (hset : call = .endTrace → i.needToSetThreadId = false) (h : call.body strings now c i = some b) :
    b.info.threadId = i.assignedId c ∧ b.info.needToSetThreadId = false ∧
      b.config.currentThreadId = (if i.needToSetThreadId then c.currentThreadId + 1 else c.currentThreadId) ∧
      (i.needToSetThreadId = true → .threadTrack (c.currentThreadId + 1) ∈ b.packets) := by
  by_cases hc : call = .endTrace
  · have hn := hset hc
    subst hc
    obtain rfl := Option.some.inj h
    simp [writeSliceEnd, Body.emit, ThreadInfo.assignedId, hn]
  · exact Call.body_threadId hc h

/-- What the tests of a call do to the context. -/
theorem Call.enter_info {call : Call} {c : VirtualDeviceTraceConfig} {i info : ThreadInfo}
    (h : call.enter c i = some info) :
    (call ≠ .endTrace ∧ info = i) ∨
      (call = .endTrace ∧ 0 < i.stackDepth ∧ info = { i with stackDepth := i.stackDepth - 1 }) := by
  cases call with
  | beginTrace name =>
    simp only [Call.enter, Option.ite_none_left_eq_some, Option.some.injEq] at h
    exact Or.inl ⟨by simp, h.2.2.symm⟩
  | endTrace =>
    simp only [Call.enter, Option.ite_none_left_eq_some, Option.some.injEq] at h
    exact Or.inr ⟨rfl, by omega, h.2.2.2.symm⟩
  | traceCounter name val =>
    simp only [Call.enter, Option.ite_none_left_eq_some, Option.some.injEq] at h
    exact Or.inl ⟨by simp, h.2.symm⟩

end Extends

end Host
end VPerfetto
