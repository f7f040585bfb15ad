/-
# What the tracing is for

A recorder with nothing but what the user sees: whether a session is being
recorded, the clock difference, the open slices of each thread, what each
thread has recorded, and the recordings that have been saved under a name. No
buffers, ids, tables or packets.

A file shows a recording if, read back, it has each thread's events, with their
strings, values and times, in their order, on tracks of that thread alone. That
the program given the same events leaves such files is in `Recordings`.

Key definitions: `EventKind`, `Happening`, `Recorder`, `Recorder.step`, `Shows`.
Key theorems: `Call.body_events`, `Call.body_happenings`, `shows_of_readable`.
-/
import Mathlib.Data.Set.Function
import VPerfetto.Host.GuestTime
import VPerfetto.Host.Reader

namespace VPerfetto
namespace Host

open Wire Chunks Refs Tables Runs

inductive EventKind where
  | sliceBegin
  | sliceEnd
  | counter (value : Int64)
deriving DecidableEq, Repr

/-- Something that a thread recorded: when, what, and the name it is about. -/
structure Happening where
  timestamp : UInt64
  kind : EventKind
  name : Bytes
deriving DecidableEq, Repr

def Call.kind : Call → EventKind
  | .beginTrace _ => .sliceBegin
  | .endTrace => .sliceEnd
  | .traceCounter _ value => .counter value

/-! ### The recorder -/

structure Recorder where
  hostFilename : Option String
  saving : Bool
  recording : Bool := false
  guestTimeDiff : Int64
  openSlices : Tid → List Bytes := fun _ => []
  happenings : Tid → List Happening := fun _ => []
  files : String → Option (Tid → List Happening) := fun _ => none

namespace Recorder

def enableTracing (env : Env) (r : Recorder) : Recorder :=
  let hostFilename := useFilenameByEnv env.hostFile r.hostFilename
  if hostFilename.isSome && !r.recording && !r.saving then
    { r with hostFilename := hostFilename, recording := true, openSlices := fun _ => [], happenings := fun _ => [] }
  else { r with hostFilename := hostFilename }

def disableTracing (r : Recorder) : Recorder :=
  match r.hostFilename with
  | none => r
  | some f =>
    if r.recording then
      { r with
        saving := false, recording := false, guestTimeDiff := 0
        openSlices := fun _ => [], happenings := fun _ => []
        files := Function.update r.files f (some r.happenings) }
    else { r with guestTimeDiff := 0 }

def setGuestTime (t now : UInt64) (r : Recorder) : Recorder :=
  if r.recording then r else { r with guestTimeDiff := getSignedDifference t now }

def record (t : Tid) (now : UInt64) (kind : EventKind) (name : Bytes) (r : Recorder) : Recorder :=
  let event : Happening := ⟨now + r.guestTimeDiff.toUInt64, kind, name⟩
  { r with happenings := Function.update r.happenings t (r.happenings t ++ [event]) }

def setOpen (t : Tid) (names : List Bytes) (r : Recorder) : Recorder :=
  { r with openSlices := Function.update r.openSlices t names }

def call (strings : Ptr → Bytes) (t : Tid) (now : UInt64) (c : Call) (r : Recorder) : Recorder :=
  if !r.recording then r
  else match c with
    | .beginTrace name => (r.record t now .sliceBegin (strings name)).setOpen t (strings name :: r.openSlices t)
    | .endTrace =>
      match r.openSlices t with
      | [] => r
      | name :: names => (r.record t now .sliceEnd name).setOpen t names
    | .traceCounter name value => r.record t now (.counter value) (strings name)

def step (strings : Ptr → Bytes) (r : Recorder) : HostEvent → Recorder
  | .enableTracing env => r.enableTracing env
  | .disableTracing _ => r.disableTracing
  | .setGuestTime t now => r.setGuestTime t now
  | .call t now c => r.call strings t now c
  | .exit _ => r

end Recorder

/-! ### Files and recordings -/

/-- The thread id is the lower half of a track's uuid. -/
def ShownEvent.threadId (e : ShownEvent) : UInt32 := e.track.toUInt32

def ShownEvent.view (e : ShownEvent) : Bytes × UInt64 × TrackAction := (e.trackName, e.timestamp, e.action)

/-- How something recorded by the thread with this id is to be seen. -/
def Happening.view (id : UInt32) (e : Happening) : Bytes × UInt64 × TrackAction :=
  match e.kind with
  | .sliceBegin => (getTrackNameFromThreadId id, e.timestamp, .sliceBegin [kCategory] e.name)
  | .sliceEnd => (getTrackNameFromThreadId id, e.timestamp, .sliceEnd [kCategory] e.name)
  | .counter value => (getTrackNameFromThreadIdAndCounterName id e.name, e.timestamp, .counter value)

/-- Read back, the file has what each thread recorded, in its order, and
nothing else; threads that recorded something have different ids. -/
def Shows (file : Bytes) (happenings : Tid → List Happening) : Prop :=
  ∃ (shown : List ShownEvent) (ids : Tid → UInt32), readTrace file = some shown ∧
    Set.InjOn ids {t | happenings t ≠ []} ∧
    (∀ t, happenings t ≠ [] → (shown.filter fun e => e.threadId == ids t).map ShownEvent.view =
      (happenings t).map (Happening.view (ids t))) ∧
    ∀ e ∈ shown, ∃ t, happenings t ≠ [] ∧ e.threadId = ids t

/-- The event that a packet is, apart from what it refers to. -/
def Packet.event : Packet → Option (UInt64 × EventKind)
  | .sliceBegin timestamp _ _ _ => some (timestamp, .sliceBegin)
  | .sliceEnd timestamp _ _ _ => some (timestamp, .sliceEnd)
  | .counter timestamp _ value => some (timestamp, .counter value)
  | _ => none

/-- What a packet of a log recorded. -/
def Emitted.happening (strings : Ptr → Bytes) (e : Emitted) : Option Happening := do
  let (timestamp, kind) ← e.packet.event
  let name ← e.name
  return ⟨timestamp, kind, strings name⟩

/-- The thread id in an event. -/
def Packet.threadId : Packet → UInt32
  | .sliceBegin _ threadId _ _ => threadId
  | .sliceEnd _ threadId _ _ => threadId
  | .counter _ uuid _ => uuid.toUInt32
  | _ => 0

section

variable {strings : Ptr → Bytes} {call : Call} {now : UInt64} {c : VirtualDeviceTraceConfig}
  {i : ThreadInfo} {b b' : Body} {e : Emitted} {L W : List (Tid × Emitted)}

theorem shown_threadId {ev : ShownEvent} (h : e.shown strings = some ev) : ev.threadId = e.packet.threadId := by
  unfold Emitted.shown at h
  split at h
  · rename_i hp _
    obtain rfl := Option.some.inj h
    rw [hp]
    exact UInt32.toUInt32_toUInt64 _
  · rename_i hp _
    obtain rfl := Option.some.inj h
    rw [hp]
    exact UInt32.toUInt32_toUInt64 _
  · rename_i hp _
    obtain rfl := Option.some.inj h
    rw [hp]
    rfl
  · exact absurd h.symm (Option.some_ne_none _)

/-- What is shown of a packet is what it recorded. -/
theorem shown_view (strings : Ptr → Bytes) (e : Emitted) : (e.shown strings).map ShownEvent.view =
    (e.happening strings).map (Happening.view e.packet.threadId) := by
  obtain ⟨p, name⟩ := e
  cases p <;> cases name <;> rfl

/-! ### One event for each call -/

def Body.events (b : Body) : List (UInt64 × EventKind) := b.packets.filterMap Packet.event

theorem emit_events (b : Body) (p : Packet) : (b.emit p).events = b.events ++ p.event.toList := by
  rw [Body.events, Body.emit, List.filterMap_append]
  cases h : p.event <;> simp [Body.events, h]

theorem emit_silent_events {p q : Packet} (b : Body) (hp : p.event = none) :
    ((b.emit p).emit q).events = b.events ++ q.event.toList := by
  have hfirst : (b.emit p).events = b.events := by
    rw [emit_events, hp]
    exact List.append_nil b.events
  rw [emit_events, hfirst]

/-- Setting up the thread writes no event and leaves the clock difference alone. -/
theorem ensureThreadInfo_silent (now : UInt64) (h : ensureThreadInfo { config := c, info := i } = some b) :
    b.events = [] ∧ b.config.getTimestamp now = c.getTimestamp now := by
  refine ⟨?_, (ensureThreadInfo_untimed now h).2⟩
  obtain ⟨b₀, h0, -, -, rfl, -⟩ := ensureThreadInfo_cases h
  have hx : Extends (fun p => p.event = none) b₀ (writeThreadTrack (writeCategory b₀)) :=
    (writeCategory_extends (fun _ => rfl) b₀).trans (writeThreadTrack_extends fun _ => rfl)
  obtain ⟨new, hpackets, hnew⟩ := hx.packets
  rw [Body.events, hpackets, List.filterMap_append, List.filterMap_eq_nil_iff.mpr hnew]
  rcases writeSequenceId_cases h0 with ⟨-, rfl⟩ | ⟨-, -, rfl⟩ <;> rfl

/-- **A call that is recorded writes one event**, of its kind and time. -/
theorem Call.body_events (h : call.body strings now c i = some b) :
    b.events = [(now + c.guestTimeDiff.toUInt64, call.kind)] := by
  cases call with
  | beginTrace name =>
    obtain ⟨b₁, h1, h⟩ := Option.bind_eq_some_iff.mp h
    obtain rfl := Option.some.inj h
    obtain ⟨hnone, hts⟩ := ensureThreadInfo_silent now h1
    have hb : (writeSliceBegin strings now name b₁).events =
        b₁.events ++ [(b₁.config.getTimestamp now, .sliceBegin)] := by
      unfold writeSliceBegin
      dsimp only
      split
      · exact emit_silent_events _ rfl
      · exact emit_events _ _
    rw [hb, hnone, hts]
    rfl
  | endTrace =>
    obtain rfl := Option.some.inj h
    rfl
  | traceCounter name value =>
    obtain ⟨b₁, h1, h⟩ := Option.bind_eq_some_iff.mp h
    obtain rfl := Option.some.inj h
    obtain ⟨hnone, hts⟩ := ensureThreadInfo_silent now h1
    have hb : (writeCounter strings now name value b₁).events =
        b₁.events ++ [(b₁.config.getTimestamp now, .counter value)] := by
      unfold writeCounter
      dsimp only
      split
      · exact emit_silent_events _ rfl
      · exact emit_events _ _
    rw [hb, hnone, hts]
    rfl

/-- What the packets of a call recorded: what the call is about. -/
theorem Call.body_happenings (h : call.body strings now c i = some b) (name : Option Ptr) :
    (b.packets.map (emitted name)).filterMap (Emitted.happening strings) =
      (name.map fun n => ⟨now + c.guestTimeDiff.toUInt64, call.kind, strings n⟩).toList := by
  have hone : ∀ p : Packet, (emitted name p).happening strings =
      p.event.bind fun ev => name.map fun n => ⟨ev.1, ev.2, strings n⟩ := by
    intro p
    cases p <;> cases name <;> rfl
  rw [List.filterMap_map, show (Emitted.happening strings ∘ emitted name) = _ from funext hone,
    ← List.filterMap_filterMap]
  show b.events.filterMap _ = _
  rw [Call.body_events h]
  cases name <;> rfl

/-! ### From packets to what is shown -/

/-- An event is about a thread id that its thread has defined. -/
theorem Readable.thread_known (h : Readable strings W) {x : Tid × Emitted} (hx : x ∈ W)
    (hev : x.2.happening strings ≠ none) : Knows W x.1 (.thread x.2.packet.threadId) := by
  obtain ⟨pre, post, hW⟩ := List.append_of_mem hx
  have hknown : ∀ r ∈ x.2.refs strings, Knows W x.1 r := by
    intro r hr
    rw [hW]
    exact (h.grounded pre x post hW r hr).append _
  obtain ⟨t, p, name⟩ := x
  cases p with
  | sequenceStart | category | threadTrack | eventName | counterTrack => exact absurd rfl hev
  | sliceBegin | sliceEnd => exact hknown _ List.mem_cons_self
  | counter timestamp uuid value =>
    obtain ⟨y, hy, hyt, hd⟩ := hknown (.counter uuid name) List.mem_cons_self
    obtain ⟨id, string, hp, -⟩ := counterTrack_of_defs hd
    obtain ⟨hthread, k, huuid⟩ := h.counters y hy uuid id string hp
    rw [hyt] at hthread
    have hid : uuid.toUInt32 = id := by rw [huuid, counterTrackUuid_low]
    show Knows W t (.thread uuid.toUInt32)
    rw [hid]
    exact hthread

/-- Threads share no id. -/
theorem Readable.thread_inj (h : Readable strings W) {t u : Tid} {id : UInt32} (ht : Knows W t (.thread id))
    (hu : Knows W u (.thread id)) : t = u := by
  obtain ⟨x, hx, rfl, hdx⟩ := ht
  obtain ⟨y, hy, rfl, hdy⟩ := hu
  obtain rfl : x = y := eq_of_mem_keys h.uuids hx hy (k := id.toUInt64)
    (by simp [threadTrack_of_defs hdx, Packet.uuids]) (by simp [threadTrack_of_defs hdy, Packet.uuids])
  rfl

theorem Readable.exists_ids (h : Readable strings W) :
    ∃ ids : Tid → UInt32, ∀ t id, Knows W t (.thread id) → id = ids t := by
  have hone : ∀ t, ∃ id, ∀ id', Knows W t (.thread id') → id' = id := by
    intro t
    by_cases ht : ∃ id, Knows W t (.thread id)
    · obtain ⟨id, x, hx, hxt, hdx⟩ := ht
      refine ⟨id, ?_⟩
      rintro id' ⟨y, hy, hyt, hdy⟩
      exact h.shape.oneId y hy x hx (hyt.trans hxt.symm) id' id (threadTrack_of_defs hdy) (threadTrack_of_defs hdx)
    · exact ⟨0, fun id' hid' => absurd ⟨id', hid'⟩ ht⟩
  choose ids hids using hone
  exact ⟨ids, hids⟩

/-- What thread `t` recorded, from the packets of a session. -/
def happeningsOf (strings : Ptr → Bytes) (t : Tid) (L : List (Tid × Emitted)) : List Happening :=
  (ofOwner t L).filterMap fun x => x.2.happening strings

theorem happeningsOf_ne_nil {x : Tid × Emitted} (hx : x ∈ W) (hev : x.2.happening strings ≠ none) :
    happeningsOf strings x.1 W ≠ [] := by
  intro hnil
  exact hev (List.filterMap_eq_nil_iff.mp hnil x (List.mem_filter.mpr ⟨hx, by simp⟩))

/-- **A readable file shows what was recorded.** -/
theorem shows_of_readable (h : Readable strings W)
    (hstart : W ≠ [] → ∃ x L, W = x :: L ∧ x.2.packet = .sequenceStart ∧ ∀ y ∈ L, y.2.packet ≠ .sequenceStart)
    {file : Bytes} (hfile : decodeTrace file = some (W.map fun x => x.2.packet.record)) :
    Shows file fun t => happeningsOf strings t W := by
  obtain ⟨ids, hids⟩ := h.exists_ids
  have hread : readTrace file = some (W.filterMap fun x => x.2.shown strings) := by
    unfold readTrace
    rw [hfile, Option.bind_some, readAll_shown h hstart]
  have hevent : ∀ x ∈ W, ∀ ev, x.2.shown strings = some ev → x.2.happening strings ≠ none := by
    intro x _ ev hev hnone
    have hview := shown_view strings x.2
    rw [hev, hnone] at hview
    exact Option.some_ne_none _ hview
  have hthread : ∀ x ∈ W, x.2.happening strings ≠ none → x.2.packet.threadId = ids x.1 :=
    fun x hx hev => hids _ _ (h.thread_known hx hev)
  have hown : ∀ t, happeningsOf strings t W ≠ [] → Knows W t (.thread (ids t)) := by
    intro t ht
    obtain ⟨e, he⟩ := List.exists_mem_of_ne_nil _ ht
    obtain ⟨x, hx, hxe⟩ := List.mem_filterMap.mp he
    obtain ⟨hxW, hxt⟩ := List.mem_filter.mp hx
    obtain rfl : x.1 = t := by simpa using hxt
    have hev : x.2.happening strings ≠ none := by
      rw [hxe]
      exact Option.some_ne_none e
    exact hthread x hxW hev ▸ h.thread_known hxW hev
  have hinj : Set.InjOn ids {t | happeningsOf strings t W ≠ []} := by
    intro t ht u hu heq
    exact h.thread_inj (hown t ht) (heq ▸ hown u hu)
  refine ⟨_, ids, hread, hinj, fun t ht => ?_, fun ev hev => ?_⟩
  · have hfilter : (W.filterMap fun x => x.2.shown strings).filter (fun ev => ev.threadId == ids t) =
        (ofOwner t W).filterMap fun x => x.2.shown strings := by
      apply filter_filterMap_of_iff
      intro x hx ev hev
      have hne := hevent x hx ev hev
      rw [shown_threadId hev, hthread x hx hne]
      by_cases hxt : x.1 = t
      · simp [hxt]
      · have hdiff : ids x.1 ≠ ids t := fun heq => hxt (hinj (happeningsOf_ne_nil hx hne) ht heq)
        simp [hxt, hdiff]
    show _ = (happeningsOf strings t W).map _
    rw [hfilter, List.map_filterMap, happeningsOf, List.map_filterMap]
    apply List.filterMap_congr
    intro x hx
    obtain ⟨hxW, hxt⟩ := List.mem_filter.mp hx
    obtain rfl : x.1 = t := by simpa using hxt
    rw [shown_view]
    cases hev : x.2.happening strings with
    | none => rfl
    | some e => rw [hthread x hxW (by rw [hev]; exact Option.some_ne_none e)]
  · obtain ⟨x, hx, hxev⟩ := List.mem_filterMap.mp hev
    have hne := hevent x hx ev hxev
    exact ⟨x.1, happeningsOf_ne_nil hx hne, by rw [shown_threadId hxev, hthread x hx hne]⟩

end

end Host
end VPerfetto
