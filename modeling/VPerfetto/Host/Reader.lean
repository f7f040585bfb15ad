/-
# A reader of the host trace

What a trace viewer makes of a host trace: it keeps tables of the categories,
names and tracks that packets define, forgets the interned ones at a packet
that clears the incremental state, refuses packets that need such a state
before it is there, and looks up in its tables what an event refers to.

A session's packets in any order that is each thread's own are shown event by
event, with the strings passed to the calls (`readAll_shown`).

Key definitions: `ReaderState`, `ReaderState.learn`, `ReaderState.look`, `readTrace`,
`ShownEvent`, `Emitted.shown`, `LogShape`.
Key theorems: `Readable.look_event`, `readAll_shown`.
-/
import VPerfetto.Lib.Tables
import VPerfetto.Host.References

namespace VPerfetto
namespace Host

open Wire Chunks Refs Tables

/-- What an event does on its track. -/
inductive TrackAction where
  | sliceBegin (categories : List Bytes) (name : Bytes)
  | sliceEnd (categories : List Bytes) (name : Bytes)
  | counter (value : Int64)
deriving DecidableEq, Repr

/-- An event with its references looked up. -/
structure ShownEvent where
  track : UInt64
  trackName : Bytes
  timestamp : UInt64
  action : TrackAction
deriving DecidableEq, Repr

/-- The tables of a reader; `cleared` tells whether there is an incremental state. -/
structure ReaderState where
  cleared : Bool := false
  categories : List (UInt64 × Bytes) := []
  names : List (UInt64 × Bytes) := []
  tracks : List (UInt64 × Bytes) := []

def InternedString.entry (s : InternedString) : Option (UInt64 × Bytes) := do return (← s.iid, ← s.name)

def HostPacket.categoryEntries (p : HostPacket) : List (UInt64 × Bytes) :=
  match p.internedData with
  | none => []
  | some d => d.eventCategories.filterMap InternedString.entry

def HostPacket.nameEntries (p : HostPacket) : List (UInt64 × Bytes) :=
  match p.internedData with
  | none => []
  | some d => d.eventNames.filterMap InternedString.entry

def HostPacket.trackEntries (p : HostPacket) : List (UInt64 × Bytes) :=
  match p.trackDescriptor with
  | some ⟨some uuid, some name, _⟩ => [(uuid, name)]
  | _ => []

def HostPacket.clears (p : HostPacket) : Bool := p.sequenceFlags.any fun f => f &&& 1 != 0

/-- `SEQ_NEEDS_INCREMENTAL_STATE`. -/
def HostPacket.needsState (p : HostPacket) : Bool := p.sequenceFlags.any fun f => f &&& 2 != 0

namespace ReaderState

def learn (s : ReaderState) (p : HostPacket) : ReaderState :=
  let s := if p.clears then { cleared := true, tracks := s.tracks } else s
  { s with
    categories := p.categoryEntries ++ s.categories
    names := p.nameEntries ++ s.names
    tracks := p.trackEntries ++ s.tracks }

def action (s : ReaderState) (ev : TrackEvent) : Option TrackAction :=
  if ev.type = some 1 then do
    return .sliceBegin (← ev.categoryIids.mapM fun iid => s.categories.lookup iid) (← s.names.lookup (← ev.nameIid))
  else if ev.type = some 2 then do
    return .sliceEnd (← ev.categoryIids.mapM fun iid => s.categories.lookup iid) (← s.names.lookup (← ev.nameIid))
  else if ev.type = some typeCounter then ev.counterValue.map .counter
  else none

/-- What the packet shows, if it can be read. -/
def look (s : ReaderState) (p : HostPacket) : Option (Option ShownEvent) :=
  if p.needsState && !s.cleared then none
  else match p.trackEvent with
    | none => some none
    | some ev => do
      let track ← ev.trackUuid
      let trackName ← s.tracks.lookup track
      let timestamp ← p.timestamp
      let action ← s.action ev
      return some ⟨track, trackName, timestamp, action⟩

end ReaderState

/-- The events of a file, if all of it can be read. -/
def readTrace (file : Bytes) : Option (List ShownEvent) :=
  (decodeTrace file).bind (readAll ReaderState.learn ReaderState.look {})

/-- What a packet is to be shown as: with the thread id it carries and the name it is about. -/
def Emitted.shown (strings : Ptr → Bytes) (e : Emitted) : Option ShownEvent :=
  match e.packet, e.name with
  | .sliceBegin timestamp threadId _ _, some name => some ⟨threadId.toUInt64, getTrackNameFromThreadId threadId,
      timestamp, .sliceBegin [kCategory] (strings name)⟩
  | .sliceEnd timestamp threadId _ _, some name => some ⟨threadId.toUInt64, getTrackNameFromThreadId threadId,
      timestamp, .sliceEnd [kCategory] (strings name)⟩
  | .counter timestamp uuid value, some name => some ⟨uuid,
      getTrackNameFromThreadIdAndCounterName uuid.toUInt32 (strings name), timestamp, .counter value⟩
  | _, _ => none

/-- The strings in a log: there is one category, and tracks are named after what they are for. -/
structure LogShape (strings : Ptr → Bytes) (L : List (Tid × Emitted)) : Prop where
  categories : ∀ x ∈ L, ∀ iid s, x.2.packet = .category iid s → s = kCategory
  counters : ∀ x ∈ L, ∀ uuid id s, x.2.packet = .counterTrack uuid id s →
    ∃ name, x.2.name = some name ∧ s = strings name
  /-- events are about a name -/
  events : ∀ x ∈ L, x.2.packet.record.trackEvent ≠ none → x.2.name ≠ none
  /-- a thread has one id -/
  oneId : ∀ x ∈ L, ∀ y ∈ L, x.1 = y.1 →
    ∀ id id', x.2.packet = .threadTrack id → y.2.packet = .threadTrack id' → id = id'

section

variable {strings : Ptr → Bytes} {W : List (Tid × Emitted)} {s : ReaderState} {e : Emitted}

/-! ### The tables -/

theorem record_categoryEntries (p : Packet) : p.record.categoryEntries =
    match p with
    | .category iid name => [(iid.toUInt64, name)]
    | _ => [] := by
  cases p <;> rfl

theorem record_nameEntries (p : Packet) : p.record.nameEntries =
    match p with
    | .eventName iid name => [(iid.toUInt64, name)]
    | _ => [] := by
  cases p <;> rfl

theorem record_trackEntries (p : Packet) : p.record.trackEntries =
    match p with
    | .threadTrack id => [(id.toUInt64, getTrackNameFromThreadId id)]
    | .counterTrack uuid id name => [(uuid, getTrackNameFromThreadIdAndCounterName id name)]
    | _ => [] := by
  cases p <;> rfl

theorem record_clears (p : Packet) : p.record.clears = true ↔ p = .sequenceStart := by
  have hneeds : (2 : UInt32) &&& 1 = 0 := rfl
  cases p <;> simp [Packet.record, HostPacket.clears, seqIncrementalStateCleared, hneeds]

/-- Packets that do not clear the state add their entries. -/
theorem foldl_learn {ps : List HostPacket} (h : ∀ p ∈ ps, p.clears = false) : ps.foldl ReaderState.learn s =
    { cleared := s.cleared
      categories := addEntries HostPacket.categoryEntries s.categories ps
      names := addEntries HostPacket.nameEntries s.names ps
      tracks := addEntries HostPacket.trackEntries s.tracks ps } := by
  induction ps generalizing s with
  | nil => rfl
  | cons p ps ih =>
    have hp : p.clears = false := h p List.mem_cons_self
    rw [List.foldl_cons, ih fun q hq => h q (List.mem_cons_of_mem p hq)]
    unfold ReaderState.learn
    rw [hp]
    rfl

/-- What the tables have after a part of a file that begins with the start of the sequence. -/
structure Learnt (W : List (Tid × Emitted)) (s : ReaderState) : Prop where
  cleared : s.cleared = true
  categories : ∀ k v, (k, v) ∈ s.categories ↔ ∃ x ∈ W, (k, v) ∈ x.2.packet.record.categoryEntries
  names : ∀ k v, (k, v) ∈ s.names ↔ ∃ x ∈ W, (k, v) ∈ x.2.packet.record.nameEntries
  tracks : ∀ k v, (k, v) ∈ s.tracks ↔ ∃ x ∈ W, (k, v) ∈ x.2.packet.record.trackEntries

theorem learnt_foldl {x : Tid × Emitted} {L : List (Tid × Emitted)} (hx : x.2.packet = .sequenceStart)
    (hL : ∀ y ∈ L, y.2.packet ≠ .sequenceStart) :
    Learnt (x :: L) (((x :: L).map fun y => y.2.packet.record).foldl ReaderState.learn {}) := by
  have hstart : ReaderState.learn {} x.2.packet.record = { cleared := true } := by
    rw [hx]
    rfl
  have hkeep : ∀ p ∈ L.map (fun y => y.2.packet.record), p.clears = false := by
    intro p hp
    obtain ⟨y, hy, rfl⟩ := List.mem_map.mp hp
    rw [← Bool.not_eq_true, record_clears]
    exact hL y hy
  rw [List.map_cons, List.foldl_cons, hstart, foldl_learn hkeep]
  have hmem : ∀ {entries : HostPacket → List (UInt64 × Bytes)}, entries x.2.packet.record = [] → ∀ k v,
      (k, v) ∈ addEntries entries [] (L.map fun y => y.2.packet.record) ↔
        ∃ y ∈ x :: L, (k, v) ∈ entries y.2.packet.record := by
    intro entries hnone k v
    rw [mem_addEntries]
    simp [hnone]
  refine ⟨rfl, hmem ?_, hmem ?_, hmem ?_⟩ <;> rw [hx] <;> rfl

/-! ### What events refer to -/

/-- Packets that can be read: ids are defined once, before their use and by
the thread that uses them. -/
structure Readable (strings : Ptr → Bytes) (W : List (Tid × Emitted)) : Prop where
  grounded : Grounded Emitted.defs (Emitted.refs strings) W
  iids : (W.flatMap fun x => x.2.packet.iids).Nodup
  uuids : (W.flatMap fun x => x.2.packet.uuids).Nodup
  counters : ∀ x ∈ W, ∀ uuid id s, x.2.packet = .counterTrack uuid id s →
    Knows W x.1 (.thread id) ∧ ∃ k, uuid = counterTrackUuid k id
  shape : LogShape strings W

theorem LogShape.perm {L : List (Tid × Emitted)} (h : LogShape strings L) (hperm : W.Perm L) : LogShape strings W where
  categories x hx := h.categories x (hperm.mem_iff.mp hx)
  counters x hx := h.counters x (hperm.mem_iff.mp hx)
  events x hx := h.events x (hperm.mem_iff.mp hx)
  oneId x hx y hy := h.oneId x (hperm.mem_iff.mp hx) y (hperm.mem_iff.mp hy)

theorem readable_of_defined {L : List (Tid × Emitted)} {c : VirtualDeviceTraceConfig} (hd : Defined strings L c)
    (hs : LogShape strings L) (hperm : W.Perm L) (hown : ∀ t, ofOwner t W = ofOwner t L) : Readable strings W where
  grounded := hd.grounded.of_ofOwner hown
  iids := (hperm.flatMap_right _).nodup_iff.mpr hd.iids
  uuids := (hperm.flatMap_right _).nodup_iff.mpr hd.uuids
  counters x hx uuid id s hp := by
    obtain ⟨⟨y, hy, hyx⟩, k, -, huuid⟩ := hd.counters x (hperm.mem_iff.mp hx) uuid id s hp
    exact ⟨⟨y, hperm.mem_iff.mpr hy, hyx⟩, k, huuid⟩
  shape := hs.perm hperm

/-! ### Looking up

`V` is the part of the file that the tables have been learnt from. -/

variable {V : List (Tid × Emitted)} {t : Tid}

theorem Readable.lookup_name (h : Readable strings W) (hs : Learnt V s) (hV : V ⊆ W) {iid : UInt32} {string : Bytes}
    (hdef : Knows V t (.name iid (some string))) : s.names.lookup iid.toUInt64 = some string := by
  obtain ⟨y, hy, -, hd⟩ := hdef
  have hp : y.2.packet = .eventName iid string := by
    unfold Emitted.defs at hd
    split at hd <;> simp at hd
    obtain ⟨rfl, rfl⟩ := hd
    assumption
  refine lookup_of_unique ((hs.names _ _).mpr ⟨y, hy, ?_⟩) fun v hv => ?_
  · rw [record_nameEntries, hp]
    exact List.mem_singleton_self _
  · obtain ⟨z, hz, hzv⟩ := (hs.names _ _).mp hv
    rw [record_nameEntries] at hzv
    split at hzv
    · rename_i iid' name hp'
      obtain ⟨hi, rfl⟩ := Prod.mk.inj (List.mem_singleton.mp hzv)
      obtain rfl : iid = iid' := by
        rw [← UInt32.toNat_inj, ← UInt32.toNat_toUInt64, hi, UInt32.toNat_toUInt64]
      obtain rfl : y = z := eq_of_mem_keys h.iids (hV hy) (hV hz) (k := iid) (by simp [hp, Packet.iids])
        (by simp [hp', Packet.iids])
      exact (Packet.eventName.inj (hp'.symm.trans hp)).2
    · exact absurd hzv List.not_mem_nil

theorem Readable.lookup_category (h : Readable strings W) (hs : Learnt V s) (hV : V ⊆ W) {iid : UInt32}
    (hdef : Knows V t (.category iid)) : s.categories.lookup iid.toUInt64 = some kCategory := by
  obtain ⟨y, hy, -, hd⟩ := hdef
  obtain ⟨string, hp⟩ : ∃ string, y.2.packet = .category iid string := by
    unfold Emitted.defs at hd
    split at hd <;> simp at hd
    obtain rfl := hd
    exact ⟨_, by assumption⟩
  have hstring : string = kCategory := h.shape.categories y (hV hy) iid string hp
  refine lookup_of_unique ((hs.categories _ _).mpr ⟨y, hy, ?_⟩) fun v hv => ?_
  · rw [record_categoryEntries, hp, hstring]
    exact List.mem_singleton_self _
  · obtain ⟨z, hz, hzv⟩ := (hs.categories _ _).mp hv
    rw [record_categoryEntries] at hzv
    split at hzv
    · rename_i iid' name hp'
      obtain ⟨-, rfl⟩ := Prod.mk.inj (List.mem_singleton.mp hzv)
      exact h.shape.categories z (hV hz) iid' _ hp'
    · exact absurd hzv List.not_mem_nil

/-- One packet of the file introduces a uuid. -/
theorem Readable.lookup_track (h : Readable strings W) (hs : Learnt V s) (hV : V ⊆ W) {y : Tid × Emitted} (hy : y ∈ V)
    {uuid : UInt64} {name : Bytes} (hentry : (uuid, name) ∈ y.2.packet.record.trackEntries) :
    s.tracks.lookup uuid = some name := by
  have hkey : ∀ {z : Tid × Emitted} {v : Bytes}, (uuid, v) ∈ z.2.packet.record.trackEntries →
      uuid ∈ z.2.packet.uuids := by
    intro z v hz
    rw [record_trackEntries] at hz
    unfold Packet.uuids
    split at hz <;> simp_all
  refine lookup_of_unique ((hs.tracks _ _).mpr ⟨y, hy, hentry⟩) fun v hv => ?_
  obtain ⟨z, hz, hzv⟩ := (hs.tracks _ _).mp hv
  obtain rfl : y = z := eq_of_mem_keys h.uuids (hV hy) (hV hz) (hkey hentry) (hkey hzv)
  rw [record_trackEntries] at hentry hzv
  split at hentry <;> simp_all

theorem threadTrack_of_defs {id : UInt32} (hd : Ref.thread id ∈ e.defs) : e.packet = .threadTrack id := by
  unfold Emitted.defs at hd
  split at hd <;> simp at hd
  obtain rfl := hd
  assumption

theorem counterTrack_of_defs {uuid : UInt64} {name : Option Ptr} (hd : Ref.counter uuid name ∈ e.defs) :
    ∃ id string, e.packet = .counterTrack uuid id string ∧ name = e.name := by
  unfold Emitted.defs at hd
  split at hd <;> simp at hd
  obtain ⟨rfl, rfl⟩ := hd
  exact ⟨_, _, by assumption, rfl⟩

/-- A slice event's references are found. -/
theorem Readable.look_slice (h : Readable strings W) (hs : Learnt V s) (hV : V ⊆ W) {x : Tid × Emitted}
    {id cat iid : UInt32} {name : Ptr} (hname : x.2.name = some name)
    (hrefs : x.2.refs strings = [.thread id, .category cat, .name iid (x.2.name.map strings)])
    (hknown : ∀ r ∈ x.2.refs strings, Knows V x.1 r) :
    s.tracks.lookup id.toUInt64 = some (getTrackNameFromThreadId id) ∧
      s.categories.lookup cat.toUInt64 = some kCategory ∧ s.names.lookup iid.toUInt64 = some (strings name) := by
  rw [hrefs, hname] at hknown
  obtain ⟨y, hy, -, hd⟩ := hknown (.thread id) List.mem_cons_self
  refine ⟨h.lookup_track hs hV hy ?_, h.lookup_category hs hV (hknown (.category cat) (by simp)),
    h.lookup_name hs hV (hknown (.name iid (some (strings name))) (by simp))⟩
  rw [record_trackEntries, threadTrack_of_defs hd]
  exact List.mem_singleton_self _

theorem counterTrackUuid_low (k id : UInt32) : (counterTrackUuid k id).toUInt32 = id := by
  rw [← UInt32.toNat_inj, UInt64.toNat_toUInt32, counterTrackUuid_toNat]
  have := id.toNat_lt
  omega

/-- A counter event's track is found, under the name of its counter. -/
theorem Readable.look_counter (h : Readable strings W) (hs : Learnt V s) (hV : V ⊆ W) {x : Tid × Emitted}
    {uuid : UInt64} {name : Ptr} (hname : x.2.name = some name) (hrefs : x.2.refs strings = [.counter uuid x.2.name])
    (hknown : ∀ r ∈ x.2.refs strings, Knows V x.1 r) :
    s.tracks.lookup uuid = some (getTrackNameFromThreadIdAndCounterName uuid.toUInt32 (strings name)) := by
  rw [hrefs] at hknown
  obtain ⟨y, hy, -, hd⟩ := hknown (.counter uuid x.2.name) List.mem_cons_self
  obtain ⟨id, string, hp, hyx⟩ := counterTrack_of_defs hd
  obtain ⟨-, k, huuid⟩ := h.counters y (hV hy) uuid id string hp
  obtain ⟨name', hname', rfl⟩ := h.shape.counters y (hV hy) uuid id string hp
  obtain rfl : name = name' := Option.some.inj (hname.symm.trans (hyx.trans hname'))
  have hid : uuid.toUInt32 = id := by rw [huuid, counterTrackUuid_low]
  refine h.lookup_track hs hV hy ?_
  rw [record_trackEntries, hp, hid]
  exact List.mem_singleton_self _

/-- **What a packet shows** when the file has been read up to it. -/
theorem Readable.look_event (h : Readable strings W) {x : Tid × Emitted} (hs : Learnt V s) (hV : V ⊆ W)
    (hx : x ∈ W) (hknown : ∀ r ∈ x.2.refs strings, Knows V x.1 r) :
    s.look x.2.packet.record = some (x.2.shown strings) := by
  have hevents := h.shape.events x hx
  have hslice := @Readable.look_slice strings W s V h hs hV x
  have hcounter := @Readable.look_counter strings W s V h hs hV x
  obtain ⟨t, p, name⟩ := x
  unfold ReaderState.look
  rw [hs.cleared, Bool.not_true, Bool.and_false, if_neg Bool.false_ne_true]
  cases p with
  | sequenceStart | category | threadTrack | eventName | counterTrack => rfl
  | sliceBegin timestamp id cat iid =>
    obtain ⟨name, rfl⟩ := Option.ne_none_iff_exists'.mp (hevents (Option.some_ne_none _))
    obtain ⟨htrack, hcat, hnm⟩ := hslice rfl rfl hknown
    simp [Packet.record, htrack, ReaderState.action, hcat, hnm, Emitted.shown]
  | sliceEnd timestamp id cat iid =>
    obtain ⟨name, rfl⟩ := Option.ne_none_iff_exists'.mp (hevents (Option.some_ne_none _))
    obtain ⟨htrack, hcat, hnm⟩ := hslice rfl rfl hknown
    simp [Packet.record, htrack, ReaderState.action, hcat, hnm, Emitted.shown]
  | counter timestamp uuid value =>
    obtain ⟨name, rfl⟩ := Option.ne_none_iff_exists'.mp (hevents (Option.some_ne_none _))
    have htrack := hcounter rfl rfl hknown
    simp [Packet.record, htrack, ReaderState.action, typeCounter, Emitted.shown]

/-- **A file is shown event by event.** -/
theorem readAll_shown (h : Readable strings W)
    (hstart : W ≠ [] → ∃ x L, W = x :: L ∧ x.2.packet = .sequenceStart ∧ ∀ y ∈ L, y.2.packet ≠ .sequenceStart) :
    readAll ReaderState.learn ReaderState.look {} (W.map fun x => x.2.packet.record) =
      some (W.filterMap fun x => x.2.shown strings) := by
  rw [readAll_map]
  apply readAll_eq
  intro pre x post hW
  have hsplit : W = pre ++ [x] ++ post := hW.trans (List.append_cons pre x post)
  have hmem : pre ++ [x] ⊆ W := hsplit ▸ List.subset_append_left _ _
  -- the part that has been read begins with the start of the sequence too
  have hlearnt : Learnt (pre ++ [x]) ((pre ++ [x]).foldl (fun s x => s.learn x.2.packet.record) {}) := by
    obtain ⟨x₀, L, hL, hx₀, hrest⟩ := hstart (by rw [hW]; simp)
    rw [← List.foldl_map]
    cases pre with
    | nil =>
      obtain ⟨rfl, rfl⟩ := List.cons.inj (hL.symm.trans hW)
      exact learnt_foldl hx₀ nofun
    | cons y pre =>
      obtain ⟨rfl, rfl⟩ := List.cons.inj (hL.symm.trans hW)
      refine learnt_foldl hx₀ fun z hz => hrest z ?_
      show z ∈ pre ++ x :: post
      rw [List.append_cons]
      exact List.mem_append_left _ hz
  exact h.look_event hlearnt hmem (hW ▸ by simp) fun r hr => (h.grounded pre x post hW r hr).append [x]

end

end Host
end VPerfetto
