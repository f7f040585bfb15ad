/-
# References of the host file

What a reader of the host file relies on: every interning id and track uuid of
an event is defined by an earlier packet of the file, once, and stands for
what the event was about. `Resolves` says so of the packets as they are read.

The log of a session keeps `Defined` and every thread that may still call
keeps `ThreadKnown` (`namesInv_step`); the file has each thread's packets in
their order, which is all that `Resolves` needs.

Key definitions: `Resolves`, `NamesInv`, `Unwrapped`.
Key theorems: `namesInv_step`, `resolves_of_defined`, `references_resolve`.
-/
import VPerfetto.Host.HostFile
import VPerfetto.Host.Names

namespace VPerfetto
namespace Host

open Wire Chunks Refs Runs

/-! ### Packets as they are read -/

/-- `TYPE_COUNTER`. -/
def typeCounter : UInt32 := 4

def TrackEvent.isCounter (ev : TrackEvent) : Bool := ev.type == some typeCounter

/-- The ids that the packet's interned data defines. -/
def HostPacket.iids (p : HostPacket) : List UInt64 :=
  match p.internedData with
  | none => []
  | some d => (d.eventCategories ++ d.eventNames).filterMap (·.iid)

/-- The uuid of the packet's track descriptor. -/
def HostPacket.trackUuids (p : HostPacket) : List UInt64 := (p.trackDescriptor.bind (·.uuid)).toList

def HostPacket.DefinesCategory (p : HostPacket) (iid : UInt64) : Prop :=
  ∃ d, p.internedData = some d ∧ ∃ name, ⟨some iid, some name⟩ ∈ d.eventCategories

def HostPacket.DefinesName (p : HostPacket) (iid : UInt64) (name : Bytes) : Prop :=
  ∃ d, p.internedData = some d ∧ ⟨some iid, some name⟩ ∈ d.eventNames

/-- The packet as it is read from the file. -/
def Emitted.record (e : Emitted) : HostPacket := e.packet.record

/-- **Every reference resolves**, in a file with the packets `W`: to an earlier
packet, the only one to define it, and to the right thing. -/
structure Resolves (strings : Ptr → Bytes) (W : List (Tid × Emitted)) : Prop where
  categories : ∀ pre x post, W = pre ++ x :: post → ∀ ev, x.2.record.trackEvent = some ev →
    ∀ iid ∈ ev.categoryIids, ∃ y ∈ pre, y.2.record.DefinesCategory iid
  /-- the string is that of the name passed to `beginTrace` -/
  names : ∀ pre x post, W = pre ++ x :: post → ∀ ev, x.2.record.trackEvent = some ev →
    ∀ iid, ev.nameIid = some iid →
      ∃ y ∈ pre, ∃ ptr, x.2.name = some ptr ∧ y.2.record.DefinesName iid (strings ptr)
  iids : (W.flatMap fun x => x.2.record.iids).Nodup
  tracks : ∀ pre x post, W = pre ++ x :: post → ∀ ev, x.2.record.trackEvent = some ev →
    ∃ uuid, ev.trackUuid = some uuid ∧ ∃ y ∈ pre, y.1 = x.1 ∧ uuid ∈ y.2.record.trackUuids
  uuids : (W.flatMap fun x => x.2.record.trackUuids).Nodup
  /-- tracks of different threads and of different counters have different uuids -/
  apart : ∀ x ∈ W, ∀ y ∈ W, ∀ ev ev', x.2.record.trackEvent = some ev → y.2.record.trackEvent = some ev' →
    ev.trackUuid = ev'.trackUuid →
    x.1 = y.1 ∧ ev.isCounter = ev'.isCounter ∧ (ev.isCounter = true → x.2.name = y.2.name)

section

variable {strings : Ptr → Bytes} {e : Emitted} {W : List (Tid × Emitted)} {c : VirtualDeviceTraceConfig}

theorem record_iids (p : Packet) : p.record.iids = p.iids.map (·.toUInt64) := by
  cases p <;> rfl

theorem record_trackUuids (p : Packet) : p.record.trackUuids = p.uuids := by
  cases p <;> rfl

/-- The two kinds of events and their references. -/
theorem record_trackEvent (strings : Ptr → Bytes) {ev : TrackEvent} (h : e.record.trackEvent = some ev) :
    (∃ id cat iid, ev.categoryIids = [cat.toUInt64] ∧ ev.nameIid = some iid.toUInt64 ∧
      ev.trackUuid = some id.toUInt64 ∧ ev.isCounter = false ∧
      e.refs strings = [.thread id, .category cat, .name iid (e.name.map strings)]) ∨
    ∃ uuid, ev.categoryIids = [] ∧ ev.nameIid = none ∧ ev.trackUuid = some uuid ∧ ev.isCounter = true ∧
      e.refs strings = [.counter uuid e.name] := by
  obtain ⟨p, name⟩ := e
  cases p with
  | sliceBegin ts id cat iid =>
    obtain rfl := Option.some.inj h
    exact Or.inl ⟨id, cat, iid, rfl, rfl, rfl, rfl, rfl⟩
  | sliceEnd ts id cat iid =>
    obtain rfl := Option.some.inj h
    exact Or.inl ⟨id, cat, iid, rfl, rfl, rfl, rfl, rfl⟩
  | counter ts uuid v =>
    obtain rfl := Option.some.inj h
    exact Or.inr ⟨uuid, rfl, rfl, rfl, rfl, rfl⟩
  | _ => exact absurd h.symm (Option.some_ne_none _)

theorem definesCategory_of_defs {iid : UInt32} (h : Ref.category iid ∈ e.defs) :
    e.record.DefinesCategory iid.toUInt64 := by
  obtain ⟨p, name⟩ := e
  cases p with
  | category iid' s =>
    obtain rfl := Ref.category.inj (List.mem_singleton.mp h)
    exact ⟨_, rfl, s, List.mem_cons_self⟩
  | _ => simp [Emitted.defs] at h

theorem definesName_of_defs {iid : UInt32} {s : Option Bytes} (h : Ref.name iid s ∈ e.defs) :
    ∃ string, s = some string ∧ e.record.DefinesName iid.toUInt64 string := by
  obtain ⟨p, name⟩ := e
  cases p with
  | eventName iid' string =>
    obtain ⟨rfl, rfl⟩ := Ref.name.inj (List.mem_singleton.mp h)
    exact ⟨string, rfl, _, rfl, List.mem_cons_self⟩
  | _ => simp [Emitted.defs] at h

theorem counter_of_defs {uuid : UInt64} {name : Option Ptr} (h : Ref.counter uuid name ∈ e.defs) :
    uuid ∈ e.packet.uuids ∧ name = e.name ∧ ∀ id, Ref.thread id ∉ e.defs := by
  obtain ⟨p, name'⟩ := e
  cases p with
  | counterTrack uuid' id s =>
    obtain ⟨rfl, rfl⟩ := Ref.counter.inj (List.mem_singleton.mp h)
    exact ⟨List.mem_cons_self, rfl, by simp [Emitted.defs]⟩
  | _ => simp [Emitted.defs] at h

/-- Where the track of an event comes from: its thread's own packet, which
tells the two kinds of tracks apart. -/
theorem track_of_event (hg : Grounded Emitted.defs (Emitted.refs strings) W) {pre post : List (Tid × Emitted)}
    {x : Tid × Emitted} (hW : W = pre ++ x :: post) {ev : TrackEvent} (hev : x.2.record.trackEvent = some ev) :
    ∃ uuid, ev.trackUuid = some uuid ∧ ∃ y ∈ pre, y.1 = x.1 ∧ uuid ∈ y.2.packet.uuids ∧
      ((ev.isCounter = false ∧ ∃ id, Ref.thread id ∈ y.2.defs) ∨
        (ev.isCounter = true ∧ Ref.counter uuid x.2.name ∈ y.2.defs)) := by
  rcases record_trackEvent strings hev with
    ⟨id, cat, iid, -, -, huuid, hkind, hrefs⟩ | ⟨uuid, -, -, huuid, hkind, hrefs⟩
  · obtain ⟨y, hy, hyx, hd⟩ := hg pre x post hW (.thread id) (by rw [hrefs]; exact List.mem_cons_self)
    exact ⟨_, huuid, y, hy, hyx, uuid_of_defs hd, Or.inl ⟨hkind, id, hd⟩⟩
  · obtain ⟨y, hy, hyx, hd⟩ := hg pre x post hW (.counter uuid x.2.name) (by rw [hrefs]; exact List.mem_cons_self)
    exact ⟨_, huuid, y, hy, hyx, (counter_of_defs hd).1, Or.inr ⟨hkind, hd⟩⟩

/-- Where the category of an event comes from. -/
theorem category_of_event (hg : Grounded Emitted.defs (Emitted.refs strings) W)
    {pre post : List (Tid × Emitted)} {x : Tid × Emitted} (hW : W = pre ++ x :: post) {ev : TrackEvent}
    (hev : x.2.record.trackEvent = some ev) {iid : UInt64} (hm : iid ∈ ev.categoryIids) :
    ∃ y ∈ pre, y.2.record.DefinesCategory iid := by
  rcases record_trackEvent strings hev with
    ⟨id, cat, nm, hcat, -, -, -, hrefs⟩ | ⟨uuid, hcat, -⟩
  · rw [hcat] at hm
    obtain rfl := List.mem_singleton.mp hm
    obtain ⟨y, hy, -, hd⟩ := hg pre x post hW (.category cat) (by rw [hrefs]; simp)
    exact ⟨y, hy, definesCategory_of_defs hd⟩
  · rw [hcat] at hm
    exact absurd hm List.not_mem_nil

/-- Where the name of an event comes from. -/
theorem name_of_event (hg : Grounded Emitted.defs (Emitted.refs strings) W)
    {pre post : List (Tid × Emitted)} {x : Tid × Emitted} (hW : W = pre ++ x :: post) {ev : TrackEvent}
    (hev : x.2.record.trackEvent = some ev) {iid : UInt64} (hi : ev.nameIid = some iid) :
    ∃ y ∈ pre, ∃ ptr, x.2.name = some ptr ∧ y.2.record.DefinesName iid (strings ptr) := by
  rcases record_trackEvent strings hev with
    ⟨id, cat, nm, -, hname, -, -, hrefs⟩ | ⟨uuid, -, hname, -⟩
  · rw [hname] at hi
    obtain rfl := Option.some.inj hi
    obtain ⟨y, hy, -, hd⟩ := hg pre x post hW (.name nm (x.2.name.map strings)) (by rw [hrefs]; simp)
    obtain ⟨string, hs, hdef⟩ := definesName_of_defs hd
    obtain ⟨ptr, hptr, rfl⟩ := Option.map_eq_some_iff.mp hs
    exact ⟨y, hy, ptr, hptr, hdef⟩
  · rw [hname] at hi
    exact absurd hi.symm (Option.some_ne_none _)

/-- Two events on one track are of one thread and one kind, and of one counter. -/
theorem events_of_track (hg : Grounded Emitted.defs (Emitted.refs strings) W)
    (huuids : (W.flatMap fun x => x.2.packet.uuids).Nodup) {x y : Tid × Emitted} (hx : x ∈ W) (hy : y ∈ W)
    {ev ev' : TrackEvent} (hev : x.2.record.trackEvent = some ev) (hev' : y.2.record.trackEvent = some ev')
    (heq : ev.trackUuid = ev'.trackUuid) :
    x.1 = y.1 ∧ ev.isCounter = ev'.isCounter ∧ (ev.isCounter = true → x.2.name = y.2.name) := by
  obtain ⟨pre, post, hW⟩ := List.append_of_mem hx
  obtain ⟨pre', post', hW'⟩ := List.append_of_mem hy
  obtain ⟨uuid, huuid, x', hx', hxx, hm, hkind⟩ := track_of_event hg hW hev
  obtain ⟨uuid', huuid', y', hy', hyy, hm', hkind'⟩ := track_of_event hg hW' hev'
  obtain rfl : uuid = uuid' := Option.some.inj (huuid.symm.trans (heq.trans huuid'))
  -- both tracks come from one packet
  obtain rfl : x' = y' := eq_of_mem_keys huuids (hW ▸ List.mem_append_left _ hx') (hW' ▸ List.mem_append_left _ hy')
    hm hm'
  refine ⟨hxx.symm.trans hyy, ?_, fun hcounter => ?_⟩
  · rcases hkind with ⟨hk, id, hd⟩ | ⟨hk, hd⟩ <;> rcases hkind' with ⟨hk', id', hd'⟩ | ⟨hk', hd'⟩
    · rw [hk, hk']
    · exact absurd hd ((counter_of_defs hd').2.2 id)
    · exact absurd hd' ((counter_of_defs hd).2.2 id')
    · rw [hk, hk']
  · rcases hkind with ⟨hk, -⟩ | ⟨-, hd⟩
    · exact absurd (hk.symm.trans hcounter) Bool.noConfusion
    · rcases hkind' with ⟨-, id', hd'⟩ | ⟨-, hd'⟩
      · exact absurd hd' ((counter_of_defs hd).2.2 id')
      · exact (counter_of_defs hd).2.1.trans (counter_of_defs hd').2.1.symm

/-- **A log whose ids are defined resolves**, in any order that is each thread's own. -/
theorem resolves_of_defined {L : List (Tid × Emitted)} (h : Defined strings L c) (hperm : W.Perm L)
    (hown : ∀ t, ofOwner t W = ofOwner t L) : Resolves strings W := by
  have hg : Grounded Emitted.defs (Emitted.refs strings) W := h.grounded.of_ofOwner hown
  have hiids : (W.flatMap fun x => x.2.packet.iids).Nodup := (hperm.flatMap_right _).nodup_iff.mpr h.iids
  have huuids : (W.flatMap fun x => x.2.packet.uuids).Nodup := (hperm.flatMap_right _).nodup_iff.mpr h.uuids
  refine ⟨?categories, ?names, ?iids, ?tracks, ?uuids, ?apart⟩
  case categories => exact fun pre x post hW ev hev iid hm => category_of_event hg hW hev hm
  case names => exact fun pre x post hW ev hev iid hi => name_of_event hg hW hev hi
  case iids =>
    have hrec : (W.flatMap fun x => x.2.record.iids) = (W.flatMap fun x => x.2.packet.iids).map (·.toUInt64) := by
      rw [List.map_flatMap]
      exact congrArg (W.flatMap ·) (funext fun x => record_iids x.2.packet)
    rw [hrec]
    refine hiids.map fun a b hab => ?_
    rw [← UInt32.toNat_inj, ← UInt32.toNat_toUInt64, hab, UInt32.toNat_toUInt64]
  case tracks =>
    intro pre x post hW ev hev
    obtain ⟨uuid, huuid, y, hy, hyx, hm, -⟩ := track_of_event hg hW hev
    exact ⟨uuid, huuid, y, hy, hyx, record_trackUuids y.2.packet ▸ hm⟩
  case uuids =>
    have hrec : (fun x : Tid × Emitted => x.2.record.trackUuids) = fun x => x.2.packet.uuids :=
      funext fun x => record_trackUuids x.2.packet
    rw [hrec]
    exact huuids
  case apart => exact fun x hx y hy ev ev' hev hev' heq => events_of_track hg huuids hx hy hev hev' heq

/-! ### Runs -/

variable {h h' : HostState} {fuel : ℕ}

/-- The conditions on an event: names of at most 150 bytes, fewer than 16 open
slices, and no counter wraps. -/
def Unwrapped (strings : Ptr → Bytes) (h : HostState) : HostEvent → Prop
  | .call t now c =>
    c.nameLe strings 150 ∧ ((∃ name, c = .beginTrace name) → (h.infos t).stackDepth + 1 < traceStackDepthMax) ∧
      ∀ info b, c.enter h.config (h.infos t) = some info → c.body strings now h.config info = some b →
        NoWrap h.config info b
  | _ => True

theorem unwrapped_suitable : Suitable strings fuel (Unwrapped strings) where
  names _ _ _ _ ha := ha.1
  counts _ _ _ _ info b _ ha he hb := (ha.2.2 info b he hb).packetsWritten

/-- The session's log defines its ids, and what a live thread holds is defined. -/
structure NamesInv (strings : Ptr → Bytes) (h : HostState) : Prop where
  defined : Defined strings h.log h.config
  threads : ∀ t, h.exited t = false → ThreadKnown strings h.log t (h.infos t) (h.openNames t)

theorem defined_nil (strings : Ptr → Bytes) (c : VirtualDeviceTraceConfig) : Defined strings [] c where
  grounded := grounded_nil
  iids := List.nodup_nil
  iids_lt _ hx := absurd hx List.not_mem_nil
  uuids := List.nodup_nil
  threads_le _ hx := absurd hx List.not_mem_nil
  counters _ hx := absurd hx List.not_mem_nil

/-- A context that has been reset holds nothing. -/
theorem threadKnown_reset {i : ThreadInfo} (hi : i.reset = i) (t : Tid) : ThreadKnown strings [] t i [] := by
  rw [← hi]
  exact ⟨nofun, nofun, nofun, nofun, fun _ hx => absurd hx List.not_mem_nil,
    (by decide : (0 : UInt32) < 1), trivial, nofun⟩

/-- Before the first packet of a session nothing is known. -/
theorem namesInv_blank (hl : h.log = []) (ho : ∀ t, h.openNames t = [])
    (hi : ∀ t, h.exited t = false → (h.infos t).reset = h.infos t) : NamesInv strings h := by
  refine ⟨?_, fun t ht => ?_⟩
  · rw [hl]
    exact defined_nil strings h.config
  · rw [hl, ho t]
    exact threadKnown_reset (hi t ht) t

theorem NamesInv.config (hn : NamesInv strings h) {c : VirtualDeviceTraceConfig}
    (hi : c.currentInterningId = h.config.currentInterningId) (ht : c.currentThreadId = h.config.currentThreadId) :
    NamesInv strings { h with config := c } :=
  ⟨hn.defined.config hi ht, hn.threads⟩

/-- A call of thread `t`: its packets, and nothing about the other threads. -/
theorem NamesInv.afterCall (hn : NamesInv strings h) {t : Tid} (hx : h.exited t = false) {call : Call}
    {now : UInt64} {info : ThreadInfo} {b : Body} (w : Writing) (he : call.enter h.config (h.infos t) = some info)
    (hb : call.body strings now h.config info = some b) (hwrap : NoWrap h.config info b) :
    NamesInv strings ((h.beforeCall t).afterCall t call b w) := by
  have hk := Call.body_known hn.defined (hn.threads t hx) he hb hwrap
  rw [HostState.beforeCall_eq]
  refine ⟨hk.defined, fun u hu => ?_⟩
  by_cases hut : u = t
  · subst hut
    simp only [HostState.afterCall, Function.update_self]
    exact hk.thread
  · simp only [HostState.afterCall, Function.update_of_ne hut]
    refine (hn.threads u hu).append fun x hx hxu => ?_
    obtain ⟨e, -, rfl⟩ := List.mem_map.mp hx
    exact absurd hxu.symm hut

theorem namesInv_step {e : HostEvent} (hfuel : 2 < fuel) (hr : HostReach strings fuel (Unwrapped strings) h)
    (hn : NamesInv strings h) (hok : Unwrapped strings h e) (hs : h.step strings fuel e = some h') :
    NamesInv strings h' := by
  -- in both states a log without packets comes with blank contexts
  obtain ⟨s, n, -, -, hsess, -⟩ := reach_started hfuel unwrapped_suitable hr
  obtain ⟨s', n', -, -, hsess', -⟩ := reach_started hfuel unwrapped_suitable (hr.step hok hs)
  cases e with
  | enableTracing env =>
    obtain rfl := Option.some.inj hs
    have hcase := h.config.enableTracing_cases env
    unfold HostState.enableTracing at hsess' ⊢
    dsimp only at hsess' ⊢
    split
    · rename_i hstart
      rw [if_pos hstart] at hsess'
      exact namesInv_blank rfl (fun _ => rfl) (hsess'.blank rfl)
    · rename_i hstart
      rcases hcase with ⟨hd, -, -, he⟩ | he
      · exact absurd (by rw [he, hd]; rfl) hstart
      · rw [he]
        exact hn.config rfl rfl
  | disableTracing order =>
    simp only [HostState.step, HostState.disableTracing] at hs
    split at hs
    · obtain ⟨-, hs⟩ := Option.ite_none_right_eq_some.mp hs
      obtain rfl := Option.some.inj hs
      exact namesInv_blank rfl (fun _ => rfl) (hsess'.blank rfl)
    · rename_i hends
      obtain rfl := Option.some.inj hs
      rcases VirtualDeviceTraceConfig.disableTracing_of_not_endsSession (by simpa using hends) with ⟨-, hc⟩ | ⟨hd, -⟩
      · exact hn.config (by rw [hc]) (by rw [hc])
      · have hl : h.log = [] := hsess.log_disabled hd
        exact ⟨hl ▸ defined_nil strings _, hn.threads⟩
  | setGuestTime t now =>
    obtain rfl := Option.some.inj hs
    refine hn.config ?_ ?_ <;> unfold VirtualDeviceTraceConfig.setGuestTime <;> split <;> rfl
  | call t now c =>
    obtain ⟨hx, ⟨-, rfl⟩ | ⟨info, b, w, he, hb, -, rfl⟩⟩ := HostState.call_cases hs
    · rw [HostState.beforeCall_eq]
      exact ⟨hn.defined, hn.threads⟩
    · exact hn.afterCall hx w he hb (hok.2.2 info b he hb)
  | exit t =>
    simp only [HostState.step, HostState.exit, Option.ite_none_left_eq_some] at hs
    obtain rfl := Option.some.inj hs.2
    refine ⟨hn.defined, fun u hu => hn.threads u ?_⟩
    by_cases hut : u = t
    · subst hut
      simp at hu
    · simpa [hut] using hu

/-- **Every reference of the host file resolves.** In every run whose counters
do not wrap, the end of a session leaves a file whose events refer to earlier
packets, uniquely and to what they are about. -/
theorem references_resolve (hfuel : 2 < fuel) (hr : HostReach strings fuel (Unwrapped strings) h)
    {order : List Tid} {f : String} (hends : h.config.endsSession = true) (hf : h.config.hostFilename = some f)
    (hs : h.step strings fuel (.disableTracing order) = some h') :
    ∃ file W, h'.disk f = some file ∧ decodeTrace file = some (W.map fun x => x.2.record) ∧
      W.Perm h.log ∧ Resolves strings W := by
  have hn : NamesInv strings h := by
    refine Reach.inv_of (P := fun h => NamesInv strings h) ?_ ?_ hr
    · intro init hinit
      obtain ⟨config, -, -, -, rfl⟩ := hinit
      exact namesInv_blank rfl (fun _ => rfl) fun _ _ => rfl
    · intro h e h' hr hn hok hs
      exact namesInv_step hfuel hr hn hok hs
  obtain ⟨file, W, hdisk, hdecode, hperm, hown, -⟩ := session_file hfuel unwrapped_suitable hr hends hf hs
  exact ⟨file, W, hdisk, hdecode, hperm, resolves_of_defined hn.defined hperm hown⟩

/-- A session with one slice, whose names and tracks are defined in the file. -/
theorem references_resolve_slice :
    ∃ h h' : HostState, h.log.length = 5 ∧
      h.step (fun _ => [97]) 3 (.disableTracing [0]) = some h' ∧
      ∃ file W, h'.disk "host" = some file ∧ decodeTrace file = some (W.map fun x => x.2.record) ∧
        W.Perm h.log ∧ Resolves (fun _ => [97]) W := by
  have h0 : HostReach (fun _ => [97]) 3 (Unwrapped fun _ => [97]) { config := { hostFilename := some "host" } } :=
    .init ⟨_, rfl, by decide, by decide, rfl⟩
  have h1 := h0.step (a := .enableTracing {}) (by exact trivial) rfl
  have hcall : ((HostState.enableTracing {} { config := { hostFilename := some "host" } }).step (fun _ => [97]) 3
      (.call 0 5 (.beginTrace 7))).map (fun h => (h.log.length, h.config.endsSession, h.config.hostFilename,
        (h.step (fun _ => [97]) 3 (.disableTracing [0])).isSome)) = some (5, true, some "host", true) := by
    decide +kernel
  obtain ⟨h, hs, hh⟩ := Option.map_eq_some_iff.mp hcall
  simp only [Prod.mk.injEq] at hh
  obtain ⟨hl, hends, hf, hsome⟩ := hh
  obtain ⟨h', hs'⟩ := Option.isSome_iff_exists.mp hsome
  have h2 : HostReach (fun _ => [97]) 3 (Unwrapped fun _ => [97]) h := by
    refine h1.step (a := .call 0 5 (.beginTrace 7)) ⟨(by decide : 1 ≤ 150), fun _ => by decide, ?_⟩ hs
    intro info b he hb
    obtain rfl := Option.some.inj he
    obtain rfl := Option.some.inj hb
    constructor <;> decide
  exact ⟨h, h', hl, hs', references_resolve (by decide) h2 hends hf hs'⟩

end

end Host
end VPerfetto
