/-
# The files are the recordings

The program and the recorder run side by side on the same events. The log of a
session keeps its shape (`shapeInv_step`), the recorder has what the log says
(`records_step`), and at the end of a session the file on the disk shows it.

Key definitions: `ShapeInv`, `Records`, `stepBoth`.
Key theorems: `shapeInv_step`, `records_step`, `files_show_recordings`.
-/
import VPerfetto.Host.Recorder
import VPerfetto.Host.Slices

namespace VPerfetto
namespace Host

open Wire Chunks Refs Tables Runs

/-- The log has its shape, and a thread that has defined its track has the id of the track. -/
structure ShapeInv (strings : Ptr → Bytes) (h : HostState) : Prop where
  shape : LogShape strings h.log
  ids : ∀ t, h.exited t = false → ∀ x ∈ h.log, x.1 = t → ∀ id, x.2.packet = .threadTrack id →
    (h.infos t).needToSetThreadId = false ∧ id = (h.infos t).threadId

/-- The packets that a call may write. -/
structure CallPacket (strings : Ptr → Bytes) (call : Call) (c : VirtualDeviceTraceConfig) (i : ThreadInfo)
    (p : Packet) : Prop where
  category : ∀ iid s, p = .category iid s → s = kCategory
  counter : ∀ uuid id s, p = .counterTrack uuid id s → ∃ name, call.name [] = some name ∧ s = strings name
  thread : ∀ id, p = .threadTrack id → i.needToSetThreadId = true ∧ id = c.currentThreadId + 1

/-- The recorder's state is what a reader would make of the program's. -/
structure Records (strings : Ptr → Bytes) (h : HostState) (r : Recorder) : Prop where
  hostFilename : r.hostFilename = h.config.hostFilename
  saving : r.saving = h.config.saving
  recording : r.recording = !h.config.tracingDisabled
  guestTimeDiff : r.guestTimeDiff = h.config.guestTimeDiff
  openSlices : ∀ t, r.openSlices t = (h.openNames t).map strings
  happenings : ∀ t, r.happenings t = happeningsOf strings t h.log
  files : ∀ f, Option.Rel Shows (h.disk f) (r.files f)

section

variable {strings : Ptr → Bytes} {fuel : ℕ} {h h' : HostState} {r : Recorder} {t : Tid} {call : Call}
  {now : UInt64} {c : VirtualDeviceTraceConfig} {i info : ThreadInfo} {b : Body}

/-! ### The shape of the log -/

theorem Call.body_callPacket (h : call.body strings now c i = some b) :
    ∀ p ∈ b.packets, CallPacket strings call c i p := by
  have hQ : Writable strings (CallPacket strings call c i) c i call := by
    refine ⟨?_, ?_, ?_, ?_, ?_, ?_, ?_⟩
    · exact fun iid => ⟨fun _ _ hp => (Packet.category.inj hp).2.symm, nofun, nofun⟩
    · exact fun hn => ⟨nofun, nofun, fun id hp => ⟨hn, (Packet.threadTrack.inj hp).symm⟩⟩
    · exact fun _ _ _ => ⟨nofun, nofun, nofun⟩
    · exact fun _ _ _ => ⟨nofun, nofun, nofun⟩
    · exact fun _ _ _ _ => ⟨nofun, nofun, nofun⟩
    · intro name val uuid hcall
      refine ⟨nofun, fun uuid' id s hp => ⟨name, by rw [hcall]; rfl, ?_⟩, nofun⟩
      exact (Packet.counterTrack.inj hp).2.2.symm
    · exact fun _ _ _ => ⟨nofun, nofun, nofun⟩
  exact Call.body_packets hQ ⟨nofun, nofun, nofun⟩ h

theorem logShape_nil (strings : Ptr → Bytes) : LogShape strings [] where
  categories _ hx := absurd hx List.not_mem_nil
  counters _ hx := absurd hx List.not_mem_nil
  events _ hx := absurd hx List.not_mem_nil
  oneId _ hx := absurd hx List.not_mem_nil

/-- A slice that ends was open. -/
theorem ThreadKnown.openNames_ne_nil {L : List (Tid × Emitted)} {names : List Ptr}
    (h : ThreadKnown strings L t i names) (hpos : 0 < i.stackDepth) : names ≠ [] := by
  rintro rfl
  obtain ⟨depth, hdepth⟩ : ∃ depth, i.stackDepth = depth + 1 := ⟨i.stackDepth - 1, by omega⟩
  have hslices := h.slices
  rw [hdepth] at hslices
  exact hslices

theorem ThreadKnown.openNames_nil {L : List (Tid × Emitted)} {names : List Ptr}
    (h : ThreadKnown strings L t i names) (hzero : i.stackDepth = 0) : names = [] := by
  have hslices := h.slices
  rw [hzero] at hslices
  cases names with
  | nil => rfl
  | cons name names => exact hslices.elim

/-- A call that gets past its tests is about a name. -/
theorem Call.name_ne_none {L : List (Tid × Emitted)} {names : List Ptr} (hk : ThreadKnown strings L t i names)
    (he : call.enter c i = some info) : call.name names ≠ none := by
  cases call with
  | beginTrace | traceCounter => exact Option.some_ne_none _
  | endTrace =>
    obtain ⟨hne, -⟩ | ⟨-, hpos, -⟩ := Call.enter_info he
    · exact absurd rfl hne
    · rw [Call.name, ne_eq, List.head?_eq_none_iff]
      exact hk.openNames_ne_nil hpos

theorem Call.enter_ids (he : call.enter c i = some info) :
    info.needToSetThreadId = i.needToSetThreadId ∧ info.threadId = i.threadId := by
  obtain ⟨-, rfl⟩ | ⟨-, -, rfl⟩ := Call.enter_info he <;> exact ⟨rfl, rfl⟩

/-- The packets that a call adds to the log. -/
def callLog (t : Tid) (call : Call) (names : List Ptr) (b : Body) : List (Tid × Emitted) :=
  (b.packets.map (emitted (call.name names))).map (t, ·)

theorem mem_callLog {names : List Ptr} {x : Tid × Emitted} (hx : x ∈ callLog t call names b) :
    x.1 = t ∧ x.2.packet ∈ b.packets ∧ x.2 = emitted (call.name names) x.2.packet := by
  obtain ⟨e, he, rfl⟩ := List.mem_map.mp hx
  obtain ⟨p, hp, rfl⟩ := List.mem_map.mp he
  exact ⟨rfl, hp, rfl⟩

/-- A call keeps the shape of the log, and its thread has the id it wrote. -/
theorem ShapeInv.extend (hi : ShapeInv strings h) (hx : h.exited t = false)
    (hk : ThreadKnown strings h.log t (h.infos t) (h.openNames t)) (he : call.enter h.config (h.infos t) = some info)
    (hb : call.body strings now h.config info = some b) :
    LogShape strings (h.log ++ callLog t call (h.openNames t) b) ∧
      ∀ x ∈ h.log ++ callLog t call (h.openNames t) b, x.1 = t → ∀ id, x.2.packet = .threadTrack id →
        b.info.needToSetThreadId = false ∧ id = b.info.threadId := by
  have hpackets := Call.body_callPacket hb
  obtain ⟨hneed, hid⟩ := Call.enter_ids he
  have hset : call = .endTrace → info.needToSetThreadId = false := by
    intro hcall
    obtain ⟨hne, -⟩ | ⟨-, hpos, -⟩ := Call.enter_info he
    · exact absurd hcall hne
    · exact hneed.trans (hk.setUp hpos)
  obtain ⟨hthread, hneed', -⟩ := Call.body_assignedId hset hb
  have hids : ∀ x ∈ h.log ++ callLog t call (h.openNames t) b, x.1 = t → ∀ id, x.2.packet = .threadTrack id →
      b.info.needToSetThreadId = false ∧ id = b.info.threadId := by
    intro x hxm hxt id hp
    refine ⟨hneed', ?_⟩
    rw [hthread, ThreadInfo.assignedId]
    rcases List.mem_append.mp hxm with hxm | hxm
    · obtain ⟨hn, heq⟩ := hi.ids t hx x hxm hxt id hp
      rw [if_neg (by rw [hneed, hn]; exact Bool.false_ne_true), hid]
      exact heq
    · obtain ⟨hn, heq⟩ := (hpackets _ (mem_callLog hxm).2.1).thread id hp
      rw [if_pos hn]
      exact heq
  refine ⟨⟨?_, ?_, ?_, ?_⟩, hids⟩
  · intro x hxm iid s hp
    rcases List.mem_append.mp hxm with hxm | hxm
    · exact hi.shape.categories x hxm iid s hp
    · exact (hpackets _ (mem_callLog hxm).2.1).category iid s hp
  · intro x hxm uuid id s hp
    rcases List.mem_append.mp hxm with hxm | hxm
    · exact hi.shape.counters x hxm uuid id s hp
    · obtain ⟨-, hmem, hem⟩ := mem_callLog hxm
      obtain ⟨name, hname, hs⟩ := (hpackets _ hmem).counter uuid id s hp
      refine ⟨name, ?_, hs⟩
      rw [hem, hp]
      cases call with
      | endTrace => exact absurd hname.symm (Option.some_ne_none name)
      | beginTrace | traceCounter => exact hname
  · intro x hxm hev
    rcases List.mem_append.mp hxm with hxm | hxm
    · exact hi.shape.events x hxm hev
    · obtain ⟨-, -, hem⟩ := mem_callLog hxm
      rw [hem]
      have hname := Call.name_ne_none hk he
      cases hp : x.2.packet <;> rw [hp] at hev
      case sequenceStart | category | threadTrack | eventName | counterTrack => exact absurd rfl hev
      all_goals exact hname
  · intro x hxm y hym hxy id id' hpx hpy
    by_cases hxt : x.1 = t
    · obtain ⟨-, rfl⟩ := hids x hxm hxt id hpx
      exact (hids y hym (hxy.symm.trans hxt) id' hpy).2.symm
    · have hold : ∀ z ∈ h.log ++ callLog t call (h.openNames t) b, z.1 ≠ t → z ∈ h.log := by
        intro z hz hzt
        rcases List.mem_append.mp hz with hz | hz
        · exact hz
        · exact absurd (mem_callLog hz).1 hzt
      exact hi.shape.oneId x (hold x hxm hxt) y (hold y hym (hxy ▸ hxt)) hxy id id' hpx hpy

theorem shapeInv_blank (hl : h.log = []) : ShapeInv strings h := by
  refine ⟨hl ▸ logShape_nil strings, fun t _ x hx => ?_⟩
  rw [hl] at hx
  exact absurd hx List.not_mem_nil

/-- A change that leaves the log and the contexts of the threads that are left. -/
theorem ShapeInv.congr (hi : ShapeInv strings h) (hl : h'.log = h.log)
    (hx : ∀ t, h'.exited t = false → h.exited t = false ∧ h'.infos t = h.infos t) : ShapeInv strings h' := by
  refine ⟨hl ▸ hi.shape, fun t ht x hm => ?_⟩
  obtain ⟨hold, hinfo⟩ := hx t ht
  rw [hinfo]
  exact hi.ids t hold x (hl ▸ hm)

theorem shapeInv_step {e : HostEvent} (hn : NamesInv strings h) (hi : ShapeInv strings h)
    (hs : h.step strings fuel e = some h') : ShapeInv strings h' := by
  cases e with
  | enableTracing env =>
    obtain rfl := Option.some.inj hs
    unfold HostState.enableTracing
    dsimp only
    split
    · exact shapeInv_blank rfl
    · exact hi.congr rfl fun _ ht => ⟨ht, rfl⟩
  | disableTracing order =>
    simp only [HostState.step, HostState.disableTracing] at hs
    split at hs
    · obtain ⟨-, hs⟩ := Option.ite_none_right_eq_some.mp hs
      obtain rfl := Option.some.inj hs
      exact shapeInv_blank rfl
    · obtain rfl := Option.some.inj hs
      exact hi.congr rfl fun _ ht => ⟨ht, rfl⟩
  | setGuestTime t now =>
    obtain rfl := Option.some.inj hs
    exact hi.congr rfl fun _ ht => ⟨ht, rfl⟩
  | call t now c =>
    obtain ⟨hx, ⟨-, rfl⟩ | ⟨info, b, w, he, hb, -, rfl⟩⟩ := HostState.call_cases hs
    · rw [HostState.beforeCall_eq]
      exact hi.congr rfl fun _ ht => ⟨ht, rfl⟩
    · rw [HostState.beforeCall_eq]
      obtain ⟨hshape, hids⟩ := hi.extend hx (hn.threads t hx) he hb
      refine ⟨hshape, fun u hu x hm hxu id hp => ?_⟩
      by_cases hut : u = t
      · subst hut
        simp only [HostState.afterCall, Function.update_self]
        exact hids x hm hxu id hp
      · simp only [HostState.afterCall, Function.update_of_ne hut]
        rcases List.mem_append.mp hm with hm | hm
        · exact hi.ids u hu x hm hxu id hp
        · exact absurd (hxu.symm.trans (mem_callLog hm).1) hut
  | exit t =>
    simp only [HostState.step, HostState.exit, Option.ite_none_left_eq_some] at hs
    obtain rfl := Option.some.inj hs.2
    refine hi.congr rfl fun u hu => ⟨?_, rfl⟩
    by_cases hut : u = t
    · subst hut
      simp at hu
    · simpa [hut] using hu

/-- No thread has 16 open slices. -/
def BelowMax (h : HostState) : Prop := ∀ t, (h.infos t).stackDepth < traceStackDepthMax

theorem belowMax_step {e : HostEvent} (hi : BelowMax h) (hok : Unwrapped strings h e)
    (hs : h.step strings fuel e = some h') : BelowMax h' := by
  cases e with
  | enableTracing env =>
    obtain rfl := Option.some.inj hs
    unfold HostState.enableTracing
    dsimp only
    split <;> exact hi
  | disableTracing order =>
    simp only [HostState.step, HostState.disableTracing] at hs
    split at hs
    · obtain ⟨-, hs⟩ := Option.ite_none_right_eq_some.mp hs
      obtain rfl := Option.some.inj hs
      intro t
      unfold HostState.saveTracesToDisk
      rw [saveContexts_eq]
      dsimp only
      split
      · exact (by decide : 0 < traceStackDepthMax)
      · exact hi t
    · obtain rfl := Option.some.inj hs
      exact hi
  | setGuestTime t now =>
    obtain rfl := Option.some.inj hs
    exact hi
  | call t now c =>
    obtain ⟨-, ⟨-, rfl⟩ | ⟨info, b, w, he, hb, -, rfl⟩⟩ := HostState.call_cases hs
    · rw [HostState.beforeCall_eq]
      exact hi
    · rw [HostState.beforeCall_eq]
      have hinfo : info.stackDepth ≤ (h.infos t).stackDepth := by
        obtain ⟨-, rfl⟩ | ⟨-, -, rfl⟩ := Call.enter_info he
        · exact Nat.le_refl _
        · exact Nat.sub_le _ _
      have hbelow : b.info.stackDepth < traceStackDepthMax := by
        have := hi t
        rcases Call.body_slices hb with ⟨name, hc, hd, -⟩ | ⟨-, hd, -⟩ | ⟨_, _, -, hd, -⟩
        · have := hok.2.1 ⟨name, hc⟩
          omega
        · rw [hd]
          omega
        · omega
      intro u
      by_cases hut : u = t
      · subst hut
        simpa only [HostState.afterCall, Function.update_self] using hbelow
      · simpa only [HostState.afterCall, Function.update_of_ne hut] using hi u
  | exit t =>
    simp only [HostState.step, HostState.exit, Option.ite_none_left_eq_some] at hs
    obtain rfl := Option.some.inj hs.2
    exact hi

/-! ### The recorder goes along -/

/-- When a session begins, and what else `enableTracing` does. -/
theorem enableTracing_facts (env : Env) (c : VirtualDeviceTraceConfig) :
    (c.enableTracing env).hostFilename = useFilenameByEnv env.hostFile c.hostFilename ∧
      (c.enableTracing env).saving = c.saving ∧ (c.enableTracing env).guestTimeDiff = c.guestTimeDiff ∧
      (c.tracingDisabled && !(c.enableTracing env).tracingDisabled) =
        ((useFilenameByEnv env.hostFile c.hostFilename).isSome && c.tracingDisabled && !c.saving) ∧
      ((c.tracingDisabled && !(c.enableTracing env).tracingDisabled) = false →
        (c.enableTracing env).tracingDisabled = c.tracingDisabled) := by
  have hname : (c.useEnv env).hostFilename = useFilenameByEnv env.hostFile c.hostFilename := rfl
  have hdis : (c.useEnv env).tracingDisabled = c.tracingDisabled := rfl
  have hsaving : (c.useEnv env).saving = c.saving := rfl
  unfold VirtualDeviceTraceConfig.enableTracing
  dsimp only
  rw [hname, hdis, hsaving]
  cases hf : useFilenameByEnv env.hostFile c.hostFilename <;> cases hd : c.tracingDisabled <;>
    cases hs : c.saving <;> simp [hname, hdis, hsaving, hf, hd, hs, VirtualDeviceTraceConfig.resetCounters] <;> rfl

theorem Records.enableTracing (hr : Records strings h r) (env : Env) :
    Records strings (h.enableTracing env) (r.enableTracing env) := by
  obtain ⟨hname, hsaving, hdiff, hstart, hsame⟩ := enableTracing_facts env h.config
  have hcond : ((useFilenameByEnv env.hostFile r.hostFilename).isSome && !r.recording && !r.saving) =
      (h.config.tracingDisabled && !(h.config.enableTracing env).tracingDisabled) := by
    rw [hstart, hr.hostFilename, hr.recording, hr.saving, Bool.not_not]
  unfold HostState.enableTracing Recorder.enableTracing
  dsimp only
  rw [hcond, hr.hostFilename]
  split
  · rename_i hs
    have hen : (h.config.enableTracing env).tracingDisabled = false := by
      simp only [Bool.and_eq_true, Bool.not_eq_true'] at hs
      exact hs.2
    refine ⟨hname.symm, hr.saving.trans hsaving.symm, ?_, hr.guestTimeDiff.trans hdiff.symm, fun _ => rfl, fun _ => rfl,
      hr.files⟩
    rw [hen]
    rfl
  · rename_i hs
    have hkeep := hsame (by simpa using hs)
    refine ⟨hname.symm, hr.saving.trans hsaving.symm, ?_, hr.guestTimeDiff.trans hdiff.symm, hr.openSlices,
      hr.happenings, hr.files⟩
    rw [hkeep]
    exact hr.recording

/-- The end of a session writes one file. -/
theorem disableTracing_disk {order : List Tid} (hends : h.config.endsSession = true) {f : String}
    (hf : h.config.hostFilename = some f) (hs : h.step strings fuel (.disableTracing order) = some h') {g : String}
    (hg : g ≠ f) : h'.disk g = h.disk g := by
  simp only [HostState.step, HostState.disableTracing] at hs
  rw [if_pos hends] at hs
  obtain ⟨-, hs⟩ := Option.ite_none_right_eq_some.mp hs
  obtain rfl := Option.some.inj hs
  unfold HostState.saveTracesToDisk
  dsimp only
  rw [saveContexts_eq]
  simp only [hf, Function.update_of_ne hg]

/-- A call of `disableTracing` that ends no session. -/
theorem Records.noSession (hr : Records strings h r) (hends : h.config.endsSession = false) :
    Records strings { h with config := h.config.disableTracing } r.disableTracing := by
  unfold Recorder.disableTracing VirtualDeviceTraceConfig.disableTracing
  cases hf : h.config.hostFilename with
  | none =>
    rw [hr.hostFilename, hf]
    exact hr
  | some f =>
    have hd : h.config.tracingDisabled = true := by simpa [VirtualDeviceTraceConfig.endsSession, hf] using hends
    have hrec : r.recording = false := by rw [hr.recording, hd]; rfl
    rw [hr.hostFilename, hf]
    simp only [hrec, Bool.false_eq_true, if_false, Option.isNone_some, hd, if_true]
    exact ⟨hf.symm, hr.saving, rfl, rfl, hr.openSlices, hr.happenings, hr.files⟩

/-- The end of a session, and the file it leaves. -/
theorem Records.endSession (hfuel : 2 < fuel) (hreach : HostReach strings fuel (Unwrapped strings) h)
    (hn : NamesInv strings h) (hi : ShapeInv strings h) (hr : Records strings h r) {order : List Tid}
    (hends : h.config.endsSession = true) (hs : h.step strings fuel (.disableTracing order) = some h') :
    Records strings h' r.disableTracing := by
  obtain ⟨f, hf, hd⟩ : ∃ f, h.config.hostFilename = some f ∧ h.config.tracingDisabled = false := by
    simp only [VirtualDeviceTraceConfig.endsSession, Bool.and_eq_true, Option.isSome_iff_exists,
      Bool.not_eq_true'] at hends
    obtain ⟨⟨f, hf⟩, hd⟩ := hends
    exact ⟨f, hf, hd⟩
  obtain ⟨file, W, hdisk, hdecode, hperm, hown, hstart⟩ := session_file hfuel unwrapped_suitable hreach hends hf hs
  have hlog : W ≠ [] → h.log ≠ [] := by
    rintro hW hl
    rw [hl] at hperm
    exact hW hperm.eq_nil
  have hshows : Shows file r.happenings := by
    have hrec : r.happenings = fun t => happeningsOf strings t W := by
      funext t
      rw [hr.happenings t, happeningsOf, ← hown t]
      rfl
    rw [hrec]
    exact shows_of_readable (readable_of_defined hn.defined hi.shape hperm hown) (fun hW => hstart (hlog hW)) hdecode
  have hfiles : ∀ g, Option.Rel Shows (h'.disk g) (Function.update r.files f (some r.happenings) g) := by
    intro g
    by_cases hg : g = f
    · subst hg
      rw [hdisk, Function.update_self]
      exact .some hshows
    · rw [disableTracing_disk hends hf hs hg, Function.update_of_ne hg]
      exact hr.files g
  have hrecorder : r.disableTracing = { r with
      saving := false, recording := false, guestTimeDiff := 0
      openSlices := fun _ => [], happenings := fun _ => []
      files := Function.update r.files f (some r.happenings) } := by
    unfold Recorder.disableTracing
    rw [hr.hostFilename, hf, hr.recording, hd]
    rfl
  simp only [HostState.step, HostState.disableTracing] at hs
  rw [if_pos hends] at hs
  obtain ⟨-, hs⟩ := Option.ite_none_right_eq_some.mp hs
  have hconfig : h'.config =
      { h.config.resetCounters with tracingDisabled := true, saving := false, guestTimeDiff := 0 } := by
    rw [← Option.some.inj hs]
    simp [VirtualDeviceTraceConfig.disableTracing, hf, hd]
  have hblank : h'.log = [] ∧ ∀ t, h'.openNames t = [] := by
    rw [← Option.some.inj hs]
    exact ⟨rfl, fun _ => rfl⟩
  rw [hrecorder]
  refine ⟨?_, ?_, ?_, ?_, fun t => ?_, fun t => ?_, hfiles⟩
  · rw [hconfig]
    exact hr.hostFilename
  · rw [hconfig]
  · rw [hconfig]
    rfl
  · rw [hconfig]
  · rw [hblank.2 t]
    rfl
  · rw [hblank.1]
    rfl

theorem Records.setGuestTime (hr : Records strings h r) (t now : UInt64) :
    Records strings { h with config := h.config.setGuestTime t now } (r.setGuestTime t now) := by
  unfold Recorder.setGuestTime VirtualDeviceTraceConfig.setGuestTime
  rw [hr.recording]
  split
  · exact hr
  · exact ⟨hr.hostFilename, hr.saving, rfl, rfl, hr.openSlices, hr.happenings, hr.files⟩

/-- A call that is recorded: the recorder makes of it what its packets say. -/
theorem Records.recorded (hr : Records strings h r) (he : call.enter h.config (h.infos t) = some info)
    (hb : call.body strings now h.config info = some b)
    (hk : ThreadKnown strings h.log t (h.infos t) (h.openNames t)) (w : Writing) :
    Records strings ((h.beforeCall t).afterCall t call b w) (r.call strings t now call) := by
  have hrec : r.recording = true := by rw [hr.recording, Call.enter_disabled he]; rfl
  obtain ⟨_, _, _, _, hconfig⟩ := Call.body_config hb
  obtain ⟨name, hname⟩ := Option.ne_none_iff_exists'.mp (Call.name_ne_none hk he)
  -- the event is the call's, about its name, at the time the recorder has
  have hnew : ∀ u, happeningsOf strings u (h.log ++ callLog t call (h.openNames t) b) =
      Function.update r.happenings t (r.happenings t ++
        [⟨now + r.guestTimeDiff.toUInt64, call.kind, strings name⟩]) u := by
    intro u
    have hbody := Call.body_happenings hb (some name)
    rw [happeningsOf, ofOwner_append, List.filterMap_append]
    by_cases hut : u = t
    · subst hut
      have hall : ofOwner u (callLog u call (h.openNames u) b) = callLog u call (h.openNames u) b :=
        List.filter_eq_self.mpr fun x hx => by simp [(mem_callLog hx).1]
      rw [Function.update_self, hr.happenings u, hall, callLog, List.filterMap_map, hname, hr.guestTimeDiff]
      exact congrArg _ hbody
    · have hnone : ofOwner u (callLog t call (h.openNames t) b) = [] :=
        List.filter_eq_nil_iff.mpr fun x hx => by simp [(mem_callLog hx).1, Ne.symm hut]
      rw [Function.update_of_ne hut, hnone, List.filterMap_nil, List.append_nil, hr.happenings u]
      rfl
  have hcall : r.call strings t now call =
      (r.record t now call.kind (strings name)).setOpen t ((call.openAfter (h.openNames t)).map strings) := by
    unfold Recorder.call
    rw [hrec]
    cases call with
    | beginTrace ptr =>
      obtain rfl := Option.some.inj hname
      simp [Call.kind, Call.openAfter, hr.openSlices t]
    | endTrace =>
      cases ho : h.openNames t with
      | nil => rw [ho] at hname; cases hname
      | cons ptr names =>
        rw [ho] at hname
        obtain rfl := Option.some.inj hname
        simp [Call.kind, Call.openAfter, hr.openSlices t, ho]
    | traceCounter ptr val =>
      obtain rfl := Option.some.inj hname
      simp [Call.kind, Call.openAfter, Recorder.setOpen, Recorder.record, ← hr.openSlices t]
  rw [hcall, HostState.beforeCall_eq]
  refine ⟨?_, ?_, ?_, ?_, fun u => ?_, fun u => (hnew u).symm, hr.files⟩
  · show r.hostFilename = b.config.hostFilename
    rw [hconfig]
    exact hr.hostFilename
  · show r.saving = b.config.saving
    rw [hconfig]
    exact hr.saving
  · show r.recording = !b.config.tracingDisabled
    rw [hconfig]
    exact hr.recording
  · show r.guestTimeDiff = b.config.guestTimeDiff
    rw [hconfig]
    exact hr.guestTimeDiff
  · by_cases hut : u = t
    · subst hut
      simp only [Recorder.setOpen, HostState.afterCall, Function.update_self]
    · simp only [Recorder.setOpen, Recorder.record, HostState.afterCall, Function.update_of_ne hut]
      exact hr.openSlices u

/-- A call that returns at once. -/
theorem Records.returned (hr : Records strings h r) (he : call.enter h.config (h.infos t) = none)
    (hk : ThreadKnown strings h.log t (h.infos t) (h.openNames t))
    (hbelow : (h.infos t).stackDepth < traceStackDepthMax) : r.call strings t now call = r := by
  unfold Recorder.call
  cases hd : h.config.tracingDisabled with
  | true => rw [hr.recording, hd]; rfl
  | false =>
    have hdepth := Nat.ne_of_lt hbelow
    cases call with
    | beginTrace | traceCounter => simp [Call.enter, hd, hdepth] at he
    | endTrace =>
      have hzero : (h.infos t).stackDepth = 0 := by simpa [Call.enter, hd, hdepth] using he
      rw [hr.openSlices t, hk.openNames_nil hzero, hr.recording, hd]
      rfl

theorem records_step {e : HostEvent} (hfuel : 2 < fuel) (hreach : HostReach strings fuel (Unwrapped strings) h)
    (hn : NamesInv strings h) (hi : ShapeInv strings h) (hbelow : BelowMax h) (hr : Records strings h r)
    (hs : h.step strings fuel e = some h') : Records strings h' (r.step strings e) := by
  cases e with
  | enableTracing env =>
    obtain rfl := Option.some.inj hs
    exact hr.enableTracing env
  | disableTracing order =>
    cases hends : h.config.endsSession with
    | true => exact hr.endSession hfuel hreach hn hi hends hs
    | false =>
      simp only [HostState.step, HostState.disableTracing, hends, Bool.false_eq_true, if_false] at hs
      obtain rfl := Option.some.inj hs
      exact hr.noSession hends
  | setGuestTime t now =>
    obtain rfl := Option.some.inj hs
    exact hr.setGuestTime t now
  | call t now c =>
    obtain ⟨hx, ⟨he, rfl⟩ | ⟨info, b, w, he, hb, -, rfl⟩⟩ := HostState.call_cases hs
    · show Records strings _ (r.call strings t now c)
      rw [hr.returned he (hn.threads t hx) (hbelow t), HostState.beforeCall_eq]
      exact ⟨hr.hostFilename, hr.saving, hr.recording, hr.guestTimeDiff, hr.openSlices, hr.happenings, hr.files⟩
    · exact hr.recorded he hb (hn.threads t hx) w
  | exit t =>
    simp only [HostState.step, HostState.exit, Option.ite_none_left_eq_some] at hs
    obtain rfl := Option.some.inj hs.2
    exact ⟨hr.hostFilename, hr.saving, hr.recording, hr.guestTimeDiff, hr.openSlices, hr.happenings, hr.files⟩

/-! ### Conditions that can be checked -/

instance (n : ℕ) : ∀ c : Call, Decidable (c.nameLe strings n)
  | .beginTrace _ | .traceCounter _ _ => inferInstanceAs (Decidable (_ ≤ _))
  | .endTrace => .isTrue trivial

instance (c : VirtualDeviceTraceConfig) (i : ThreadInfo) (b : Body) : Decidable (NoWrap c i b) :=
  decidable_of_iff (c.packetsWritten ≤ b.config.packetsWritten ∧ c.currentInterningId ≤ b.config.currentInterningId ∧
      c.currentThreadId ≤ b.config.currentThreadId ∧ i.currentCounterId ≤ b.info.currentCounterId)
    ⟨fun h => ⟨h.1, h.2.1, h.2.2.1, h.2.2.2⟩, fun h => ⟨h.packetsWritten, h.interningId, h.threadId, h.counterId⟩⟩

instance (strings : Ptr → Bytes) (h : HostState) : ∀ e : HostEvent, Decidable (Unwrapped strings h e)
  | .call t now c =>
    decidable_of_iff (c.nameLe strings 150 ∧ (c.kind = .sliceBegin → (h.infos t).stackDepth + 1 < traceStackDepthMax) ∧
        ∀ info ∈ c.enter h.config (h.infos t), ∀ b ∈ c.body strings now h.config info, NoWrap h.config info b)
      (and_congr_right fun _ => and_congr (imp_congr_left (by cases c <;> simp [Call.kind]))
        ⟨fun hall info b he hb => hall info he b hb, fun hall info he b hb => hall info b he hb⟩)
  | .enableTracing _ | .disableTracing _ | .setGuestTime _ _ | .exit _ => .isTrue trivial

/-! ### Runs -/

/-- The program and the recorder, given the same event. -/
def stepBoth (strings : Ptr → Bytes) (fuel : ℕ) (s : HostState × Recorder) (e : HostEvent) :
    Option (HostState × Recorder) := do
  let h ← s.1.step strings fuel e
  return (h, s.2.step strings e)

/-- Before the first session nothing has been recorded. -/
def Recorder.start (c : VirtualDeviceTraceConfig) : Recorder :=
  { hostFilename := c.hostFilename, saving := c.saving, guestTimeDiff := c.guestTimeDiff }

def BothInitial (s : HostState × Recorder) : Prop := HostInitial s.1 ∧ s.2 = Recorder.start s.1.config

abbrev BothReach (strings : Ptr → Bytes) (fuel : ℕ) : HostState × Recorder → Prop :=
  Reach BothInitial (fun s e s' => stepBoth strings fuel s e = some s') fun s e => Unwrapped strings s.1 e

theorem stepBoth_eq {s s' : HostState × Recorder} {e : HostEvent} (hs : stepBoth strings fuel s e = some s') :
    s.1.step strings fuel e = some s'.1 ∧ s'.2 = s.2.step strings e := by
  obtain ⟨h, hh, heq⟩ := Option.bind_eq_some_iff.mp hs
  obtain rfl := Option.some.inj heq
  exact ⟨hh, rfl⟩

theorem bothReach_host {s : HostState × Recorder} (hr : BothReach strings fuel s) :
    HostReach strings fuel (Unwrapped strings) s.1 :=
  Reach.map Prod.fst id (fun _ h => h.1) (fun _ _ _ hok hs => ⟨hok, (stepBoth_eq hs).1⟩) hr

/-- The recorder goes along with the program. -/
theorem bothReach_records (hfuel : 2 < fuel) {s : HostState × Recorder} (hr : BothReach strings fuel s) :
    Records strings s.1 s.2 := by
  have hinv : NamesInv strings s.1 ∧ ShapeInv strings s.1 ∧ BelowMax s.1 ∧ Records strings s.1 s.2 := by
    refine Reach.inv_of (P := fun s => NamesInv strings s.1 ∧ ShapeInv strings s.1 ∧ BelowMax s.1 ∧
      Records strings s.1 s.2) ?_ ?_ hr
    · rintro ⟨h, r⟩ ⟨⟨config, hd, -, -, rfl⟩, hstart⟩
      obtain rfl : r = Recorder.start config := hstart
      refine ⟨namesInv_blank rfl (fun _ => rfl) fun _ _ => rfl, shapeInv_blank rfl,
        fun _ => (by decide : 0 < traceStackDepthMax), ?_⟩
      exact ⟨rfl, rfl, by simp [Recorder.start, hd], rfl, fun _ => rfl, fun _ => rfl, fun _ => .none⟩
    · rintro s e s' hreach ⟨hn, hi, hbelow, hrec⟩ hok hs
      have hhost := bothReach_host hreach
      obtain ⟨hstep, heq⟩ := stepBoth_eq hs
      rw [heq]
      exact ⟨namesInv_step hfuel hhost hn hok hstep, shapeInv_step hn hi hstep, belowMax_step hbelow hok hstep,
        records_step hfuel hhost hn hi hbelow hrec hstep⟩
  exact hinv.2.2.2

/-- A file shows the recording under its name. -/
theorem recording_of_disk (hfuel : 2 < fuel) {s : HostState × Recorder} (hr : BothReach strings fuel s) {f : String}
    {file : Bytes} (hdisk : s.1.disk f = some file) : ∃ recorded, s.2.files f = some recorded ∧ Shows file recorded := by
  have hrel := (bothReach_records hfuel hr).files f
  rw [hdisk] at hrel
  cases hrecorded : s.2.files f with
  | none =>
    rw [hrecorded] at hrel
    cases hrel
  | some recorded =>
    rw [hrecorded] at hrel
    cases hrel with
    | some hshows => exact ⟨recorded, rfl, hshows⟩

/-- **The files are the recordings.** Whatever sessions there were and whatever
their threads called in whatever order, there is a file under a name exactly if
there is a recording, and read back it shows what each thread recorded. -/
theorem files_show_recordings (hfuel : 2 < fuel) {s : HostState × Recorder} (hr : BothReach strings fuel s)
    (f : String) : Option.Rel Shows (s.1.disk f) (s.2.files f) :=
  (bothReach_records hfuel hr).files f

/-- A session in which thread 0 begins a slice. -/
def sliceSession : List HostEvent := [.enableTracing {}, .call 0 5 (.beginTrace 7), .disableTracing [0]]

theorem files_show_recordings_slice : ∃ s : HostState × Recorder,
    (s.2.files "host").map (fun recorded => recorded 0) = some [⟨5, .sliceBegin, [97]⟩] ∧
      Option.Rel Shows (s.1.disk "host") (s.2.files "host") := by
  have h0 : BothReach (fun _ => [97]) 3 ({ config := { hostFilename := some "host" } },
      Recorder.start { hostFilename := some "host" }) := .init ⟨⟨_, rfl, by decide, by decide, rfl⟩, rfl⟩
  have hrun : (run (checked (stepBoth (fun _ => [97]) 3) fun s e => Unwrapped (fun _ => [97]) s.1 e)
      ({ config := { hostFilename := some "host" } }, Recorder.start { hostFilename := some "host" }) sliceSession).map
        (fun s => (s.2.files "host").map fun recorded => recorded 0) = some (some [⟨5, .sliceBegin, [97]⟩]) := by
    decide +kernel
  obtain ⟨s, hs, hrecorded⟩ := Option.map_eq_some_iff.mp hrun
  exact ⟨s, hrecorded, files_show_recordings (by decide) (h0.run_checked hs) "host"⟩

end

end Host
end VPerfetto
