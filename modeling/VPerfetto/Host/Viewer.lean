/-
# What a viewer draws

A viewer draws the slices of a thread by a stack: a beginning opens one and an
end closes the one opened last. In the host files all of that goes well: an end
finds an open slice, with its name, and if the boot time does not go back and
the guest time stays within 64 bits the slices nest (`files_nest`). It is shown
of the recorder, and the files show what the recorder has.

Key definitions: `HostEvent.bootTime`, `TimeGoesOn`, `stepClocked`, `threadMarks`, `Drawn`.
Key theorems: `drawn_step`, `files_nest`.
-/
import VPerfetto.Host.Recordings
import VPerfetto.Lib.Spans

namespace VPerfetto
namespace Host

open Wire Runs Spans

/-- The boot time that an entry point reads. -/
def HostEvent.bootTime : HostEvent → Option UInt64
  | .setGuestTime _ now | .call _ now _ => some now
  | _ => none

/-- The boot time is not before `last`, and a call's guest time is a 64-bit number. -/
def TimeGoesOn (last : UInt64) (diff : Int64) : HostEvent → Prop
  | .call _ now _ => last ≤ now ∧ 0 ≤ (now.toNat : ℤ) + diff.toInt ∧ (now.toNat : ℤ) + diff.toInt < 2 ^ 64
  | .setGuestTime _ now => last ≤ now
  | _ => True

instance (last : UInt64) (diff : Int64) : ∀ e : HostEvent, Decidable (TimeGoesOn last diff e)
  | .call _ _ _ => inferInstanceAs (Decidable (_ ∧ _ ∧ _))
  | .setGuestTime _ _ => inferInstanceAs (Decidable (_ ≤ _))
  | .enableTracing _ | .disableTracing _ | .exit _ => .isTrue trivial

/-- The program, the recorder, and the last boot time that was read. -/
def stepClocked (strings : Ptr → Bytes) (fuel : ℕ) (s : (HostState × Recorder) × UInt64) (e : HostEvent) :
    Option ((HostState × Recorder) × UInt64) := do
  let both ← stepBoth strings fuel s.1 e
  return (both, e.bootTime.getD s.2)

abbrev ClockedReach (strings : Ptr → Bytes) (fuel : ℕ) : (HostState × Recorder) × UInt64 → Prop :=
  Reach (fun s => BothInitial s.1) (fun s e s' => stepClocked strings fuel s e = some s') fun s e =>
    Unwrapped strings s.1.1 e ∧ TimeGoesOn s.2 s.1.1.config.guestTimeDiff e

/-! ### Marks -/

def TrackAction.mark (timestamp : ℕ) : TrackAction → Option (Mark ℕ Bytes)
  | .sliceBegin _ name => some (.opens timestamp name)
  | .sliceEnd _ name => some (.closes timestamp name)
  | .counter _ => none

/-- The marks on the track of the thread with this id. -/
def threadMarks (id : UInt32) (shown : List ShownEvent) : List (Mark ℕ Bytes) :=
  (shown.filter fun e => e.threadId == id).filterMap fun e => e.action.mark e.timestamp.toNat

def Happening.mark (e : Happening) : Option (Mark ℕ Bytes) :=
  match e.kind with
  | .sliceBegin => some (.opens e.timestamp.toNat e.name)
  | .sliceEnd => some (.closes e.timestamp.toNat e.name)
  | .counter _ => none

section

variable {strings : Ptr → Bytes} {fuel : ℕ} {happenings : List Happening} {r : Recorder} {last : UInt64}
  {d : Drawing ℕ Bytes} {t : Tid} {now : UInt64}

/-- Events that look the same give the same marks. -/
theorem marks_of_view {id : UInt32} {shown : List ShownEvent}
    (h : shown.map ShownEvent.view = happenings.map (Happening.view id)) :
    (shown.filterMap fun e => e.action.mark e.timestamp.toNat) = happenings.filterMap Happening.mark := by
  have hshown : (fun e : ShownEvent => e.action.mark e.timestamp.toNat) =
      (fun v => v.2.2.mark v.2.1.toNat) ∘ ShownEvent.view := rfl
  have hhappening : Happening.mark = (fun v => v.2.2.mark v.2.1.toNat) ∘ Happening.view id := by
    funext e
    obtain ⟨timestamp, kind, name⟩ := e
    cases kind <;> rfl
  rw [hshown, hhappening, ← List.filterMap_map, ← List.filterMap_map, h]

/-- What a thread recorded is a nested drawing. -/
def DrawsNested (happenings : List Happening) : Prop :=
  ∃ d, draw (happenings.filterMap Happening.mark) = some d ∧ Nested d

/-- The drawing of a thread in the session, with its open slices. The times of
the session are the boot times and the difference. -/
structure DrawnAs (d : Drawing ℕ Bytes) (happenings : List Happening) (names : List Bytes) (last : UInt64)
    (diff : Int64) : Prop where
  drawn : draw (happenings.filterMap Happening.mark) = some d
  opened : d.opened.map Prod.fst = names
  nested : Nested d
  upTo : ∀ time : ℕ, (last.toNat : ℤ) + diff.toInt ≤ time → Until time d

/-- Every thread's slices nest, in the session and in the recordings. -/
structure Drawn (r : Recorder) (last : UInt64) : Prop where
  idle : r.recording = false → ∀ t, r.happenings t = [] ∧ r.openSlices t = []
  session : ∀ t, ∃ d, DrawnAs d (r.happenings t) (r.openSlices t) last r.guestTimeDiff
  files : ∀ f happenings, r.files f = some happenings → ∀ t, DrawsNested (happenings t)

theorem drawnAs_nil {diff : Int64} : DrawnAs {} [] [] last diff :=
  ⟨rfl, rfl, nested_empty, fun _ _ => until_empty _⟩

theorem DrawnAs.later {diff : Int64} {names : List Bytes} {later : UInt64} (h : DrawnAs d happenings names last diff)
    (hle : last ≤ later) : DrawnAs d happenings names later diff := by
  refine ⟨h.drawn, h.opened, h.nested, fun time htime => h.upTo time ?_⟩
  have hnat : last.toNat ≤ later.toNat := UInt64.le_iff_toNat_le.mp hle
  omega

/-- The guest time of a call, as a number. -/
theorem toNat_timestamp {diff : Int64} (h0 : 0 ≤ (now.toNat : ℤ) + diff.toInt)
    (hlt : (now.toNat : ℤ) + diff.toInt < 2 ^ 64) :
    ((now + diff.toUInt64).toNat : ℤ) = now.toNat + diff.toInt := by
  have hdiff : diff.toInt = if 2 * diff.toUInt64.toNat < 2 ^ 64 then (diff.toUInt64.toNat : ℤ)
      else diff.toUInt64.toNat - 2 ^ 64 := BitVec.toInt_eq_toNat_cond _
  have hbound := diff.toUInt64.toNat_lt
  rw [UInt64.toNat_add]
  split at hdiff <;> omega

/-- A mark that a call adds to the drawing of its thread. -/
theorem DrawnAs.add {diff : Int64} {names names' : List Bytes} {e : Happening} {m : Mark ℕ Bytes}
    {d' : Drawing ℕ Bytes} (h : DrawnAs d happenings names last diff) (hle : last ≤ now)
    (htime : (e.timestamp.toNat : ℤ) = now.toNat + diff.toInt)
    (hm : e.mark = some m) (hmt : m.time = e.timestamp.toNat) (hd : d.add m = some d')
    (hnames : d'.opened.map Prod.fst = names') : DrawnAs d' (happenings ++ [e]) names' now diff := by
  have hnat : last.toNat ≤ now.toNat := UInt64.le_iff_toNat_le.mp hle
  have huntil : Until m.time d := h.upTo m.time (by rw [hmt, htime]; omega)
  obtain ⟨hnested, huntil'⟩ := h.nested.add huntil hd
  refine ⟨?_, hnames, hnested, fun time hle' => huntil'.mono ?_⟩
  · rw [List.filterMap_append, List.filterMap_cons_some hm]
    exact (draw_append h.drawn).trans hd
  · rw [hmt]
    omega

/-- Counters are on tracks of their own. -/
theorem DrawnAs.unmarked {diff : Int64} {names : List Bytes} {e : Happening} (h : DrawnAs d happenings names last diff)
    (hm : e.mark = none) : DrawnAs d (happenings ++ [e]) names last diff := by
  refine ⟨?_, h.opened, h.nested, h.upTo⟩
  rw [List.filterMap_append, List.filterMap_cons_none hm, List.filterMap_nil, List.append_nil]
  exact h.drawn

/-! ### The recorder's steps -/

theorem Drawn.later {later : UInt64} (h : Drawn r last) (hle : last ≤ later) : Drawn r later := by
  refine ⟨h.idle, fun t => ?_, h.files⟩
  obtain ⟨d, hd⟩ := h.session t
  exact ⟨d, hd.later hle⟩

/-- Outside a session the difference may change. -/
theorem Drawn.idle_session (h : Drawn r last) (hr : r.recording = false) (t : Tid) (time : UInt64) (diff : Int64) :
    ∃ d, DrawnAs d (r.happenings t) (r.openSlices t) time diff := by
  obtain ⟨hhappenings, hopen⟩ := h.idle hr t
  rw [hhappenings, hopen]
  exact ⟨{}, drawnAs_nil⟩

theorem Drawn.enableTracing (h : Drawn r last) (env : Env) : Drawn (r.enableTracing env) last := by
  unfold Recorder.enableTracing
  dsimp only
  split
  · exact ⟨nofun, fun _ => ⟨{}, drawnAs_nil⟩, h.files⟩
  · exact ⟨h.idle, h.session, h.files⟩

theorem Drawn.disableTracing (h : Drawn r last) : Drawn r.disableTracing last := by
  unfold Recorder.disableTracing
  split
  · exact h
  · rename_i f _
    split
    · refine ⟨fun _ _ => ⟨rfl, rfl⟩, fun _ => ⟨{}, drawnAs_nil⟩, fun g happenings hg t => ?_⟩
      replace hg : Function.update r.files f (some r.happenings) g = some happenings := hg
      by_cases hgf : g = f
      · rw [hgf, Function.update_self] at hg
        obtain rfl := Option.some.inj hg
        obtain ⟨d, hd⟩ := h.session t
        exact ⟨d, hd.drawn, hd.nested⟩
      · rw [Function.update_of_ne hgf] at hg
        exact h.files g happenings hg t
    · rename_i hr
      exact ⟨h.idle, fun t => h.idle_session (Bool.eq_false_of_not_eq_true hr) t last 0, h.files⟩

theorem Drawn.setGuestTime (h : Drawn r last) (t now : UInt64) : Drawn (r.setGuestTime t now) last := by
  unfold Recorder.setGuestTime
  split
  · exact h
  · rename_i hr
    exact ⟨h.idle, fun u => h.idle_session (Bool.eq_false_of_not_eq_true hr) u last _, h.files⟩

/-- A thread records something; the others are as they were. -/
theorem Drawn.record {kind : EventKind} {name : Bytes} {names : List Bytes} (h : Drawn r last) (hle : last ≤ now)
    (hrec : r.recording = true) (hd : ∃ d, DrawnAs d (r.happenings t ++ [⟨now + r.guestTimeDiff.toUInt64, kind, name⟩])
      names now r.guestTimeDiff) : Drawn ((r.record t now kind name).setOpen t names) now := by
  refine ⟨fun hr => absurd (hrec.symm.trans hr) Bool.noConfusion, fun u => ?_, h.files⟩
  show ∃ d, DrawnAs d (Function.update r.happenings t _ u) (Function.update r.openSlices t names u) now r.guestTimeDiff
  by_cases hut : u = t
  · subst hut
    rw [Function.update_self, Function.update_self]
    exact hd
  · rw [Function.update_of_ne hut, Function.update_of_ne hut]
    exact (h.later hle).session u

theorem Drawn.call (h : Drawn r last) (hle : last ≤ now) (h0 : 0 ≤ (now.toNat : ℤ) + r.guestTimeDiff.toInt)
    (hlt : (now.toNat : ℤ) + r.guestTimeDiff.toInt < 2 ^ 64) (c : Call) : Drawn (r.call strings t now c) now := by
  have htime := toNat_timestamp h0 hlt
  obtain ⟨d, hd⟩ := h.session t
  unfold Recorder.call
  split
  · exact h.later hle
  · rename_i hrec
    have hrec : r.recording = true := by simpa using hrec
    cases c with
    | beginTrace name => exact h.record hle hrec ⟨_, hd.add hle htime rfl rfl rfl (congrArg _ hd.opened)⟩
    | endTrace =>
      dsimp only
      split
      · exact h.later hle
      · rename_i name names hopen
        have hopened := hd.opened
        rw [hopen] at hopened
        obtain ⟨⟨name', start⟩, rest, hcons, rfl, hrest⟩ := List.map_eq_cons_iff.mp hopened
        have hadd : d.add (.closes (now + r.guestTimeDiff.toUInt64).toNat name') =
            some { spans := d.spans ++ [⟨name', start, (now + r.guestTimeDiff.toUInt64).toNat⟩], opened := rest } := by
          simp only [Drawing.add, hcons, if_true]
        exact h.record hle hrec ⟨_, hd.add hle htime rfl rfl hadd hrest⟩
    | traceCounter name value =>
      have hsame : r.record t now (.counter value) (strings name) =
          (r.record t now (.counter value) (strings name)).setOpen t (r.openSlices t) := by
        unfold Recorder.setOpen Recorder.record
        rw [Function.update_eq_self]
      dsimp only
      rw [hsame]
      exact h.record hle hrec ⟨d, (hd.later hle).unmarked rfl⟩

/-- **Slices stay nested.** -/
theorem drawn_step {e : HostEvent} (h : Drawn r last) (htime : TimeGoesOn last r.guestTimeDiff e) :
    Drawn (r.step strings e) (e.bootTime.getD last) := by
  cases e with
  | enableTracing env => exact h.enableTracing env
  | disableTracing order => exact h.disableTracing
  | setGuestTime t now => exact (h.setGuestTime t now).later htime
  | call t now c =>
    obtain ⟨hle, h0, hlt⟩ := htime
    exact h.call hle h0 hlt c
  | exit t => exact h

/-! ### What the files show -/

theorem Shows.draws {file : Bytes} {recorded : Tid → List Happening} (h : Shows file recorded)
    (hd : ∀ t, DrawsNested (recorded t)) :
    ∃ shown, readTrace file = some shown ∧ ∀ id, ∃ d, draw (threadMarks id shown) = some d ∧ Nested d := by
  obtain ⟨shown, ids, hread, -, hthreads, hevents⟩ := h
  refine ⟨shown, hread, fun id => ?_⟩
  by_cases hid : ∃ e ∈ shown, e.threadId = id
  · obtain ⟨e, he, rfl⟩ := hid
    obtain ⟨t, hne, het⟩ := hevents e he
    obtain ⟨d, hdraw, hnested⟩ := hd t
    refine ⟨d, ?_, hnested⟩
    rw [threadMarks, het, marks_of_view (hthreads t hne)]
    exact hdraw
  · have hnone : (shown.filter fun e => e.threadId == id) = [] :=
      List.filter_eq_nil_iff.mpr fun e he => by simpa using fun heq => hid ⟨e, he, heq⟩
    refine ⟨{}, ?_, nested_empty⟩
    rw [threadMarks, hnone]
    rfl

theorem clockedReach_both {s : (HostState × Recorder) × UInt64} (hr : ClockedReach strings fuel s) :
    BothReach strings fuel s.1 := by
  refine Reach.map Prod.fst id (fun _ h => h) (fun _ _ _ hok hs => ⟨hok.1, ?_⟩) hr
  obtain ⟨both, hboth, hs⟩ := Option.bind_eq_some_iff.mp hs
  obtain rfl := Option.some.inj hs
  exact hboth

/-- **Slices nest.** Whatever was called: in every host file of a run in which
time goes on, each thread's ends find their beginnings, with their names, and
two slices of a thread are one in the other or one after the other. -/
theorem files_nest (hfuel : 2 < fuel) {s : (HostState × Recorder) × UInt64} (hr : ClockedReach strings fuel s)
    {f : String} {file : Bytes} (hf : s.1.1.disk f = some file) :
    ∃ shown, readTrace file = some shown ∧ ∀ id, ∃ d, draw (threadMarks id shown) = some d ∧ Nested d := by
  have hdrawn : Drawn s.1.2 s.2 := by
    refine Reach.inv_of (P := fun s => Drawn s.1.2 s.2) ?_ ?_ hr
    · rintro ⟨⟨h, r⟩, last⟩ ⟨-, hstart⟩
      obtain rfl : r = Recorder.start h.config := hstart
      exact ⟨fun _ _ => ⟨rfl, rfl⟩, fun _ => ⟨{}, drawnAs_nil⟩, nofun⟩
    · rintro s e s' hreach hd ⟨-, htime⟩ hs
      obtain ⟨both, hboth, hs⟩ := Option.bind_eq_some_iff.mp hs
      obtain rfl := Option.some.inj hs
      have hrec := bothReach_records hfuel (clockedReach_both hreach)
      rw [← hrec.guestTimeDiff] at htime
      show Drawn both.2 _
      rw [(stepBoth_eq hboth).2]
      exact drawn_step hd htime
  obtain ⟨recorded, hrecorded, hshows⟩ := recording_of_disk hfuel (clockedReach_both hr) hf
  exact hshows.draws (hdrawn.files f recorded hrecorded)

/-- Thread 0 begins two slices, one in the other, and ends them. -/
def nestedSession : List HostEvent :=
  [.enableTracing {}, .call 0 5 (.beginTrace 7), .call 0 6 (.beginTrace 8), .call 0 8 .endTrace, .call 0 9 .endTrace,
    .disableTracing [0]]

theorem files_nest_two : ∃ (file : Bytes) (shown : List ShownEvent), readTrace file = some shown ∧
    threadMarks 2 shown = [.opens 5 [97], .opens 6 [97], .closes 8 [97], .closes 9 [97]] ∧
    ∀ id, ∃ d, draw (threadMarks id shown) = some d ∧ Nested d := by
  have h0 : ClockedReach (fun _ => [97]) 3 (({ config := { hostFilename := some "host" } },
      Recorder.start { hostFilename := some "host" }), 0) := .init ⟨⟨_, rfl, by decide, by decide, rfl⟩, rfl⟩
  have hrun : ((run (checked (stepClocked (fun _ => [97]) 3) fun s e =>
        Unwrapped (fun _ => [97]) s.1.1 e ∧ TimeGoesOn s.2 s.1.1.config.guestTimeDiff e)
      (({ config := { hostFilename := some "host" } }, Recorder.start { hostFilename := some "host" }), 0)
      nestedSession).bind fun s => s.1.1.disk "host").bind (fun file => (readTrace file).map (threadMarks 2)) =
      some [.opens 5 [97], .opens 6 [97], .closes 8 [97], .closes 9 [97]] := by
    decide +kernel
  obtain ⟨file, hfile, hread⟩ := Option.bind_eq_some_iff.mp hrun
  obtain ⟨s, hs, hdisk⟩ := Option.bind_eq_some_iff.mp hfile
  obtain ⟨shown, hshown, hmarks⟩ := Option.map_eq_some_iff.mp hread
  obtain ⟨shown', hshown', hdraws⟩ := files_nest (by decide) (h0.run_checked hs) hdisk
  obtain rfl := Option.some.inj (hshown.symm.trans hshown')
  exact ⟨file, shown, hshown, hmarks, hdraws⟩

end

end Host
end VPerfetto
