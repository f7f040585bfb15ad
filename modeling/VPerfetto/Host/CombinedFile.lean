/-
# The combined file

All of `vperfetto.cpp` together: the tracing program with its host files, the
file that the guest leaves, and the detached `asyncTraceSaveFunc` threads,
which wait until the size of that file settles and then copy it and the host
file into the combined file. What the threads find when they look is what is
there at that moment.

`recorder`, the recording and session of a thread, `sources`, `ended` and
`settled` are not in the program: they record what has been traced, what each
combined file was made of, and which sessions have been dealt with.

The maps `disk`, `guestFiles` and `combinedFiles` are one directory here: no
name is used both for a combined file and for a host or guest file. A host file
can be written and read, a combined file written; a guest file that is not
there has size -1.

Key definitions: `CombineThread`, `CombineState`, `CombineState.step`, `CombinedShows`.
Key theorems: `combined_files_show`, `saves_settle`.
-/
import VPerfetto.Host.Recordings
import VPerfetto.Host.Saving
import VPerfetto.Lib.Potential

namespace VPerfetto
namespace Host

open Wire Chunks Runs

/-- A thread in `asyncTraceSaveFunc`: the session it is for and what was
recorded in it, where it is, and the names it copied when it began. -/
structure CombineThread where
  session : ℕ
  recorded : Tid → List Happening
  phase : SaverPhase := .started
  hostFilename : String := ""
  guestFilename : String := ""
  combinedFilename : String := ""

structure CombineState where
  host : HostState
  recorder : Recorder
  threads : List CombineThread := []
  guestFiles : String → Option Bytes := fun _ => none
  combinedFiles : String → Option Bytes := fun _ => none
  sources : String → Option (Bytes × (Tid → List Happening)) := fun _ => none
  ended : ℕ := 0
  settled : List ℕ := []

/-- The events of the program, what the guest does to a file of its, and steps of a thread. -/
inductive CombineEvent where
  | host (e : HostEvent)
  | guestFile (f : String) (contents : Option Bytes)
  | saver (i : ℕ)

/-- What `tellg` returns at the end of a file: -1 if it cannot be opened. -/
def fileSize (contents : Option Bytes) : ℤ :=
  match contents with
  | none => -1
  | some bytes => bytes.length

/-- `combinedFile << guestFile.rdbuf() << hostFile.rdbuf()`: copying no
character sets the failbit, after which nothing is written. -/
def combinedContents (guest host : Bytes) : Bytes := if guest = [] then [] else guest ++ host

namespace CombineState

variable (strings : Ptr → Bytes) (fuel : ℕ)

def clearSaving (s : CombineState) : CombineState :=
  { s with host := { s.host with config := { s.host.config with saving := false } } }

/-- The end of `saveTracesToDisk`, for the session in which `recorded` was traced. -/
def afterHostFile (recorded : Tid → List Happening) (s : CombineState) : CombineState :=
  if s.host.config.guestFilename.isNone || s.host.config.combinedFilename.isNone then
    { s.clearSaving with settled := s.ended :: s.settled }
  else { s with threads := s.threads ++ [{ session := s.ended, recorded := recorded }] }

def hostStep (e : HostEvent) (s : CombineState) : Option CombineState := do
  let host ← s.host.step strings fuel e
  let s' := { s with host := host, recorder := s.recorder.step strings e }
  match e with
  | .disableTracing _ =>
    if s.host.config.endsSession then return { s' with ended := s.ended + 1 }.afterHostFile s.recorder.happenings
    else return s'
  | _ => return s'

def setThread (i : ℕ) (thread : CombineThread) (s : CombineState) : CombineState :=
  { s with threads := s.threads.set i thread }

/-- Both exits of a thread clear the flag. -/
def finish (i : ℕ) (thread : CombineThread) (s : CombineState) : CombineState :=
  { s.clearSaving with threads := s.threads.eraseIdx i, settled := thread.session :: s.settled }

/-- The copy, from the files as they are. -/
def combine (i : ℕ) (thread : CombineThread) (s : CombineState) : CombineState :=
  let guest := (s.guestFiles thread.guestFilename).getD []
  let host := (s.host.disk thread.hostFilename).getD []
  { s.setThread i { thread with phase := .written } with
    combinedFiles := Function.update s.combinedFiles thread.combinedFilename (some (combinedContents guest host))
    sources := Function.update s.sources thread.combinedFilename (some (guest, thread.recorded)) }

/-- The next step of thread `i`. A name that is null is not to be opened. -/
def saverStep (i : ℕ) (s : CombineState) : Option CombineState := do
  let thread ← s.threads[i]?
  match thread.phase with
  | .started => return s.setThread i { thread with
      phase := .polling {}
      hostFilename := ← s.host.config.hostFilename
      guestFilename := ← s.host.config.guestFilename
      combinedFilename := ← s.host.config.combinedFilename }
  | .polling poll =>
    if !poll.done then
      let size := fileSize (s.guestFiles thread.guestFilename)
      return s.setThread i { thread with phase := .polling (poll.next size) }
    else if poll.good then return s.setThread i { thread with phase := .stable }
    else return s.finish i thread
  | .stable => return s.combine i thread
  | .written => return s.finish i thread

def step (s : CombineState) : CombineEvent → Option CombineState
  | .host e => s.hostStep strings fuel e
  | .guestFile f contents => some { s with guestFiles := Function.update s.guestFiles f contents }
  | .saver i => s.saverStep i

end CombineState

/-! ### What a step can do -/

/-- The steps of thread `i`. -/
inductive ThreadMoves (s : CombineState) (i : ℕ) (thread : CombineThread) : CombineState → Prop
  | copyNames (hostFilename guestFilename combinedFilename : String) (h : thread.phase = .started)
      (hhost : s.host.config.hostFilename = some hostFilename) :
    ThreadMoves s i thread (s.setThread i { thread with
      phase := .polling {}
      hostFilename := hostFilename
      guestFilename := guestFilename
      combinedFilename := combinedFilename })
  | poll (poll : Poll) (h : thread.phase = .polling poll) (hd : poll.done = false) : ThreadMoves s i thread
    (s.setThread i { thread with phase := .polling (poll.next (fileSize (s.guestFiles thread.guestFilename))) })
  | settle (poll : Poll) (h : thread.phase = .polling poll) (hd : poll.done = true) :
    ThreadMoves s i thread (s.setThread i { thread with phase := .stable })
  | timeOut (poll : Poll) (h : thread.phase = .polling poll) (hd : poll.done = true) :
    ThreadMoves s i thread (s.finish i thread)
  | combine (h : thread.phase = .stable) : ThreadMoves s i thread (s.combine i thread)
  | finish (h : thread.phase = .written) : ThreadMoves s i thread (s.finish i thread)

section

variable {strings : Ptr → Bytes} {fuel : ℕ} {s s' : CombineState}

theorem CombineState.saverStep_moves {i : ℕ} (h : s.saverStep i = some s') :
    ∃ thread, s.threads[i]? = some thread ∧ ThreadMoves s i thread s' := by
  simp only [saverStep, Option.bind_eq_bind, Option.bind_eq_some_iff] at h
  obtain ⟨thread, hi, h⟩ := h
  refine ⟨thread, hi, ?_⟩
  split at h
  · rename_i hp
    simp only [Option.bind_eq_some_iff] at h
    obtain ⟨hostFilename, hhost, guestFilename, -, combinedFilename, -, h⟩ := h
    obtain rfl := Option.some.inj h
    exact .copyNames hostFilename guestFilename combinedFilename hp hhost
  · rename_i poll hp
    split at h
    · rename_i hd
      obtain rfl := Option.some.inj h
      exact .poll poll hp (by simpa using hd)
    · rename_i hd
      have hdone : poll.done = true := by simpa using hd
      split at h
      · obtain rfl := Option.some.inj h
        exact .settle poll hp hdone
      · obtain rfl := Option.some.inj h
        exact .timeOut poll hp hdone
  · rename_i hp
    obtain rfl := Option.some.inj h
    exact .combine hp
  · rename_i hp
    obtain rfl := Option.some.inj h
    exact .finish hp

/-- An event of the program: a session ends, or the threads stay as they are. -/
theorem CombineState.hostStep_cases {e : HostEvent} (h : s.hostStep strings fuel e = some s') :
    ∃ host, s.host.step strings fuel e = some host ∧
      ((s.host.config.endsSession = true ∧ (∃ order, e = .disableTracing order) ∧
        s' = { s with host := host, recorder := s.recorder.step strings e, ended := s.ended + 1 }.afterHostFile
          s.recorder.happenings) ∨
      ((∀ order, e = .disableTracing order → s.host.config.endsSession = false) ∧
        s' = { s with host := host, recorder := s.recorder.step strings e })) := by
  simp only [hostStep, Option.bind_eq_bind, Option.bind_eq_some_iff] at h
  obtain ⟨host, hhost, h⟩ := h
  refine ⟨host, hhost, ?_⟩
  split at h
  · rename_i order
    split at h
    · rename_i hends
      exact Or.inl ⟨hends, ⟨order, rfl⟩, (Option.some.inj h).symm⟩
    · rename_i hends
      exact Or.inr ⟨fun _ _ => by simpa using hends, (Option.some.inj h).symm⟩
  · rename_i hne
    exact Or.inr ⟨fun order he => absurd he (hne order), (Option.some.inj h).symm⟩

/-! ### What a combined file is made of -/

/-- The combined file has the guest's bytes and then bytes that show what was
recorded; its fields are the guest's, if these can be told, and then the host's. -/
def CombinedShows (file : Bytes) (source : Bytes × (Tid → List Happening)) : Prop :=
  ∃ host, Shows host source.2 ∧ file = combinedContents source.1 host ∧
    (source.1 ≠ [] → ∀ gs, decodeFields source.1 = some gs →
      ∃ hs, decodeFields host = some hs ∧ decodeFields file = some (gs ++ hs))

/-- Before the first session, with nothing being saved. -/
def CombineInitial (s : CombineState) : Prop :=
  ∃ host recorder guestFiles, BothInitial (host, recorder) ∧ host.config.saving = false ∧
    s = { host := host, recorder := recorder, guestFiles := guestFiles }

/-- The conditions on an event of the program, and that `enableTracing` is not
called while a thread is saving. -/
def SavesApart (strings : Ptr → Bytes) (s : CombineState) : CombineEvent → Prop
  | .host e => Unwrapped strings s.host e ∧ (s.threads ≠ [] → ∀ env, e ≠ .enableTracing env)
  | _ => True

instance (strings : Ptr → Bytes) (s : CombineState) : ∀ e, Decidable (SavesApart strings s e)
  | .host (.enableTracing env) =>
    decidable_of_iff (s.threads = [])
      ⟨fun h => ⟨trivial, fun hne => absurd h hne⟩, fun h => by_contra fun hne => h.2 hne env rfl⟩
  | .host (.disableTracing _) | .host (.setGuestTime _ _) | .host (.exit _) => .isTrue ⟨trivial, fun _ _ => nofun⟩
  | .host (.call t now c) =>
    decidable_of_iff (Unwrapped strings s.host (.call t now c)) ⟨fun h => ⟨h, fun _ _ => nofun⟩, fun h => h.1⟩
  | .guestFile _ _ | .saver _ => .isTrue trivial

/-- No flag is set, and while a thread saves there is a file that shows its
session, under the name that the thread has copied or will copy. -/
structure CombineInv (strings : Ptr → Bytes) (fuel : ℕ) (s : CombineState) : Prop where
  both : BothReach strings fuel (s.host, s.recorder)
  saving : s.host.config.saving = false
  waiting : s.threads ≠ [] → s.host.config.tracingDisabled = true ∧
    ∃ f file, s.host.config.hostFilename = some f ∧ s.host.disk f = some file ∧
      ∀ th ∈ s.threads, Shows file th.recorded ∧ (th.phase ≠ .started → th.hostFilename = f)
  combined : ∀ c, Option.Rel CombinedShows (s.combinedFiles c) (s.sources c)

theorem CombineState.clearSaving_eq (h : s.host.config.saving = false) : s.clearSaving = s := by
  have hconfig : { s.host.config with saving := false } = s.host.config := by
    rw [← h]
  unfold clearSaving
  rw [hconfig]

theorem Shows.decodes {file : Bytes} {recorded : Tid → List Happening} (h : Shows file recorded) :
    ∃ fs, decodeFields file = some fs := by
  obtain ⟨shown, ids, hread, -⟩ := h
  obtain ⟨ps, hps, -⟩ := Option.bind_eq_some_iff.mp hread
  obtain ⟨fs, hfs, -⟩ := Option.bind_eq_some_iff.mp hps
  exact ⟨fs, hfs⟩

theorem combinedShows_of_shows (guest : Bytes) {host : Bytes} {recorded : Tid → List Happening}
    (h : Shows host recorded) : CombinedShows (combinedContents guest host) (guest, recorded) := by
  refine ⟨host, h, rfl, fun hne gs hgs => ?_⟩
  obtain ⟨hs, hhs⟩ := h.decodes
  refine ⟨hs, hhs, ?_⟩
  rw [combinedContents, if_neg hne]
  exact decodeFields_append hgs hhs

/-- No event of the program sets the flag. -/
theorem step_saving {h h' : HostState} {e : HostEvent} (hf : h.config.saving = false)
    (hs : h.step strings fuel e = some h') : h'.config.saving = false := by
  rcases step_config hs with ⟨env, hc, -⟩ | ⟨hc, -⟩ | ⟨t, now, hc, -⟩ | ⟨hc, -⟩ | ⟨c, now, info, b, hb, hc, -⟩
  · rw [hc, enableTracing_saving, hf]
  · rw [hc]
    exact disableTracing_saving hf
  · rw [hc]
    unfold VirtualDeviceTraceConfig.setGuestTime
    split <;> exact hf
  · rw [hc, hf]
  · obtain ⟨_, _, _, _, he⟩ := Call.body_config hb
    rw [hc, he]
    exact hf

/-- While tracing is disabled only `enableTracing` changes files, names or that. -/
theorem step_idle {h h' : HostState} {e : HostEvent} (hd : h.config.tracingDisabled = true)
    (he : ∀ env, e ≠ .enableTracing env) (hs : h.step strings fuel e = some h') :
    h'.disk = h.disk ∧ h'.config.hostFilename = h.config.hostFilename ∧ h'.config.tracingDisabled = true := by
  cases e with
  | enableTracing env => exact absurd rfl (he env)
  | disableTracing order =>
    have hends : h.config.endsSession = false := by simp [VirtualDeviceTraceConfig.endsSession, hd]
    simp only [HostState.step, HostState.disableTracing, hends, Bool.false_eq_true, if_false] at hs
    obtain rfl := Option.some.inj hs
    unfold VirtualDeviceTraceConfig.disableTracing
    split
    · exact ⟨rfl, rfl, hd⟩
    · exact ⟨rfl, rfl, rfl⟩
  | setGuestTime t now =>
    obtain rfl := Option.some.inj hs
    unfold VirtualDeviceTraceConfig.setGuestTime
    split <;> exact ⟨rfl, rfl, hd⟩
  | call t now c =>
    obtain ⟨-, ⟨-, rfl⟩ | ⟨info, b, w, hent, -⟩⟩ := HostState.call_cases hs
    · rw [HostState.beforeCall_eq]
      exact ⟨rfl, rfl, hd⟩
    · have hen := Call.enter_disabled hent
      rw [hd] at hen
      exact absurd hen.symm Bool.false_ne_true
  | exit t =>
    simp only [HostState.step, HostState.exit, Option.ite_none_left_eq_some] at hs
    obtain rfl := Option.some.inj hs.2
    exact ⟨rfl, rfl, hd⟩

theorem disableTracing_config {h h' : HostState} {order : List Tid}
    (hs : h.step strings fuel (.disableTracing order) = some h') : h'.config = h.config.disableTracing := by
  simp only [HostState.step, HostState.disableTracing] at hs
  split at hs
  · obtain ⟨-, hs⟩ := Option.ite_none_right_eq_some.mp hs
    rw [← Option.some.inj hs]
  · rw [← Option.some.inj hs]

/-- The recorder's file at the end of a session. -/
theorem Records.ended {h h' : HostState} {r : Recorder} (hr : Records strings h r)
    (hends : h.config.endsSession = true) {f : String} (hf : h.config.hostFilename = some f)
    (hr' : Records strings h' r.disableTracing) : ∃ file, h'.disk f = some file ∧ Shows file r.happenings := by
  have hd : h.config.tracingDisabled = false := by simpa [VirtualDeviceTraceConfig.endsSession, hf] using hends
  have hfile : r.disableTracing.files f = some r.happenings := by
    unfold Recorder.disableTracing
    rw [hr.hostFilename, hf, hr.recording, hd]
    exact Function.update_self _ _ _
  have hrel := hr'.files f
  rw [hfile] at hrel
  cases hdisk : h'.disk f with
  | none => rw [hdisk] at hrel; cases hrel
  | some file =>
    rw [hdisk] at hrel
    cases hrel with
    | some hshows => exact ⟨file, rfl, hshows⟩

/-- An event of the program. -/
theorem CombineInv.hostStep (hfuel : 2 < fuel) (hi : CombineInv strings fuel s) {e : HostEvent}
    (hok : SavesApart strings s (.host e)) (hs : s.hostStep strings fuel e = some s') : CombineInv strings fuel s' := by
  obtain ⟨host, hhost, hcase⟩ := CombineState.hostStep_cases hs
  have hboth : BothReach strings fuel (host, s.recorder.step strings e) := by
    refine hi.both.step (a := e) hok.1 ?_
    unfold stepBoth
    rw [hhost]
    rfl
  have hsaving := step_saving hi.saving hhost
  rcases hcase with ⟨hends, ⟨order, rfl⟩, rfl⟩ | ⟨hnone, rfl⟩
  · -- a session ends, so no thread was saving
    have hnil : s.threads = [] := by
      by_contra hne
      have hd := (hi.waiting hne).1
      simp [VirtualDeviceTraceConfig.endsSession, hd] at hends
    unfold CombineState.afterHostFile
    split
    · rw [CombineState.clearSaving_eq hsaving]
      exact ⟨hboth, hsaving, fun hne => absurd hnil hne, hi.combined⟩
    · obtain ⟨f, hf⟩ : ∃ f, s.host.config.hostFilename = some f := by
        simp only [VirtualDeviceTraceConfig.endsSession, Bool.and_eq_true, Option.isSome_iff_exists] at hends
        exact hends.1
      obtain ⟨file, hdisk, hshows⟩ :=
        (bothReach_records hfuel hi.both).ended hends hf (bothReach_records hfuel hboth)
      have hconfig := disableTracing_config hhost
      refine ⟨hboth, hsaving, fun _ => ⟨?_, f, file, ?_, hdisk, fun th hth => ?_⟩, hi.combined⟩
      · show host.config.tracingDisabled = true
        rw [hconfig, VirtualDeviceTraceConfig.disableTracing, hf]
        rfl
      · show host.config.hostFilename = some f
        rw [hconfig, VirtualDeviceTraceConfig.disableTracing, hf]
        exact hf
      · rw [hnil] at hth
        obtain rfl := List.mem_singleton.mp hth
        exact ⟨hshows, fun hne => absurd rfl hne⟩
  · refine ⟨hboth, hsaving, fun hne => ?_, hi.combined⟩
    obtain ⟨hd, f, file, hf, hdisk, hthreads⟩ := hi.waiting hne
    obtain ⟨hdisk', hf', hd'⟩ := step_idle hd (hok.2 hne) hhost
    exact ⟨hd', f, file, hf'.trans hf, (congrFun hdisk' f).trans hdisk, hthreads⟩

/-- A step of a thread. -/
theorem CombineInv.saverStep (hi : CombineInv strings fuel s) {i : ℕ} (hs : s.saverStep i = some s') :
    CombineInv strings fuel s' := by
  obtain ⟨thread, hthread, hmove⟩ := CombineState.saverStep_moves hs
  have hmem : thread ∈ s.threads := List.mem_of_getElem? hthread
  obtain ⟨hd, f, file, hf, hdisk, hthreads⟩ := hi.waiting (List.ne_nil_of_mem hmem)
  obtain ⟨hshows, hname⟩ := hthreads thread hmem
  -- a thread that goes on is for the same session and has the same name
  have hset : ∀ th : CombineThread, th.recorded = thread.recorded → th.hostFilename = f →
      ∀ x ∈ s.threads.set i th, Shows file x.recorded ∧ (x.phase ≠ .started → x.hostFilename = f) := by
    intro th hrec hfile x hx
    rcases List.mem_or_eq_of_mem_set hx with hx | rfl
    · exact hthreads x hx
    · exact ⟨hrec ▸ hshows, fun _ => hfile⟩
  have hfinish : CombineInv strings fuel (s.finish i thread) := by
    unfold CombineState.finish
    rw [CombineState.clearSaving_eq hi.saving]
    exact ⟨hi.both, hi.saving, fun _ => ⟨hd, f, file, hf, hdisk, fun x hx => hthreads x (List.mem_of_mem_eraseIdx hx)⟩,
      hi.combined⟩
  cases hmove with
  | copyNames hostFilename guestFilename combinedFilename hp hhost =>
    have hfile : hostFilename = f := Option.some.inj (hhost.symm.trans hf)
    exact ⟨hi.both, hi.saving, fun _ => ⟨hd, f, file, hf, hdisk, hset _ rfl hfile⟩, hi.combined⟩
  | poll poll hp =>
    have hfile := hname (by rw [hp]; exact SaverPhase.noConfusion)
    exact ⟨hi.both, hi.saving, fun _ => ⟨hd, f, file, hf, hdisk, hset _ rfl hfile⟩, hi.combined⟩
  | settle poll hp =>
    have hfile := hname (by rw [hp]; exact SaverPhase.noConfusion)
    exact ⟨hi.both, hi.saving, fun _ => ⟨hd, f, file, hf, hdisk, hset _ rfl hfile⟩, hi.combined⟩
  | timeOut | finish => exact hfinish
  | combine hp =>
    have hfile := hname (by rw [hp]; exact SaverPhase.noConfusion)
    refine ⟨hi.both, hi.saving, fun _ => ⟨hd, f, file, hf, hdisk, hset _ rfl hfile⟩, fun c => ?_⟩
    unfold CombineState.combine
    dsimp only
    rw [hfile, hdisk, Option.getD_some]
    by_cases hc : c = thread.combinedFilename
    · subst hc
      simp only [Function.update_self]
      exact .some (combinedShows_of_shows _ hshows)
    · simp only [Function.update_of_ne hc]
      exact hi.combined c

abbrev CombineReach (strings : Ptr → Bytes) (fuel : ℕ) (ok : CombineState → CombineEvent → Prop) :
    CombineState → Prop :=
  Reach CombineInitial (fun s e s' => s.step strings fuel e = some s') ok

/-- The names are set, and the guest has left a file with one packet. -/
def combineStart : CombineState :=
  let config : VirtualDeviceTraceConfig :=
    { hostFilename := some "host", guestFilename := some "guest", combinedFilename := some "combined" }
  { host := { config := config }, recorder := Recorder.start config
    guestFiles := fun f => if f = "guest" then some [10, 2, 80, 1] else none }

/-- The steps that a thread can still make. -/
def SaverPhase.work : SaverPhase → ℕ
  | .started => kMaxIters + 4
  | .polling poll => kMaxIters - poll.iter + 3
  | .stable => 2
  | .written => 1

def CombineState.work (s : CombineState) : ℕ := (s.threads.map fun th => th.phase.work).sum

/-- How many steps of threads an event is. -/
def CombineEvent.saverSteps : CombineEvent → ℕ
  | .saver _ => 1
  | _ => 0

/-- Every session that has ended has been dealt with or has its thread, and not
both; loops are within their bound, and no name that a thread will use is null. -/
structure CountInv (s : CombineState) : Prop where
  iters : ∀ th ∈ s.threads, ∀ poll, th.phase = .polling poll → poll.iter ≤ kMaxIters
  once : (s.settled ++ s.threads.map (·.session)).Perm (List.range' 1 s.ended)
  named : s.threads ≠ [] → s.host.config.hostFilename.isSome = true ∧
    s.host.config.guestFilename.isSome = true ∧ s.host.config.combinedFilename.isSome = true

theorem useFilenameByEnv_isSome (byEnv : Option String) {configured : Option String} (h : configured.isSome = true) :
    (useFilenameByEnv byEnv configured).isSome = true := by
  unfold useFilenameByEnv
  split
  · split
    · exact h
    · rfl
  · exact h

/-- A name that is set stays set. -/
theorem step_named {h h' : HostState} {e : HostEvent} (hs : h.step strings fuel e = some h') :
    (h.config.hostFilename.isSome = true → h'.config.hostFilename.isSome = true) ∧
      (h.config.guestFilename.isSome = true → h'.config.guestFilename.isSome = true) ∧
      (h.config.combinedFilename.isSome = true → h'.config.combinedFilename.isSome = true) := by
  rcases step_config hs with ⟨env, hc, -⟩ | ⟨hc, -⟩ | ⟨t, now, hc, -⟩ | ⟨hc, -⟩ | ⟨c, now, info, b, hb, hc, -⟩
  · rcases h.config.enableTracing_cases env with ⟨-, -, -, he⟩ | he
    all_goals
      rw [hc, he]
      exact ⟨useFilenameByEnv_isSome _, useFilenameByEnv_isSome _, useFilenameByEnv_isSome _⟩
  · rw [hc]
    unfold VirtualDeviceTraceConfig.disableTracing
    split <;> exact ⟨id, id, id⟩
  · rw [hc]
    unfold VirtualDeviceTraceConfig.setGuestTime
    split <;> exact ⟨id, id, id⟩
  · rw [hc]
    exact ⟨id, id, id⟩
  · obtain ⟨_, _, _, _, he⟩ := Call.body_config hb
    rw [hc, he]
    exact ⟨id, id, id⟩

theorem CountInv.hostStep (hi : CountInv s) {e : HostEvent} (hs : s.hostStep strings fuel e = some s') :
    CountInv s' := by
  obtain ⟨host, hhost, ⟨hends, ⟨order, rfl⟩, rfl⟩ | ⟨-, rfl⟩⟩ := CombineState.hostStep_cases hs
  · have hone : (List.range' 1 (s.ended + 1)).Perm ((s.ended + 1) :: List.range' 1 s.ended) := by
      rw [List.range'_1_concat, Nat.add_comm 1]
      exact List.perm_append_singleton _ _
    obtain ⟨hhostname, hguestname, hcombinedname⟩ := step_named hhost
    unfold CombineState.afterHostFile
    split
    · refine ⟨hi.iters, (hi.once.cons _).trans hone.symm, fun hne => ?_⟩
      obtain ⟨h1, h2, h3⟩ := hi.named hne
      exact ⟨hhostname h1, hguestname h2, hcombinedname h3⟩
    · rename_i hstart
      simp only [Bool.or_eq_true, Option.isNone_iff_eq_none, not_or, ← ne_eq, Option.ne_none_iff_isSome] at hstart
      refine ⟨fun th hth poll hp => ?_, ?_, fun _ => ⟨hhostname ?_, hstart.1, hstart.2⟩⟩
      · rcases List.mem_append.mp hth with hth | hth
        · exact hi.iters th hth poll hp
        · obtain rfl := List.mem_singleton.mp hth
          exact SaverPhase.noConfusion hp
      · rw [List.map_append, ← List.append_assoc]
        exact (List.perm_append_singleton _ _).trans ((hi.once.cons _).trans hone.symm)
      · simp only [VirtualDeviceTraceConfig.endsSession, Bool.and_eq_true] at hends
        exact hends.1
  · refine ⟨hi.iters, hi.once, fun hne => ?_⟩
    obtain ⟨h1, h2, h3⟩ := hi.named hne
    obtain ⟨hhostname, hguestname, hcombinedname⟩ := step_named hhost
    exact ⟨hhostname h1, hguestname h2, hcombinedname h3⟩

section

variable {i : ℕ} {thread : CombineThread} {t : CombineState}

/-- A thread that goes on, for the same session and with less to do. -/
theorem CountInv.set (hi : CountInv s) (hthread : s.threads[i]? = some thread) {th : CombineThread}
    (hthreads : t.threads = s.threads.set i th)
    (hkeep : t.settled = s.settled ∧ t.ended = s.ended ∧ t.host = s.host) (hsession : th.session = thread.session)
    (hiter : ∀ poll, th.phase = .polling poll → poll.iter ≤ kMaxIters) (hwork : th.phase.work < thread.phase.work) :
    CountInv t ∧ 1 + t.work ≤ s.work ∧ t.ended = s.ended := by
  obtain ⟨hsettled, hended, hhost⟩ := hkeep
  refine ⟨⟨fun x hx poll hp => ?_, ?_, fun _ => ?_⟩, ?_, hended⟩
  · rw [hthreads] at hx
    rcases List.mem_or_eq_of_mem_set hx with hx | rfl
    · exact hi.iters x hx poll hp
    · exact hiter poll hp
  · rw [hthreads, hsettled, hended, map_set_of_eq (fun x : CombineThread => x.session) hsession hthread]
    exact hi.once
  · rw [hhost]
    exact hi.named (List.ne_nil_of_mem (List.mem_of_getElem? hthread))
  · have hsum := sum_map_set (fun x : CombineThread => x.phase.work) (b := th) hthread
    unfold CombineState.work
    rw [hthreads]
    omega

/-- A thread that is done. -/
theorem CountInv.finish (hi : CountInv s) (hthread : s.threads[i]? = some thread) (hwork : 0 < thread.phase.work) :
    CountInv (s.finish i thread) ∧ 1 + (s.finish i thread).work ≤ s.work ∧ (s.finish i thread).ended = s.ended := by
  refine ⟨⟨fun x hx => hi.iters x (List.mem_of_mem_eraseIdx hx), ?_, fun _ => ?_⟩, ?_, rfl⟩
  · obtain ⟨hlt, hget⟩ := List.getElem?_eq_some_iff.mp hthread
    have hperm : (thread.session :: (s.threads.eraseIdx i).map (·.session)).Perm (s.threads.map (·.session)) := by
      have hsplit := (List.getElem_cons_eraseIdx_perm hlt).map (·.session)
      rwa [List.map_cons, hget] at hsplit
    exact List.perm_middle.symm.trans ((hperm.append_left s.settled).trans hi.once)
  · exact hi.named (List.ne_nil_of_mem (List.mem_of_getElem? hthread))
  · have hsum := sum_map_eraseIdx (fun x : CombineThread => x.phase.work) hthread
    show 1 + ((s.threads.eraseIdx i).map fun x => x.phase.work).sum ≤ (s.threads.map fun x => x.phase.work).sum
    omega

/-- A step of a thread does some of its work. -/
theorem CountInv.saverStep (hi : CountInv s) (hs : s.saverStep i = some s') :
    CountInv s' ∧ 1 + s'.work ≤ s.work ∧ s'.ended = s.ended := by
  obtain ⟨thread, hthread, hmove⟩ := CombineState.saverStep_moves hs
  cases hmove with
  | copyNames hostFilename guestFilename combinedFilename hp =>
    refine hi.set hthread rfl ⟨rfl, rfl, rfl⟩ rfl (fun poll hpoll => ?_) ?_
    · obtain rfl := SaverPhase.polling.inj hpoll
      exact Nat.zero_le _
    · rw [hp]
      exact (by decide : kMaxIters - 0 + 3 < kMaxIters + 4)
  | poll poll hp hd =>
    have hlt := Poll.iter_lt hd (hi.iters thread (List.mem_of_getElem? hthread) poll hp)
    refine hi.set hthread rfl ⟨rfl, rfl, rfl⟩ rfl (fun poll' hpoll => ?_) ?_
    · obtain rfl := SaverPhase.polling.inj hpoll
      rw [Poll.next_iter]
      exact hlt
    · rw [hp]
      simp only [SaverPhase.work, Poll.next_iter]
      omega
  | settle poll hp =>
    refine hi.set hthread rfl ⟨rfl, rfl, rfl⟩ rfl (fun _ hpoll => SaverPhase.noConfusion hpoll) ?_
    rw [hp]
    simp only [SaverPhase.work]
    omega
  | timeOut poll hp =>
    apply hi.finish hthread
    rw [hp]
    exact Nat.succ_pos _
  | combine hp =>
    refine hi.set hthread (t := s.combine i thread) rfl ⟨rfl, rfl, rfl⟩ rfl
      (fun _ hpoll => SaverPhase.noConfusion hpoll) ?_
    rw [hp]
    exact Nat.lt_succ_self 1
  | finish hp =>
    apply hi.finish hthread
    rw [hp]
    exact Nat.one_pos

/-- A thread that is there can make its next step. -/
theorem CountInv.enabled (hi : CountInv s) (hlt : i < s.threads.length) : ∃ s', s.saverStep i = some s' := by
  have hthread : s.threads[i]? = some s.threads[i] := List.getElem?_eq_getElem hlt
  obtain ⟨h1, h2, h3⟩ := hi.named (List.ne_nil_of_length_pos (Nat.zero_lt_of_lt hlt))
  obtain ⟨hostFilename, hhost⟩ := Option.isSome_iff_exists.mp h1
  obtain ⟨guestFilename, hguest⟩ := Option.isSome_iff_exists.mp h2
  obtain ⟨combinedFilename, hcombined⟩ := Option.isSome_iff_exists.mp h3
  unfold CombineState.saverStep
  rw [hthread, Option.bind_eq_bind, Option.bind_some, hhost, hguest, hcombined]
  split
  · exact ⟨_, rfl⟩
  · split
    · exact ⟨_, rfl⟩
    · split <;> exact ⟨_, rfl⟩
  · exact ⟨_, rfl⟩
  · exact ⟨_, rfl⟩

end

theorem SaverPhase.work_le (p : SaverPhase) : p.work ≤ kMaxIters + 4 := by
  cases p with
  | polling poll =>
    simp only [SaverPhase.work]
    omega
  | started | stable | written => decide

theorem CombineState.work_le (s : CombineState) : s.work ≤ (kMaxIters + 4) * s.threads.length :=
  sum_map_le _ fun th _ => th.phase.work_le

theorem CombineState.work_hostStep {e : HostEvent} (hs : s.hostStep strings fuel e = some s') :
    s'.work + (kMaxIters + 4) * s.ended ≤ s.work + (kMaxIters + 4) * s'.ended := by
  obtain ⟨host, -, ⟨-, -, rfl⟩ | ⟨-, rfl⟩⟩ := hostStep_cases hs
  · unfold afterHostFile
    split
    · exact Nat.add_le_add_left (Nat.mul_le_mul_left _ (Nat.le_succ _)) _
    · unfold work
      rw [List.map_append, List.sum_append, Nat.mul_succ]
      simp only [List.map_cons, List.map_nil, List.sum_cons, List.sum_nil, SaverPhase.work]
      omega
  · exact Nat.le_refl _

theorem countInv_step {e : CombineEvent} (hi : CountInv s) (hs : s.step strings fuel e = some s') : CountInv s' := by
  cases e with
  | host e => exact hi.hostStep hs
  | guestFile f contents =>
    obtain rfl := Option.some.inj hs
    exact ⟨hi.iters, hi.once, hi.named⟩
  | saver i => exact (hi.saverStep hs).1

theorem work_step {e : CombineEvent} (hi : CountInv s) (hs : s.step strings fuel e = some s') :
    e.saverSteps + s'.work + (kMaxIters + 4) * s.ended ≤ s.work + (kMaxIters + 4) * s'.ended := by
  cases e with
  | host e =>
    have hwork := CombineState.work_hostStep hs
    simp only [CombineEvent.saverSteps]
    omega
  | guestFile f contents =>
    obtain rfl := Option.some.inj hs
    exact Nat.le_of_eq (congrArg (· + _) (Nat.zero_add _))
  | saver i =>
    obtain ⟨-, hwork, hended⟩ := hi.saverStep hs
    rw [hended]
    simp only [CombineEvent.saverSteps]
    omega

theorem combineReach_countInv (hr : CombineReach strings fuel (fun _ _ => True) s) : CountInv s := by
  refine Reach.inv (P := CountInv) ?_ ?_ hr
  · rintro _ ⟨host, recorder, guestFiles, -, -, rfl⟩
    exact ⟨fun _ hx => absurd hx List.not_mem_nil, .refl _, fun hne => absurd rfl hne⟩
  · exact fun _ _ _ hi _ hs => countInv_step hi hs

/-- **Every save comes to an end, once.** However the run goes on, the threads
make at most 24 steps for each that is there and for each session still to
end; each of them can always go on; and when they all have, every session has
been dealt with exactly once. -/
theorem saves_settle (hr : CombineReach strings fuel (fun _ _ => True) s) :
    (∀ es s', run (CombineState.step strings fuel) s es = some s' →
      (es.map CombineEvent.saverSteps).sum ≤ 24 * s.threads.length + 24 * (s'.ended - s.ended)) ∧
    (∀ i < s.threads.length, (s.step strings fuel (.saver i)).isSome = true) ∧
    (s.settled ++ s.threads.map (·.session)).Perm (List.range' 1 s.ended) ∧
    ∃ es s', (∀ e ∈ es, ∃ i, e = .saver i) ∧ run (CombineState.step strings fuel) s es = some s' ∧
      s'.threads = [] ∧ s'.settled.Perm (List.range' 1 s.ended) := by
  have hinv : CountInv s := combineReach_countInv hr
  refine ⟨fun es s' hrun => ?_, fun i hlt => ?_, hinv.once, ?_⟩
  · have hcost := run_cost CombineState.work (fun s => (kMaxIters + 4) * s.ended) CombineEvent.saverSteps
      (fun _ _ _ hi hs => countInv_step hi hs) (fun _ _ _ hi hs => work_step hi hs) hinv hrun
    have hle := s.work_le
    simp only [kMaxIters] at hcost hle
    omega
  · obtain ⟨s', hs'⟩ := hinv.enabled hlt
    exact Option.isSome_iff_exists.mpr ⟨s', hs'⟩
  · have hprogress : ∀ t : CombineState, (CountInv t ∧ t.ended = s.ended) → ¬ t.threads = [] →
        ∃ (e : CombineEvent) (t' : CombineState), (∃ i, e = .saver i) ∧ t.step strings fuel e = some t' ∧
          (CountInv t' ∧ t'.ended = s.ended) ∧ t'.work < t.work := by
      rintro t ⟨ht, hended⟩ hne
      obtain ⟨t', ht'⟩ := ht.enabled (List.length_pos_iff.mpr hne)
      obtain ⟨hi', hwork, hended'⟩ := ht.saverStep ht'
      exact ⟨.saver 0, t', ⟨0, rfl⟩, ht', ⟨hi', hended'.trans hended⟩, by omega⟩
    obtain ⟨es, s', hes, -, hrun, ⟨hi', hended⟩, hnil⟩ := exists_run_to_done CombineState.work hprogress s ⟨hinv, rfl⟩
    refine ⟨es, s', hes, hrun, hnil, ?_⟩
    have honce := hi'.once
    rw [hnil, List.map_nil, List.append_nil, hended] at honce
    exact honce

end

/-- One session, and the thread that saves it. -/
theorem saves_settle_session : ∃ s : CombineState, s.threads.length = 1 ∧ ∃ es s',
    (∀ e ∈ es, ∃ i, e = .saver i) ∧ run (CombineState.step (fun _ => [97]) 3) s es = some s' ∧
      s'.threads = [] ∧ s'.settled.Perm [1] := by
  have h0 : CombineReach (fun _ => [97]) 3 (fun _ _ => True) combineStart :=
    .init ⟨_, _, _, ⟨⟨_, rfl, by decide, by decide, rfl⟩, rfl⟩, rfl, rfl⟩
  have hrun : (run (CombineState.step (fun _ => [97]) 3) combineStart
      [.host (.enableTracing {}), .host (.disableTracing [])]).map (fun s => (s.threads.length, s.ended)) =
      some (1, 1) := by
    decide +kernel
  obtain ⟨s, hs, hcounts⟩ := Option.map_eq_some_iff.mp hrun
  obtain ⟨hlength, hended⟩ := Prod.mk.inj hcounts
  have hr := Reach.run_of _ (fun _ _ _ => trivial) h0 hs
  obtain ⟨-, -, -, es, s', hes, hrun', hnil, honce⟩ := saves_settle hr
  rw [hended] at honce
  exact ⟨s, hlength, es, s', hes, hrun', hnil, honce⟩

end Host
end VPerfetto
