/-
# The end of a session, piece by piece

`disableTracing` is no single step: it sets the flag, takes the contexts lock,
saves one context after another, each under its own lock, writes the file, and
resets the counters. Meanwhile other threads run the bodies of calls that
passed their test before the flag was set, and threads exit.

In `Machine` it is one step, and nothing is lost by that: as long as no thread
runs a body between the save of its own context and the return of
`disableTracing`, the pieces leave the states and the files of whole steps, and
no others (`disableTracing_pieces`). A body before the save of its context
might as well have run before `disableTracing`, since the saves of other
contexts do not touch what it reads and writes.

While the contexts lock is held, a body that needs another buffer and an exit
wait for it. A thread without a context finds the flag set and makes none.
`enableTracing`, `disableTracing` and `setGuestTime` are called by one thread.

Key definitions: `DisableStage`, `PieceMachine`, `PieceMachine.step`, `InTime`, `PieceMachine.Of`.
Key theorems: `Machine.body_setFlag`, `Machine.body_saveContexts`, `PieceMachine.Of.step`,
`disableTracing_pieces`.
-/
import VPerfetto.Host.HostFile
import VPerfetto.Host.Sessions

namespace VPerfetto
namespace Host

open Wire Chunks Runs

/-- How far `disableTracing` is. -/
inductive DisableStage where
  | idle
  | flagSet
  /-- under the contexts lock: the contexts that have been saved, and the rest -/
  | saving (saved rest : List Tid)
  | fileWritten
deriving DecidableEq, Repr

structure PieceMachine where
  machine : Machine
  stage : DisableStage := .idle

inductive PieceEvent where
  | whole (e : Event)
  /-- a body that finds room in its buffer for all its packets -/
  | bodyInPlace (t : Tid) (now : UInt64)
  | setFlag
  | lockContexts (order : List Tid)
  | saveContext
  | writeFile
  | resetCounters

namespace Machine

/-- The flag, and the assignment to `saving` behind it. -/
def setFlag (m : Machine) : Machine :=
  { m with config := { m.config with tracingDisabled := true, saving := false } }

/-- `saveTraceLocked(context->save())`. -/
def saveContext (t : Tid) (m : Machine) : Machine :=
  { m with infos := Function.update m.infos t (m.infos t).reset, store := save t m.store }

/-- The file has been written from the shared list. -/
def clearSaved (m : Machine) : Machine :=
  { m with store := { m.store with saved := [] }, ended := m.ended + 1, log := [], openNames := fun _ => [] }

def resetCounters (m : Machine) : Machine :=
  { m with config := { m.config.resetCounters with guestTimeDiff := 0 } }

end Machine

/-- The contexts lock is free. -/
def DisableStage.lockFree : DisableStage → Bool
  | .saving _ _ => false
  | _ => true

/-- What can be one step at this stage. -/
def DisableStage.allows (s : DisableStage) (c : VirtualDeviceTraceConfig) : Event → Bool
  | .enableTracing _ | .setGuestTime _ _ => s = .idle
  | .disableTracing _ => s = .idle && !c.endsSession
  | .enter _ _ => true
  | .body _ _ _ | .exit _ => s.lockFree

def PieceMachine.step (strings : Ptr → Bytes) (f : PieceMachine) : PieceEvent → Option PieceMachine
  | .whole e =>
    if f.stage.allows f.machine.config e then (f.machine.step strings e).map fun m => { f with machine := m } else none
  | .bodyInPlace t now => (f.machine.body strings t now fun _ => false).map fun m => { f with machine := m }
  | .setFlag =>
    if f.stage = .idle ∧ f.machine.config.endsSession then some ⟨f.machine.setFlag, .flagSet⟩ else none
  | .lockContexts order =>
    -- the order of an unordered set is any order
    if f.stage = .flagSet ∧ order.isPerm f.machine.contexts then some { f with stage := .saving [] order } else none
  | .saveContext =>
    match f.stage with
    | .saving saved (t :: rest) => some ⟨f.machine.saveContext t, .saving (saved ++ [t]) rest⟩
    | _ => none
  | .writeFile =>
    match f.stage with
    | .saving _ [] => some ⟨f.machine.clearSaved, .fileWritten⟩
    | _ => none
  | .resetCounters => if f.stage = .fileWritten then some ⟨f.machine.resetCounters, .idle⟩ else none

/-- The thread and the time of a body. -/
def PieceEvent.bodyOf : PieceEvent → Option (Tid × UInt64)
  | .whole (.body t now _) | .bodyInPlace t now => some (t, now)
  | _ => none

/-- The states that pieces reach by steps that `ok` allows. -/
abbrev PieceReach (strings : Ptr → Bytes) (ok : PieceMachine → PieceEvent → Prop) : PieceMachine → Prop :=
  Reach (fun f => Initial f.machine ∧ f.stage = .idle) (fun f e f' => f.step strings e = some f') ok

/-- Whether the body of a call of this thread comes before the save of its context. -/
def DisableStage.bodyInTime (t : Tid) : DisableStage → Bool
  | .saving saved _ => t ∉ saved
  | .fileWritten => false
  | _ => true

/-- No body runs between the save of its context and the return of `disableTracing`. -/
def InTime (f : PieceMachine) (e : PieceEvent) : Prop := ∀ x ∈ e.bodyOf, f.stage.bodyInTime x.1 = true

/-- Several contexts saved at once. -/
def Machine.saveContexts (saved : List Tid) (m : Machine) : Machine :=
  { m with
    infos := fun t => if t ∈ saved then (m.infos t).reset else m.infos t
    store := saveAll saved m.store }

/-- `m` is where whole steps are: before a `disableTracing` whose file is not
yet written, and after one whose file is. -/
def PieceMachine.Of (f : PieceMachine) (m : Machine) : Prop :=
  match f.stage with
  | .idle => f.machine = m
  | .flagSet => m.config.endsSession = true ∧ f.machine = m.setFlag
  | .saving saved rest =>
    m.config.endsSession = true ∧ (saved ++ rest).Perm m.contexts ∧ f.machine = m.setFlag.saveContexts saved
  | .fileWritten => f.machine.config.tracingDisabled = true ∧ f.machine.resetCounters = m

section

variable {strings : Ptr → Bytes} {f f' : PieceMachine} {m m' : Machine} {t : Tid} {now : UInt64}
  {saved : List Tid}

/-! ### A body does not look at the flag -/

def Body.setFlag (b : Body) : Body :=
  { b with config := { b.config with tracingDisabled := true, saving := false } }

theorem writeSequenceId_setFlag (b : Body) : writeSequenceId b.setFlag = (writeSequenceId b).map Body.setFlag := by
  unfold writeSequenceId Body.setFlag
  dsimp only
  split
  · rfl
  · split <;> rfl

theorem writeCategory_setFlag (b : Body) : writeCategory b.setFlag = (writeCategory b).setFlag := by
  unfold writeCategory Body.setFlag internCategory
  dsimp only
  split <;> rfl

theorem writeThreadTrack_setFlag (b : Body) : writeThreadTrack b.setFlag = (writeThreadTrack b).setFlag := by
  unfold writeThreadTrack Body.setFlag
  dsimp only
  split <;> rfl

theorem ensureThreadInfo_setFlag (b : Body) : ensureThreadInfo b.setFlag = (ensureThreadInfo b).map Body.setFlag := by
  unfold ensureThreadInfo
  rw [writeSequenceId_setFlag]
  cases writeSequenceId b with
  | none => rfl
  | some b =>
    simp only [Option.map_some, Option.bind_eq_bind, Option.bind_some, Option.pure_def, writeCategory_setFlag,
      writeThreadTrack_setFlag]

theorem Call.body_setFlag (call : Call) (c : VirtualDeviceTraceConfig) (i : ThreadInfo) :
    call.body strings now { c with tracingDisabled := true, saving := false } i =
      (call.body strings now c i).map Body.setFlag := by
  have hensure : ensureThreadInfo (Body.setFlag { config := c, info := i }) =
      (ensureThreadInfo { config := c, info := i }).map Body.setFlag := ensureThreadInfo_setFlag _
  cases call with
  | beginTrace name =>
    unfold Call.body
    show (ensureThreadInfo (Body.setFlag { config := c, info := i })).bind _ = _
    rw [hensure]
    cases ensureThreadInfo { config := c, info := i } with
    | none => rfl
    | some b =>
      simp only [Option.map_some, Option.bind_eq_bind, Option.bind_some, Option.pure_def, Option.some.injEq]
      unfold writeSliceBegin Body.setFlag internEvent
      dsimp only
      split <;> rfl
  | endTrace => rfl
  | traceCounter name val =>
    unfold Call.body
    show (ensureThreadInfo (Body.setFlag { config := c, info := i })).bind _ = _
    rw [hensure]
    cases ensureThreadInfo { config := c, info := i } with
    | none => rfl
    | some b =>
      simp only [Option.map_some, Option.bind_eq_bind, Option.bind_some, Option.pure_def, Option.some.injEq]
      unfold writeCounter Body.setFlag
      dsimp only
      split <;> rfl

namespace Machine

theorem body_setFlag (full : ℕ → Bool) :
    m.setFlag.body strings t now full = (m.body strings t now full).map setFlag := by
  unfold Machine.body
  show (m.pending t).bind _ = ((m.pending t).bind _).map _
  cases m.pending t with
  | none => rfl
  | some p =>
    obtain ⟨call, n⟩ := p
    have hbody : call.body strings now m.setFlag.config (m.infos t) =
        (call.body strings now m.config (m.infos t)).map Body.setFlag := Call.body_setFlag call m.config (m.infos t)
    show (call.body strings now m.setFlag.config (m.infos t)).bind _ =
      ((call.body strings now m.config (m.infos t)).bind _).map _
    rw [hbody]
    cases call.body strings now m.config (m.infos t) <;> rfl

/-! ### The saves of other contexts -/

theorem saveContexts_append (m : Machine) (saved : List Tid) (t : Tid) :
    m.saveContexts (saved ++ [t]) = (m.saveContexts saved).saveContext t := by
  have hinfos : (m.saveContexts (saved ++ [t])).infos = ((m.saveContexts saved).saveContext t).infos := by
    funext u
    show (if u ∈ saved ++ [t] then (m.infos u).reset else m.infos u) =
      Function.update (m.saveContexts saved).infos t ((m.saveContexts saved).infos t).reset u
    by_cases hu : u = t
    · subst hu
      rw [Function.update_self, if_pos (by simp)]
      show (m.infos u).reset = (if u ∈ saved then (m.infos u).reset else m.infos u).reset
      split <;> rfl
    · rw [Function.update_of_ne hu]
      simp [saveContexts, hu]
  have hstore : (m.saveContexts (saved ++ [t])).store = ((m.saveContexts saved).saveContext t).store :=
    List.foldl_append
  show { m.saveContexts (saved ++ [t]) with
    infos := (m.saveContexts (saved ++ [t])).infos, store := (m.saveContexts (saved ++ [t])).store } = _
  rw [hinfos, hstore]
  rfl

theorem afterBody_saveContexts (ht : t ∉ saved) (call : Call) (b : Body) :
    (m.saveContexts saved).afterBody t (fun _ => false) call b =
      (m.afterBody t (fun _ => false) call b).saveContexts saved := by
  have hne : ∀ u ∈ saved, u ≠ t := fun u hu he => ht (he ▸ hu)
  have hinfos : ((m.saveContexts saved).afterBody t (fun _ => false) call b).infos =
      ((m.afterBody t (fun _ => false) call b).saveContexts saved).infos := by
    funext u
    show Function.update (m.saveContexts saved).infos t b.info u =
      if u ∈ saved then (Function.update m.infos t b.info u).reset else Function.update m.infos t b.info u
    by_cases hu : u = t
    · subst hu
      rw [Function.update_self, Function.update_self, if_neg ht]
    · rw [Function.update_of_ne hu, Function.update_of_ne hu]
      rfl
  have hmark : (if b.first then mark t (saveAll saved m.store) else saveAll saved m.store) =
      saveAll saved (if b.first then mark t m.store else m.store) := by
    split
    · exact saveAll_comm (fun s u hu => mark_save (hne u hu) s) m.store
    · rfl
  have hstore : ((m.saveContexts saved).afterBody t (fun _ => false) call b).store =
      ((m.afterBody t (fun _ => false) call b).saveContexts saved).store := by
    show putAll t (fun _ => false) _ (if b.first then mark t (saveAll saved m.store) else saveAll saved m.store) = _
    rw [hmark]
    exact saveAll_comm (fun s u hu => putAll_save (hne u hu) _ s) _
  show { (m.saveContexts saved).afterBody t (fun _ => false) call b with
    infos := ((m.saveContexts saved).afterBody t (fun _ => false) call b).infos
    store := ((m.saveContexts saved).afterBody t (fun _ => false) call b).store } = _
  rw [hinfos, hstore]
  rfl

/-- A body before the save of its context might as well have come before all saves. -/
theorem body_saveContexts (ht : t ∉ saved) :
    (m.saveContexts saved).body strings t now (fun _ => false) =
      (m.body strings t now fun _ => false).map (saveContexts saved) := by
  have hinfo : (m.saveContexts saved).infos t = m.infos t := if_neg ht
  unfold Machine.body
  show (m.pending t).bind _ = ((m.pending t).bind _).map _
  cases m.pending t with
  | none => rfl
  | some p =>
    obtain ⟨call, n⟩ := p
    show (call.body strings now m.config ((m.saveContexts saved).infos t)).bind _ =
      ((call.body strings now m.config (m.infos t)).bind _).map _
    rw [hinfo]
    cases call.body strings now m.config (m.infos t) with
    | none => rfl
    | some b => exact congrArg some (afterBody_saveContexts ht call b)

/-- What a body leaves alone. -/
theorem body_keeps {full : ℕ → Bool} (h : m.body strings t now full = some m') :
    m'.config.endsSession = m.config.endsSession ∧ m'.contexts = m.contexts := by
  obtain ⟨call, n, b, -, hb, rfl⟩ := body_cases h
  obtain ⟨calls, written, interningId, threadId, hc⟩ := Call.body_config hb
  refine ⟨?_, rfl⟩
  show b.config.endsSession = m.config.endsSession
  rw [hc]
  rfl

theorem enter_of_disabled {call : Call} (hd : m.config.tracingDisabled = true) (h : m.enter t call = some m') :
    m' = m := by
  obtain ⟨-, -, ⟨-, rfl⟩ | ⟨info, hi, -⟩⟩ := enter_cases h
  · rw [if_pos hd]
  · cases call <;> simp [Call.enter, hd] at hi

/-- An exit neither reads nor changes the configuration. -/
theorem exit_config (g : VirtualDeviceTraceConfig → VirtualDeviceTraceConfig) :
    { m with config := g m.config }.exit t = (m.exit t).map fun x => { x with config := g x.config } := by
  unfold exit
  split <;> rfl

theorem exit_setFlag : m.setFlag.exit t = (m.exit t).map setFlag :=
  exit_config fun c => { c with tracingDisabled := true, saving := false }

theorem exit_resetCounters : m.resetCounters.exit t = (m.exit t).map resetCounters :=
  exit_config fun c => { c.resetCounters with guestTimeDiff := 0 }

end Machine

/-! ### A piece is a whole step or none -/

namespace PieceMachine

theorem Of.body (h : f.Of m) (ht : f.stage.bodyInTime t = true) {full : ℕ → Bool}
    (hfull : f.stage.lockFree = false → full = fun _ => false) {x : Machine}
    (hx : f.machine.body strings t now full = some x) :
    ∃ m', m.body strings t now full = some m' ∧ PieceMachine.Of ⟨x, f.stage⟩ m' := by
  obtain ⟨n, stage⟩ := f
  cases stage with
  | idle =>
    obtain rfl : n = m := h
    exact ⟨x, hx, rfl⟩
  | flagSet =>
    obtain ⟨hends, rfl⟩ : m.config.endsSession = true ∧ n = m.setFlag := h
    obtain ⟨m', hm', rfl⟩ := Option.map_eq_some_iff.mp ((Machine.body_setFlag full).symm.trans hx)
    exact ⟨m', hm', (Machine.body_keeps hm').1.trans hends, rfl⟩
  | saving saved rest =>
    obtain ⟨hends, hperm, rfl⟩ : m.config.endsSession = true ∧ (saved ++ rest).Perm m.contexts ∧
      n = m.setFlag.saveContexts saved := h
    obtain rfl := hfull rfl
    have hbefore : t ∉ saved := by simpa [DisableStage.bodyInTime] using ht
    obtain ⟨y, hy, rfl⟩ := Option.map_eq_some_iff.mp ((Machine.body_saveContexts hbefore).symm.trans hx)
    obtain ⟨m', hm', rfl⟩ := Option.map_eq_some_iff.mp ((Machine.body_setFlag _).symm.trans hy)
    obtain ⟨hends', hcontexts⟩ := Machine.body_keeps hm'
    exact ⟨m', hm', hends'.trans hends, hcontexts ▸ hperm, rfl⟩
  | fileWritten => exact absurd ht Bool.false_ne_true

theorem Of.exit (h : f.Of m) (hfree : f.stage.lockFree = true) {x : Machine}
    (hx : f.machine.exit t = some x) : ∃ m', m.exit t = some m' ∧ PieceMachine.Of ⟨x, f.stage⟩ m' := by
  obtain ⟨n, stage⟩ := f
  cases stage with
  | idle =>
    obtain rfl : n = m := h
    exact ⟨x, hx, rfl⟩
  | flagSet =>
    obtain ⟨hends, rfl⟩ : m.config.endsSession = true ∧ n = m.setFlag := h
    obtain ⟨m', hm', rfl⟩ := Option.map_eq_some_iff.mp (Machine.exit_setFlag.symm.trans hx)
    obtain ⟨-, -, rfl⟩ := Machine.exit_cases hm'
    exact ⟨_, hm', hends, rfl⟩
  | saving saved rest => exact absurd hfree Bool.false_ne_true
  | fileWritten =>
    obtain ⟨hd, rfl⟩ : n.config.tracingDisabled = true ∧ n.resetCounters = m := h
    have hexit : n.resetCounters.exit t = some x.resetCounters :=
      Machine.exit_resetCounters.trans (congrArg (Option.map _) hx)
    obtain ⟨-, -, rfl⟩ := Machine.exit_cases hx
    exact ⟨_, hexit, hd, rfl⟩

/-- Once the flag is set, the tests of a call change nothing. -/
theorem Of.disabled (h : f.Of m) (hstage : f.stage ≠ .idle) : f.machine.config.tracingDisabled = true := by
  obtain ⟨n, stage⟩ := f
  cases stage with
  | idle => exact absurd rfl hstage
  | flagSet =>
    obtain rfl : n = m.setFlag := h.2
    rfl
  | saving saved rest =>
    obtain rfl : n = m.setFlag.saveContexts saved := h.2.2
    rfl
  | fileWritten => exact h.1

theorem saveContext_cases (hs : f.step strings .saveContext = some f') :
    ∃ saved t rest, f.stage = .saving saved (t :: rest) ∧
      f' = ⟨f.machine.saveContext t, .saving (saved ++ [t]) rest⟩ := by
  obtain ⟨n, stage⟩ := f
  rcases stage with _ | _ | ⟨saved, _ | ⟨t, rest⟩⟩ | _
  all_goals first
    | exact absurd hs.symm (Option.some_ne_none _)
    | exact ⟨saved, t, rest, rfl, (Option.some.inj hs).symm⟩

theorem writeFile_cases (hs : f.step strings .writeFile = some f') :
    ∃ saved, f.stage = .saving saved [] ∧ f' = ⟨f.machine.clearSaved, .fileWritten⟩ := by
  obtain ⟨n, stage⟩ := f
  rcases stage with _ | _ | ⟨saved, _ | ⟨t, rest⟩⟩ | _
  all_goals first
    | exact absurd hs.symm (Option.some_ne_none _)
    | exact ⟨saved, rfl, (Option.some.inj hs).symm⟩

theorem Of.saveContext {rest : List Tid} (h : f.Of m) (hstage : f.stage = .saving saved (t :: rest)) :
    PieceMachine.Of ⟨f.machine.saveContext t, .saving (saved ++ [t]) rest⟩ m := by
  obtain ⟨n, stage⟩ := f
  obtain rfl : stage = .saving saved (t :: rest) := hstage
  obtain ⟨hends, hperm, rfl⟩ : m.config.endsSession = true ∧ List.Perm (saved ++ t :: rest) m.contexts ∧
    n = m.setFlag.saveContexts saved := h
  refine ⟨hends, ?_, (m.setFlag.saveContexts_append saved t).symm⟩
  rwa [List.append_assoc]

theorem Of.allSaved (h : f.Of m) (hstage : f.stage = .saving saved []) :
    m.config.endsSession = true ∧ saved.Perm m.contexts ∧ f.machine = m.setFlag.saveContexts saved := by
  unfold PieceMachine.Of at h
  rw [hstage] at h
  dsimp only at h
  rwa [List.append_nil] at h

/-- The moment of a `disableTracing` is the write of its file. -/
theorem Of.writeFile (h : f.Of m) (hstage : f.stage = .saving saved []) :
    m.disableTracing saved = some (m.endSession saved) ∧
      PieceMachine.Of ⟨f.machine.clearSaved, .fileWritten⟩ (m.endSession saved) := by
  obtain ⟨hends, hperm, hmachine⟩ := h.allSaved hstage
  rw [hmachine]
  have hconfig : { (m.setFlag.saveContexts saved).clearSaved.config.resetCounters with guestTimeDiff := 0 } =
      m.config.disableTracing := by
    obtain ⟨hfile, hon⟩ := Bool.and_eq_true_iff.mp hends
    unfold VirtualDeviceTraceConfig.disableTracing
    rw [if_neg (by simpa [Option.isSome_iff_ne_none] using hfile), if_neg (by simpa using hon)]
    rfl
  refine ⟨?_, rfl, ?_⟩
  · unfold Machine.disableTracing
    rw [if_pos hends, if_pos (List.isPerm_iff.mpr hperm)]
  · show { (m.setFlag.saveContexts saved).clearSaved with
      config := { (m.setFlag.saveContexts saved).clearSaved.config.resetCounters with guestTimeDiff := 0 } } = _
    rw [hconfig]
    rfl

/-- One step of the whole machine answers a piece, or none does; a body is
answered by that body. -/
theorem Of.step {e : PieceEvent} (h : f.Of m) (hok : InTime f e) (hs : f.step strings e = some f') :
    ∃ m', f'.Of m' ∧ (m' = m ∨ ∃ e', (∀ t now full, e' = .body t now full → e.bodyOf = some (t, now)) ∧
      m.step strings e' = some m') := by
  have hbody : ∀ {t now full x}, e.bodyOf = some (t, now) → (f.stage.lockFree = false → full = fun _ => false) →
      f.machine.body strings t now full = some x →
      ∃ m', PieceMachine.Of ⟨x, f.stage⟩ m' ∧ (m' = m ∨ ∃ e', (∀ t now full, e' = .body t now full →
        e.bodyOf = some (t, now)) ∧ m.step strings e' = some m') := by
    intro t now full x he hfull hx
    obtain ⟨m', hm', hof⟩ := h.body (hok (t, now) he) hfull hx
    refine ⟨m', hof, Or.inr ⟨.body t now full, fun t' now' full' heq => ?_, hm'⟩⟩
    cases heq
    exact he
  cases e with
  | whole e =>
    obtain ⟨hallow, hs⟩ := Option.ite_none_right_eq_some.mp hs
    obtain ⟨x, hx, rfl⟩ := Option.map_eq_some_iff.mp hs
    by_cases hidle : f.stage = .idle
    · obtain ⟨n, stage⟩ := f
      obtain rfl : stage = .idle := hidle
      obtain rfl : n = m := h
      refine ⟨x, rfl, Or.inr ⟨e, fun t now full heq => ?_, hx⟩⟩
      rw [heq]
      rfl
    · cases e with
      | enableTracing env => exact absurd (of_decide_eq_true hallow) hidle
      | disableTracing order => exact absurd (of_decide_eq_true (Bool.and_eq_true_iff.mp hallow).1) hidle
      | setGuestTime t now => exact absurd (of_decide_eq_true hallow) hidle
      | enter t call =>
        obtain rfl := Machine.enter_of_disabled (h.disabled hidle) hx
        exact ⟨m, h, Or.inl rfl⟩
      | body t now full => exact hbody rfl (fun hheld => absurd (hheld.symm.trans hallow) Bool.false_ne_true) hx
      | exit t =>
        obtain ⟨m', hm', hof⟩ := h.exit hallow hx
        exact ⟨m', hof, Or.inr ⟨.exit t, fun _ _ _ heq => (by cases heq), hm'⟩⟩
  | bodyInPlace t now =>
    obtain ⟨x, hx, rfl⟩ := Option.map_eq_some_iff.mp hs
    exact hbody rfl (fun _ => rfl) hx
  | setFlag =>
    obtain ⟨⟨hidle, hends⟩, hs⟩ := Option.ite_none_right_eq_some.mp hs
    obtain rfl := Option.some.inj hs
    obtain ⟨n, stage⟩ := f
    obtain rfl : stage = .idle := hidle
    obtain rfl : n = m := h
    exact ⟨n, ⟨hends, rfl⟩, Or.inl rfl⟩
  | lockContexts order =>
    obtain ⟨⟨hstage, hperm⟩, hs⟩ := Option.ite_none_right_eq_some.mp hs
    obtain rfl := Option.some.inj hs
    obtain ⟨n, stage⟩ := f
    obtain rfl : stage = .flagSet := hstage
    obtain ⟨hends, rfl⟩ : m.config.endsSession = true ∧ n = m.setFlag := h
    exact ⟨m, ⟨hends, List.isPerm_iff.mp hperm, rfl⟩, Or.inl rfl⟩
  | saveContext =>
    obtain ⟨saved, t, rest, hstage, rfl⟩ := saveContext_cases hs
    exact ⟨m, h.saveContext hstage, Or.inl rfl⟩
  | writeFile =>
    obtain ⟨saved, hstage, rfl⟩ := writeFile_cases hs
    obtain ⟨hm, hof⟩ := h.writeFile hstage
    exact ⟨m.endSession saved, hof, Or.inr ⟨.disableTracing saved, fun _ _ _ heq => (by cases heq), hm⟩⟩
  | resetCounters =>
    obtain ⟨hstage, hs⟩ := Option.ite_none_right_eq_some.mp hs
    obtain rfl := Option.some.inj hs
    obtain ⟨n, stage⟩ := f
    obtain rfl : stage = .fileWritten := hstage
    exact ⟨m, h.2, Or.inl rfl⟩

/-! ### Runs of pieces and of whole steps -/

/-- Runs of pieces follow runs of whole steps, with the bodies the pieces have. -/
theorem reached_of {okPiece : PieceMachine → PieceEvent → Prop} {ok : Machine → Event → Prop}
    (hin : ∀ f e, okPiece f e → InTime f e)
    (hok : ∀ f m e e', f.Of m → okPiece f e → (∀ t now full, e' = .body t now full → e.bodyOf = some (t, now)) → ok m e')
    (h : PieceReach strings okPiece f) : ∃ m, MachineReach strings ok m ∧ f.Of m := by
  refine Reach.sim (fun f hf => ⟨f.machine, hf.1, ?_⟩) (fun f e f' m hof hp hs => ?_) h
  · unfold PieceMachine.Of
    rw [hf.2]
  · obtain ⟨m', hof', rfl | ⟨e', he', hs'⟩⟩ := hof.step (hin f e hp) hs
    · exact ⟨m', hof', Or.inl rfl⟩
    · exact ⟨m', hof', Or.inr ⟨e', hok f m e e' hof hp he', hs'⟩⟩

/-- A `disableTracing` that nothing interrupts, up to the write of its file. -/
theorem reached_saveAll (h : PieceReach strings InTime ⟨m, .idle⟩) (hends : m.config.endsSession = true)
    {order : List Tid} (hperm : order.Perm m.contexts) :
    PieceReach strings InTime ⟨m.setFlag.saveContexts order, .saving order []⟩ := by
  have hflag : PieceReach strings InTime ⟨m.setFlag, .flagSet⟩ :=
    Reach.step (a := .setFlag) h (fun _ _ => rfl) (if_pos ⟨rfl, hends⟩)
  have hlock : PieceReach strings InTime ⟨m.setFlag, .saving [] order⟩ :=
    Reach.step (a := .lockContexts order) hflag (fun _ _ => rfl) (if_pos ⟨rfl, List.isPerm_iff.mpr hperm⟩)
  have hsaves : ∀ rest saved, PieceReach strings InTime ⟨m.setFlag.saveContexts saved, .saving saved rest⟩ →
      PieceReach strings InTime ⟨m.setFlag.saveContexts (saved ++ rest), .saving (saved ++ rest) []⟩ := by
    intro rest
    induction rest with
    | nil =>
      intro saved hr
      rwa [List.append_nil]
    | cons t rest ih =>
      intro saved hr
      have hnext : PieceReach strings InTime ⟨m.setFlag.saveContexts (saved ++ [t]), .saving (saved ++ [t]) rest⟩ := by
        rw [Machine.saveContexts_append]
        exact Reach.step (a := .saveContext) hr (fun _ hx => by cases hx) rfl
      rw [List.append_cons]
      exact ih (saved ++ [t]) hnext
  exact hsaves order [] hlock

theorem reached_whole (h : MachineReach strings (fun _ _ => True) m) : PieceReach strings InTime ⟨m, .idle⟩ := by
  induction h with
  | init h0 => exact .init ⟨h0, rfl⟩
  | @step m m' e _ _ hs ih =>
    have hwhole : DisableStage.idle.allows m.config e = true → PieceReach strings InTime ⟨m', .idle⟩ := fun hallow => by
      have hstep : PieceMachine.step strings ⟨m, .idle⟩ (.whole e) = some ⟨m', .idle⟩ := by
        unfold PieceMachine.step
        dsimp only
        rw [if_pos hallow, hs]
        rfl
      exact Reach.step (a := .whole e) ih (fun _ _ => rfl) hstep
    cases e with
    | disableTracing order =>
      rcases Machine.disableTracing_cases hs with ⟨hends, hperm, rfl⟩ | ⟨hends, -⟩
      · have hof : PieceMachine.Of ⟨m.setFlag.saveContexts order, .saving order []⟩ m :=
          ⟨hends, (List.append_nil order).symm ▸ hperm, rfl⟩
        obtain ⟨-, -, hm⟩ := hof.writeFile rfl
        have hwritten : PieceReach strings InTime ⟨(m.setFlag.saveContexts order).clearSaved, .fileWritten⟩ :=
          Reach.step (a := .writeFile) (reached_saveAll ih hends hperm) (fun _ hx => by cases hx) rfl
        rw [← hm]
        exact Reach.step (a := .resetCounters) hwritten (fun _ hx => by cases hx) rfl
      · exact hwhole (by simp [DisableStage.allows, hends])
    | enableTracing env => exact hwhole rfl
    | setGuestTime t now => exact hwhole rfl
    | enter t call => exact hwhole rfl
    | body t now full => exact hwhole rfl
    | exit t => exact hwhole rfl

end PieceMachine

/-- **`disableTracing` may be read as one step.** While every body is in time,
the states between two calls of `disableTracing` are those of whole steps, and
so are the files, with the packets logged when they are written. -/
theorem disableTracing_pieces (strings : Ptr → Bytes) :
    (∀ m, PieceReach strings InTime ⟨m, .idle⟩ ↔ MachineReach strings (fun _ _ => True) m) ∧
      ∀ order file log,
        (∃ f, PieceReach strings InTime f ∧ f.stage = .saving order [] ∧ written f.machine.store = file ∧
          f.machine.log = log) ↔
        ∃ m, MachineReach strings (fun _ _ => True) m ∧ m.config.endsSession = true ∧ order.Perm m.contexts ∧
          m.hostFile order = file ∧ m.log = log := by
  have hof : ∀ {f}, PieceReach strings InTime f → ∃ m, MachineReach strings (fun _ _ => True) m ∧ f.Of m :=
    PieceMachine.reached_of (fun _ _ h => h) fun _ _ _ _ _ _ _ => trivial
  refine ⟨fun m => ⟨fun h => ?_, PieceMachine.reached_whole⟩, fun order file log => ⟨?_, ?_⟩⟩
  · obtain ⟨m', hm', hof⟩ := hof h
    obtain rfl : m = m' := hof
    exact hm'
  · rintro ⟨f, hf, hstage, rfl, rfl⟩
    obtain ⟨m, hm, hof⟩ := hof hf
    obtain ⟨hends, hperm, hmachine⟩ := hof.allSaved hstage
    rw [hmachine]
    exact ⟨m, hm, hends, hperm, rfl, rfl⟩
  · rintro ⟨m, hm, hends, hperm, rfl, rfl⟩
    exact ⟨_, PieceMachine.reached_saveAll (PieceMachine.reached_whole hm) hends hperm, rfl, rfl, rfl⟩

/-! ### The files of bodies in flight -/

/-- No body runs between the save of its context and the next session, that of
`endTrace` comes in the session of its tests, and none wraps the counter of calls. -/
def InFlight (strings : Ptr → Bytes) (f : PieceMachine) (e : PieceEvent) : Prop :=
  InTime f e ∧ ∀ x ∈ e.bodyOf, (f.stage = .idle → f.machine.config.tracingDisabled = false) ∧
    ∀ p ∈ f.machine.pending x.1, (p.1 = .endTrace → p.2 = f.machine.ended) ∧
      ∀ b ∈ p.1.body strings x.2 f.machine.config (f.machine.infos x.1),
        CountsUp f.machine.config (f.machine.infos x.1) b

instance (c : VirtualDeviceTraceConfig) (i : ThreadInfo) (b : Body) : Decidable (CountsUp c i b) :=
  inferInstanceAs (Decidable (_ ≤ _))

instance (f : PieceMachine) (e : PieceEvent) : Decidable (InTime f e) :=
  inferInstanceAs (Decidable (∀ x ∈ e.bodyOf, _))

instance (f : PieceMachine) (e : PieceEvent) : Decidable (InFlight strings f e) :=
  inferInstanceAs (Decidable (_ ∧ ∀ x ∈ e.bodyOf, (_ → _) ∧ ∀ p ∈ f.machine.pending x.1, (_ → _) ∧ ∀ b ∈ _, _))

/-- A body before the save of its context is a body in the session that ends. -/
theorem inCall_saveContexts (hends : m.config.endsSession = true) (ht : t ∉ saved) (full : ℕ → Bool)
    (hcounts : ∀ p ∈ m.pending t, (p.1 = .endTrace → p.2 = m.ended) ∧
      ∀ b ∈ p.1.body strings now m.setFlag.config ((m.setFlag.saveContexts saved).infos t),
        CountsUp m.setFlag.config ((m.setFlag.saveContexts saved).infos t) b) :
    InCall strings CountsUp m (.body t now full) := by
  have hinfo : (m.setFlag.saveContexts saved).infos t = m.infos t := if_neg ht
  have hon : m.config.tracingDisabled = false := by simpa using (Bool.and_eq_true_iff.mp hends).2
  refine ⟨⟨hon, fun n hn => (hcounts (.endTrace, n) hn).1 rfl⟩, fun t' now' full' call n b heq hpending hb => ?_⟩
  cases heq
  have hb' : call.body strings now m.setFlag.config (m.infos t) = some b.setFlag :=
    (Call.body_setFlag call m.config (m.infos t)).trans (congrArg (Option.map _) hb)
  exact (hcounts (call, n) hpending).2 b.setFlag (hinfo.symm ▸ hb')

theorem PieceMachine.Of.inCall {e : PieceEvent} (h : f.Of m) (hok : InFlight strings f e) {e' : Event}
    (he : ∀ t now full, e' = .body t now full → e.bodyOf = some (t, now)) : InCall strings CountsUp m e' := by
  cases e' with
  | body t now full =>
    have hbody := he t now full rfl
    have ht : f.stage.bodyInTime t = true := hok.1 (t, now) hbody
    have hpending := hok.2 (t, now) hbody
    obtain ⟨n, stage⟩ := f
    cases stage with
    | idle =>
      obtain rfl : n = m := h
      refine ⟨⟨?_, fun k hk => (hpending.2 (.endTrace, k) hk).1 rfl⟩, fun t' now' full' call k b heq hp hb => ?_⟩
      · exact hpending.1 rfl
      · cases heq
        exact (hpending.2 (call, k) hp).2 b hb
    | flagSet =>
      obtain ⟨hends, rfl⟩ : m.config.endsSession = true ∧ n = m.setFlag := h
      exact inCall_saveContexts hends List.not_mem_nil full hpending.2
    | saving saved rest =>
      obtain ⟨hends, -, rfl⟩ : m.config.endsSession = true ∧ (saved ++ rest).Perm m.contexts ∧
        n = m.setFlag.saveContexts saved := h
      have hbefore : t ∉ saved := by simpa [DisableStage.bodyInTime] using ht
      exact inCall_saveContexts hends hbefore full hpending.2
    | fileWritten => exact absurd ht Bool.false_ne_true
  | enableTracing env | disableTracing order | setGuestTime t now | enter t call | exit t =>
    exact ⟨trivial, fun _ _ _ _ _ _ heq => by cases heq⟩

/-- **No packet of a call in flight is lost.** The file that is written has
the packets of the log, each thread's in its order, and if there is one, the
start of the sequence first and only there. -/
theorem file_of_pieces (h : PieceReach strings (InFlight strings) f) {order : List Tid}
    (hstage : f.stage = .saving order []) :
    (written f.machine.store).Perm f.machine.log ∧
      (∀ t, ofOwner t (written f.machine.store) = ofOwner t f.machine.log) ∧
      (f.machine.log ≠ [] → ∃ x L, written f.machine.store = x :: L ∧ x.2.packet = .sequenceStart ∧
        ∀ y ∈ L, y.2.packet ≠ .sequenceStart) := by
  obtain ⟨m, hm, hof⟩ : ∃ m, MachineReach strings (InCall strings CountsUp) m ∧ f.Of m :=
    PieceMachine.reached_of (fun f e hok => hok.1) (fun f m e e' hof hok he => hof.inCall hok he) h
  obtain ⟨-, hperm, hmachine⟩ := hof.allSaved hstage
  obtain ⟨hbase, -, hstarted⟩ := machine_invariants hm
  rw [hmachine]
  exact machine_file hstarted hbase hperm

/-- The body of thread 0 comes between the save of thread 1's context and that
of its own. -/
def bodyBetweenSaves : List PieceEvent :=
  [.whole (.enableTracing {}), .whole (.enter 0 (.beginTrace 7)), .whole (.enter 1 (.beginTrace 7)),
    .whole (.body 1 5 fun _ => false), .setFlag, .lockContexts [1, 0], .saveContext, .bodyInPlace 0 9, .saveContext]

theorem file_of_pieces_between : ∃ f : PieceMachine,
    f.stage = .saving [1, 0] [] ∧ f.machine.log.map (·.1) = [1, 1, 1, 1, 1, 0, 0, 0, 0] ∧
      (written f.machine.store).Perm f.machine.log := by
  have h0 : PieceReach (fun _ => [97]) (InFlight fun _ => [97])
      ⟨{ config := { hostFilename := some "host" } }, .idle⟩ := .init ⟨⟨_, rfl, rfl⟩, rfl⟩
  have hrun : (run (checked (PieceMachine.step fun _ => [97]) (InFlight fun _ => [97]))
      ⟨{ config := { hostFilename := some "host" } }, .idle⟩ bodyBetweenSaves).map
        (fun f => (f.stage, f.machine.log.map (·.1))) = some (.saving [1, 0] [], [1, 1, 1, 1, 1, 0, 0, 0, 0]) := by
    decide +kernel
  obtain ⟨f, hf, heq⟩ := Option.map_eq_some_iff.mp hrun
  obtain ⟨hstage, hlog⟩ := Prod.mk.inj heq
  exact ⟨f, hstage, hlog, (file_of_pieces (h0.run_checked hf) hstage).1⟩

end

end Host
end VPerfetto
