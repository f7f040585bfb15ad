/-
# The saving threads as savers

`Saving` has what the flag depends on: the configuration and where each thread
is, with the sizes that a thread will find given to it when it starts. In
`CombineState` there are the files, and a thread finds what is there when it
looks. The first is what the second looks like from outside: every state of the
whole program has its savers in a state that `Saving` reaches. The sizes of a
saver there are those that its thread has found; for the polls still ahead they
can be chosen.

Key definitions: `SameSaving`, `Follows`, `Ahead`, `Foreseen`.
Key theorems: `Follows.hostStep`, `Follows.saverStep`, `Foreseen.saverStep`, `reach_saving`,
`flagCovers_iff_noThread`.
-/
import VPerfetto.Host.CombinedFile

namespace VPerfetto
namespace Host

open Wire Runs

/-- The fields that the threads and the flag depend on. -/
structure SameSaving (c d : VirtualDeviceTraceConfig) : Prop where
  tracingDisabled : d.tracingDisabled = c.tracingDisabled
  hostFilename : d.hostFilename = c.hostFilename
  guestFilename : d.guestFilename = c.guestFilename
  combinedFilename : d.combinedFilename = c.combinedFilename
  saving : d.saving = c.saving

namespace SameSaving

variable {b c d : VirtualDeviceTraceConfig}

theorem symm (h : SameSaving c d) : SameSaving d c :=
  ⟨h.tracingDisabled.symm, h.hostFilename.symm, h.guestFilename.symm, h.combinedFilename.symm, h.saving.symm⟩

theorem refl (c : VirtualDeviceTraceConfig) : SameSaving c c := ⟨rfl, rfl, rfl, rfl, rfl⟩

theorem trans (h : SameSaving b c) (h' : SameSaving c d) : SameSaving b d :=
  ⟨h'.tracingDisabled.trans h.tracingDisabled, h'.hostFilename.trans h.hostFilename,
    h'.guestFilename.trans h.guestFilename, h'.combinedFilename.trans h.combinedFilename,
    h'.saving.trans h.saving⟩

theorem endsSession (h : SameSaving c d) : d.endsSession = c.endsSession := by
  unfold VirtualDeviceTraceConfig.endsSession
  rw [h.hostFilename, h.tracingDisabled]

theorem clearSaving (h : SameSaving c d) : SameSaving { c with saving := false } { d with saving := false } :=
  ⟨h.tracingDisabled, h.hostFilename, h.guestFilename, h.combinedFilename, rfl⟩

theorem enableTracing (h : SameSaving c d) (env : Env) : SameSaving (c.enableTracing env) (d.enableTracing env) := by
  have hnames : SameSaving (c.useEnv env) (d.useEnv env) := by
    refine ⟨h.tracingDisabled, ?_, ?_, ?_, h.saving⟩
    · exact congrArg (useFilenameByEnv env.hostFile) h.hostFilename
    · exact congrArg (useFilenameByEnv env.guestFile) h.guestFilename
    · exact congrArg (useFilenameByEnv env.combinedFile) h.combinedFilename
  unfold VirtualDeviceTraceConfig.enableTracing
  dsimp only
  rw [hnames.hostFilename, hnames.tracingDisabled, hnames.saving]
  split
  · exact hnames
  · split
    · exact hnames
    · split
      · exact hnames
      · exact ⟨rfl, hnames.hostFilename, hnames.guestFilename, hnames.combinedFilename, hnames.saving⟩

theorem disableTracing (h : SameSaving c d) : SameSaving c.disableTracing d.disableTracing := by
  unfold VirtualDeviceTraceConfig.disableTracing
  rw [h.hostFilename]
  split
  · exact h
  · refine ⟨rfl, h.hostFilename, h.guestFilename, h.combinedFilename, ?_⟩
    simp only [h.tracingDisabled, h.saving]

end SameSaving

section

variable {strings : Ptr → Bytes} {fuel : ℕ} {s s' : CombineState} {t : Saving} {sizes : ℕ → ℕ → ℤ}

/-- Events other than the start and the end of tracing leave these fields alone. -/
theorem step_sameSaving {h h' : HostState} {e : HostEvent} (hs : h.step strings fuel e = some h')
    (hen : ∀ env, e ≠ .enableTracing env) (hdis : ∀ order, e ≠ .disableTracing order) :
    SameSaving h.config h'.config := by
  cases e with
  | enableTracing env => exact absurd rfl (hen env)
  | disableTracing order => exact absurd rfl (hdis order)
  | setGuestTime now u =>
    obtain rfl := Option.some.inj hs
    show SameSaving h.config (h.config.setGuestTime now u)
    unfold VirtualDeviceTraceConfig.setGuestTime
    split
    · exact .refl _
    · exact ⟨rfl, rfl, rfl, rfl, rfl⟩
  | call u now c =>
    obtain ⟨-, ⟨-, rfl⟩ | ⟨info, b, w, -, hb, -, rfl⟩⟩ := HostState.call_cases hs
    · rw [HostState.beforeCall_eq]
      exact .refl _
    · obtain ⟨_, _, _, _, hc⟩ := Call.body_config hb
      show SameSaving h.config b.config
      rw [hc]
      exact ⟨rfl, rfl, rfl, rfl, rfl⟩
  | exit u =>
    simp only [HostState.step, HostState.exit, Option.ite_none_left_eq_some] at hs
    obtain rfl := Option.some.inj hs.2
    exact .refl _

/-- The thread as a saver; `sizes n` is what the thread of session `n` finds. -/
def CombineThread.saver (sizes : ℕ → ℕ → ℤ) (th : CombineThread) : Saver where
  session := th.session
  sizes := sizes th.session
  phase := th.phase

/-- `t` is what is seen of `s`. -/
structure Follows (sizes : ℕ → ℕ → ℤ) (s : CombineState) (t : Saving) : Prop where
  config : SameSaving s.host.config t.config
  savers : t.savers = s.threads.map (·.saver sizes)
  ended : t.ended = s.ended
  settled : t.settled = s.settled

theorem Follows.afterHostFile {recorded : Tid → List Happening} (h : Follows sizes s t) :
    Follows sizes (s.afterHostFile recorded) (t.afterHostFile (sizes s.ended)) := by
  unfold CombineState.afterHostFile Saving.afterHostFile
  rw [h.config.guestFilename, h.config.combinedFilename, h.ended, h.savers, h.settled]
  split
  · exact ⟨h.config.clearSaving, rfl, rfl, rfl⟩
  · refine ⟨h.config, ?_, rfl, rfl⟩
    rw [List.map_append]
    rfl

/-- An event of the program is a call that `Saving` has, or nothing that it sees. -/
theorem Follows.hostStep {e : HostEvent} (h : Follows sizes s t) (hs : s.hostStep strings fuel e = some s') :
    ∃ t', Follows sizes s' t' ∧ (t' = t ∨ ∃ b, t.step b = some t') := by
  obtain ⟨host, hhost, ⟨hends, ⟨order, rfl⟩, rfl⟩ | ⟨hnone, rfl⟩⟩ := CombineState.hostStep_cases hs
  · have hconfig := disableTracing_config hhost
    refine ⟨t.disableTracing (sizes (s.ended + 1)), ?_, Or.inr ⟨.disableTracing _, rfl⟩⟩
    unfold Saving.disableTracing
    rw [if_pos (h.config.endsSession.trans hends)]
    have hsession : Follows sizes
        { s with host := host, recorder := s.recorder.step strings (.disableTracing order), ended := s.ended + 1 }
        { t with config := t.config.disableTracing, ended := t.ended + 1 } := by
      refine ⟨?_, h.savers, congrArg (· + 1) h.ended, h.settled⟩
      show SameSaving host.config t.config.disableTracing
      rw [hconfig]
      exact h.config.disableTracing
    exact hsession.afterHostFile
  · cases e with
    | enableTracing env =>
      obtain rfl := Option.some.inj hhost
      refine ⟨{ t with config := t.config.enableTracing env }, ?_, Or.inr ⟨.enableTracing env, rfl⟩⟩
      refine ⟨?_, h.savers, h.ended, h.settled⟩
      show SameSaving (s.host.enableTracing env).config (t.config.enableTracing env)
      rw [HostState.enableTracing_config]
      exact h.config.enableTracing env
    | disableTracing order =>
      have hends : t.config.endsSession = false := h.config.endsSession.trans (hnone order rfl)
      refine ⟨t.disableTracing (sizes s.ended), ?_, Or.inr ⟨.disableTracing _, rfl⟩⟩
      unfold Saving.disableTracing
      rw [hends, if_neg Bool.false_ne_true]
      refine ⟨?_, h.savers, h.ended, h.settled⟩
      show SameSaving host.config t.config.disableTracing
      rw [disableTracing_config hhost]
      exact h.config.disableTracing
    | setGuestTime | call | exit =>
      have hsame := step_sameSaving hhost (fun _ => HostEvent.noConfusion) (fun _ => HostEvent.noConfusion)
      exact ⟨t, ⟨hsame.symm.trans h.config, h.savers, h.ended, h.settled⟩, Or.inl rfl⟩

theorem Follows.setThread (h : Follows sizes s t) (i : ℕ) (th th' : CombineThread) {phase : SaverPhase}
    (hsession : th'.session = th.session) (hphase : th'.phase = phase) :
    Follows sizes (s.setThread i th') (t.setPhase i (th.saver sizes) phase) := by
  refine ⟨h.config, ?_, h.ended, h.settled⟩
  show t.savers.set i _ = (s.threads.set i th').map _
  rw [h.savers, List.map_set, ← hphase]
  unfold CombineThread.saver
  rw [hsession]

theorem Follows.finish (h : Follows sizes s t) (i : ℕ) (th : CombineThread) :
    Follows sizes (s.finish i th) (t.finish i th.session) := by
  refine ⟨h.config.clearSaving, ?_, h.ended, congrArg (th.session :: ·) h.settled⟩
  show t.savers.eraseIdx i = (s.threads.eraseIdx i).map _
  rw [h.savers, List.eraseIdx_map]

/-- A step of a thread is the step of its saver, if the saver's next size is
what the thread finds. -/
theorem Follows.saverStep {i : ℕ} {th : CombineThread} (h : Follows sizes s t) (hth : s.threads[i]? = some th)
    (hsize : ∀ poll, th.phase = .polling poll → poll.done = false →
      sizes th.session poll.iter = fileSize (s.guestFiles th.guestFilename))
    (hs : s.saverStep i = some s') : ∃ t', t.saverStep i = some t' ∧ Follows sizes s' t' := by
  have hsaver : t.savers[i]? = some (th.saver sizes) := by
    rw [h.savers, List.getElem?_map, hth]
    rfl
  unfold CombineState.saverStep at hs
  unfold Saving.saverStep
  rw [hth, Option.bind_eq_bind, Option.bind_some] at hs
  rw [hsaver, Option.bind_eq_bind, Option.bind_some]
  have hphase : (th.saver sizes).phase = th.phase := rfl
  rw [hphase]
  cases hp : th.phase with
  | started =>
    rw [hp] at hs
    simp only [Option.bind_eq_bind, Option.bind_eq_some_iff] at hs
    obtain ⟨hostFilename, -, guestFilename, -, combinedFilename, -, hs⟩ := hs
    obtain rfl := Option.some.inj hs
    exact ⟨_, rfl, h.setThread i th _ rfl rfl⟩
  | polling poll =>
    rw [hp] at hs
    dsimp only at hs ⊢
    cases hd : poll.done with
    | false =>
      rw [hd] at hs
      obtain rfl := Option.some.inj hs
      rw [← hsize poll hp hd]
      exact ⟨_, rfl, h.setThread i th _ rfl rfl⟩
    | true =>
      rw [hd] at hs
      cases hg : poll.good with
      | true =>
        rw [hg] at hs
        obtain rfl := Option.some.inj hs
        exact ⟨_, rfl, h.setThread i th _ rfl rfl⟩
      | false =>
        rw [hg] at hs
        obtain rfl := Option.some.inj hs
        exact ⟨_, rfl, h.finish i th⟩
  | stable =>
    rw [hp] at hs
    obtain rfl := Option.some.inj hs
    have hset := h.setThread i th { th with phase := .written } rfl rfl
    exact ⟨_, rfl, hset.config, hset.savers, hset.ended, hset.settled⟩
  | written =>
    rw [hp] at hs
    obtain rfl := Option.some.inj hs
    exact ⟨_, rfl, h.finish i th⟩

/-! ### Whole runs

A saver is given all its sizes when it starts, and a thread sees them one by
one. So the sizes of a state are fixed only for the polls that have been made. -/

/-- A thread that is here has not made poll `j`. -/
def SaverPhase.Ahead (j : ℕ) : SaverPhase → Prop
  | .started => True
  | .polling poll => poll.iter ≤ j
  | .stable | .written => False

/-- Poll `j` for session `n` has not been made, and may yet be: the session has
not ended, or its thread has not come to it. -/
def Ahead (s : CombineState) (n j : ℕ) : Prop :=
  n ≤ s.ended → ∃ th ∈ s.threads, th.session = n ∧ th.phase.Ahead j

theorem ahead_hostStep {e : HostEvent} (hs : s.hostStep strings fuel e = some s') {n j : ℕ} (h : Ahead s' n j) :
    Ahead s n j := by
  obtain ⟨host, -, ⟨-, -, rfl⟩ | ⟨-, rfl⟩⟩ := CombineState.hostStep_cases hs
  · intro hn
    unfold CombineState.afterHostFile at h
    split at h
    · exact h (Nat.le_succ_of_le hn)
    · obtain ⟨th, hth, hsession, hahead⟩ := h (Nat.le_succ_of_le hn)
      rcases List.mem_append.mp hth with hth | hth
      · exact ⟨th, hth, hsession, hahead⟩
      · obtain rfl := List.mem_singleton.mp hth
        exact absurd hn (hsession ▸ Nat.not_succ_le_self s.ended)
  · exact h

theorem ahead_setThread {i : ℕ} {th th' : CombineThread} {n j : ℕ} (h : Ahead (s.setThread i th') n j)
    (hth : s.threads[i]? = some th) (hsession : th'.session = th.session)
    (hphase : th'.phase.Ahead j → th.phase.Ahead j) : Ahead s n j := by
  intro hn
  obtain ⟨x, hx, hxn, hahead⟩ := h hn
  rcases List.mem_or_eq_of_mem_set hx with hx | rfl
  · exact ⟨x, hx, hxn, hahead⟩
  · exact ⟨th, List.mem_of_getElem? hth, hsession.symm.trans hxn, hphase hahead⟩

/-- No poll that has been made is made again. -/
theorem ahead_saverStep {i : ℕ} (hs : s.saverStep i = some s') {n j : ℕ} (h : Ahead s' n j) : Ahead s n j := by
  obtain ⟨th, hth, hmove⟩ := CombineState.saverStep_moves hs
  have hfinish : Ahead (s.finish i th) n j → Ahead s n j := by
    intro h hn
    obtain ⟨x, hx, hrest⟩ := h hn
    exact ⟨x, List.mem_of_mem_eraseIdx hx, hrest⟩
  cases hmove with
  | copyNames _ _ _ hp =>
    refine ahead_setThread h hth rfl fun _ => ?_
    rw [hp]
    trivial
  | poll poll hp =>
    refine ahead_setThread h hth rfl fun hahead => ?_
    rw [SaverPhase.Ahead, Poll.next_iter] at hahead
    rw [hp]
    exact Nat.le_of_succ_le hahead
  | settle => exact ahead_setThread h hth rfl False.elim
  | combine =>
    have hset : Ahead (s.setThread i { th with phase := .written }) n j := h
    exact ahead_setThread hset hth rfl False.elim
  | timeOut | finish => exact hfinish h

/-- There is one thread for a session, so what it has behind it is not ahead. -/
theorem not_ahead (hi : CountInv s) (th : CombineThread) (hmem : th ∈ s.threads) {j : ℕ} (hpast : ¬ th.phase.Ahead j) :
    ¬ Ahead s th.session j := by
  intro h
  have hended : th.session ≤ s.ended := by
    have hin := hi.once.mem_iff.mp (List.mem_append_right _ (List.mem_map_of_mem hmem))
    have hrange := List.mem_range'_1.mp hin
    omega
  obtain ⟨x, hx, hxn, hahead⟩ := h hended
  have hnodup := (List.nodup_append.mp (hi.once.nodup_iff.mpr List.nodup_range')).2.1
  obtain rfl := List.inj_on_of_nodup_map hnodup hx hmem hxn
  exact hpast hahead

/-- A poll that is made is behind. -/
theorem not_ahead_poll (hi' : CountInv s') {i : ℕ} {th : CombineThread} (hth : s.threads[i]? = some th) {poll : Poll}
    (hp : th.phase = .polling poll) (hd : poll.done = false) (hs : s.saverStep i = some s') :
    ¬ Ahead s' th.session poll.iter := by
  have hlt : i < s.threads.length := (List.getElem?_eq_some_iff.mp hth).1
  let th' : CombineThread := { th with phase := .polling (poll.next (fileSize (s.guestFiles th.guestFilename))) }
  have hpoll : s.saverStep i = some (s.setThread i th') := by
    unfold CombineState.saverStep
    rw [hth, Option.bind_eq_bind, Option.bind_some, hp]
    dsimp only
    rw [hd]
    rfl
  obtain rfl := Option.some.inj (hpoll.symm.trans hs)
  refine not_ahead hi' th' (List.mem_set hlt th') ?_
  show ¬ (poll.next _).iter ≤ poll.iter
  rw [Poll.next_iter]
  exact Nat.not_succ_le_self _

abbrev SaversReach : Saving → Prop := Reach SavingInitial (fun t e t' => t.step e = some t') fun _ _ => True

/-- Whatever the polls ahead are to find, `Saving` reaches what is seen of `s`. -/
def Foreseen (s : CombineState) : Prop :=
  ∀ future : ℕ → ℕ → ℤ, ∃ sizes t, (∀ n j, Ahead s n j → sizes n j = future n j) ∧ SaversReach t ∧ Follows sizes s t

theorem Foreseen.hostStep {e : HostEvent} (h : Foreseen s) (hs : s.hostStep strings fuel e = some s') :
    Foreseen s' := by
  intro future
  obtain ⟨sizes, t, hahead, ht, hf⟩ := h future
  obtain ⟨t', hf', hstep⟩ := hf.hostStep hs
  refine ⟨sizes, t', fun n j hj => hahead n j (ahead_hostStep hs hj), ?_, hf'⟩
  rcases hstep with rfl | ⟨b, hb⟩
  · exact ht
  · exact ht.step trivial hb

theorem Foreseen.saverStep {i : ℕ} (h : Foreseen s) (hi' : CountInv s') (hs : s.saverStep i = some s') :
    Foreseen s' := by
  intro future
  obtain ⟨th, hth, -⟩ := CombineState.saverStep_moves hs
  have hmem : th ∈ s.threads := List.mem_of_getElem? hth
  by_cases hpolls : ∃ poll, th.phase = .polling poll ∧ poll.done = false
  · -- take the savers of which this one was to find what the thread finds now
    obtain ⟨poll, hp, hd⟩ := hpolls
    let size := fileSize (s.guestFiles th.guestFilename)
    obtain ⟨sizes, t, hahead, ht, hf⟩ := h fun n j => if n = th.session ∧ j = poll.iter then size else future n j
    have hsize : sizes th.session poll.iter = size := by
      rw [hahead _ _ fun _ => ⟨th, hmem, rfl, hp ▸ Nat.le_refl _⟩]
      exact if_pos ⟨rfl, rfl⟩
    have hnext : ∀ poll', th.phase = .polling poll' → poll'.done = false → sizes th.session poll'.iter = size := by
      intro poll' hp' _
      obtain rfl := SaverPhase.polling.inj (hp.symm.trans hp')
      exact hsize
    obtain ⟨t', ht', hf'⟩ := hf.saverStep hth hnext hs
    refine ⟨sizes, t', fun n j hj => ?_, ht.step (a := .saver i) trivial ht', hf'⟩
    rw [hahead n j (ahead_saverStep hs hj), if_neg]
    rintro ⟨rfl, rfl⟩
    exact not_ahead_poll hi' hth hp hd hs hj
  · obtain ⟨sizes, t, hahead, ht, hf⟩ := h future
    obtain ⟨t', ht', hf'⟩ := hf.saverStep hth (fun poll hp hd => absurd ⟨poll, hp, hd⟩ hpolls) hs
    exact ⟨sizes, t', fun n j hj => hahead n j (ahead_saverStep hs hj), ht.step (a := .saver i) trivial ht', hf'⟩

/-- **The savers are what is seen of the threads**, whatever is to be found by the polls ahead. -/
theorem reach_saving (hr : CombineReach strings fuel (fun _ _ => True) s) : Foreseen s := by
  refine Reach.inv_of (P := Foreseen) ?_ ?_ hr
  · rintro _ ⟨host, recorder, guestFiles, ⟨⟨config, hd, -, -, rfl⟩, -⟩, hsaving, rfl⟩ future
    exact ⟨future, { config := config }, fun _ _ _ => rfl, .init ⟨config, hd, hsaving, rfl⟩,
      .refl config, rfl, rfl, rfl⟩
  · intro s e s' hr h _ hs
    cases e with
    | host e => exact h.hostStep hs
    | guestFile f contents =>
      intro future
      obtain ⟨sizes, t, hahead, ht, hf⟩ := h future
      obtain rfl := Option.some.inj hs
      exact ⟨sizes, t, hahead, ht, hf.config, hf.savers, hf.ended, hf.settled⟩
    | saver i => exact h.saverStep (countInv_step (combineReach_countInv hr) hs) hs

/-- **The flag covers the save exactly while there is no thread**, in the whole program too. -/
theorem flagCovers_iff_noThread (hr : CombineReach strings fuel (fun _ _ => True) s) :
    ∃ sizes t, SaversReach t ∧ Follows sizes s t ∧ (FlagCovers t ↔ s.threads = []) := by
  obtain ⟨sizes, t, -, ht, hf⟩ := reach_saving hr fun _ _ => 0
  have hinv : SavingInv t :=
    ht.inv (fun _ h0 => (saving_initial h0).1) fun _ _ _ hi _ hs => savingInv_step hi hs
  refine ⟨sizes, t, ht, hf, ?_⟩
  rw [flagCovers_iff hinv, hf.savers, List.map_eq_nil_iff]

end

end Host
end VPerfetto
