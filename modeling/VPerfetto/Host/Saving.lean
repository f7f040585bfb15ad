/-
# The saving flag

`disableTracing`, the detached `asyncTraceSaveFunc` threads it starts, and the
flag `saving` that `enableTracing` and `waitSavingDone` look at. In this build
nothing ever sets the flag, so it covers the save exactly as long as no thread
is started.

Key definitions: `Saver`, `Saving`, `Saving.step`, `FlagCovers`, `StartsNoSaver`.
Key theorems: `savingInv_step`, `flagCovers_iff`, `flag_covers`.
-/
import VPerfetto.Lib.Runs
import VPerfetto.Host.Config
import VPerfetto.Host.Poll

namespace VPerfetto
namespace Host

open Runs

/-- Where `asyncTraceSaveFunc` is. -/
inductive SaverPhase where
  | started
  | polling (poll : Poll)
  | stable
  | written
deriving DecidableEq, Repr

/-- A thread that has not finished, with the session it saves and the sizes
its polls will find. -/
structure Saver where
  session : ℕ
  sizes : ℕ → ℤ
  phase : SaverPhase := .started

/-- The configuration and the threads. `ended` counts the sessions that have
ended, `settled` are those whose combined file has been written or skipped. -/
structure Saving where
  config : VirtualDeviceTraceConfig
  savers : List Saver := []
  ended : ℕ := 0
  settled : List ℕ := []

/-- What happens: a `setTraceConfig` callback that changes file names, whole
calls, and steps of a saver. `sizes` are what a saver started now will find. -/
inductive SavingEvent where
  | setTraceConfig (host guest combined : Option String)
  | enableTracing (env : Env)
  | disableTracing (sizes : ℕ → ℤ)
  | waitSavingDone
  | saver (i : ℕ)

namespace Saving

/-- The end of `saveTracesToDisk`: skip the combined file, or start a thread for it. -/
def afterHostFile (sizes : ℕ → ℤ) (s : Saving) : Saving :=
  if s.config.guestFilename.isNone || s.config.combinedFilename.isNone then
    { s with config := { s.config with saving := false }, settled := s.ended :: s.settled }
  else { s with savers := s.savers ++ [{ session := s.ended, sizes := sizes }] }

def disableTracing (sizes : ℕ → ℤ) (s : Saving) : Saving :=
  if s.config.endsSession then
    { s with config := s.config.disableTracing, ended := s.ended + 1 }.afterHostFile sizes
  else { s with config := s.config.disableTracing }

/-- Both exits of a saver clear the flag. -/
def finish (i : ℕ) (session : ℕ) (s : Saving) : Saving :=
  { s with
    config := { s.config with saving := false }
    savers := s.savers.eraseIdx i
    settled := session :: s.settled }

def setPhase (i : ℕ) (saver : Saver) (phase : SaverPhase) (s : Saving) : Saving :=
  { s with savers := s.savers.set i { saver with phase := phase } }

/-- The next step of saver `i`. -/
def saverStep (i : ℕ) (s : Saving) : Option Saving := do
  let saver ← s.savers[i]?
  match saver.phase with
  | .started => return s.setPhase i saver (.polling {})
  | .polling poll =>
    if !poll.done then return s.setPhase i saver (.polling (poll.next (saver.sizes poll.iter)))
    else if poll.good then return s.setPhase i saver .stable
    else return s.finish i saver.session
  | .stable => return s.setPhase i saver .written
  | .written => return s.finish i saver.session

def step (s : Saving) : SavingEvent → Option Saving
  | .setTraceConfig host guest combined => some { s with config := { s.config with
      hostFilename := host, guestFilename := guest, combinedFilename := combined } }
  | .enableTracing env => some { s with config := s.config.enableTracing env }
  | .disableTracing sizes => some (s.disableTracing sizes)
  | .waitSavingDone => if s.config.saving then none else some s
  | .saver i => s.saverStep i

end Saving

/-- The flag covers the save: while a saver has not finished the flag is set,
no session starts and there is no second saver, and `waitSavingDone` returns
only when the last session that ended has been dealt with. -/
structure FlagCovers (s : Saving) : Prop where
  covered : s.savers ≠ [] → s.config.saving = true
  noStart : s.savers ≠ [] → ∀ env, s.config.tracingDisabled = true →
    (s.config.enableTracing env).tracingDisabled = true
  atMostOne : s.savers.length ≤ 1
  waits : ∀ s', s.step .waitSavingDone = some s' → s.ended = 0 ∨ s.ended ∈ s.settled

/-- Before the first session. -/
def SavingInitial (s : Saving) : Prop :=
  ∃ config : VirtualDeviceTraceConfig, config.tracingDisabled = true ∧ config.saving = false ∧
    s = { config := config }

/-- A `disableTracing` that ends a session skips the combined file. -/
def StartsNoSaver (s : Saving) : SavingEvent → Prop
  | .disableTracing _ => s.config.endsSession = true →
    s.config.guestFilename = none ∨ s.config.combinedFilename = none
  | _ => True

section

variable {s s' : Saving}

theorem disableTracing_names (c : VirtualDeviceTraceConfig) :
    c.disableTracing.guestFilename = c.guestFilename ∧ c.disableTracing.combinedFilename = c.combinedFilename := by
  unfold VirtualDeviceTraceConfig.disableTracing
  split <;> exact ⟨rfl, rfl⟩

theorem disableTracing_saving {c : VirtualDeviceTraceConfig} (h : c.saving = false) :
    c.disableTracing.saving = false := by
  unfold VirtualDeviceTraceConfig.disableTracing
  split
  · exact h
  · simp [h]

theorem enableTracing_saving (env : Env) (c : VirtualDeviceTraceConfig) :
    (c.enableTracing env).saving = c.saving := by
  rcases c.enableTracing_cases env with ⟨-, -, -, he⟩ | he <;> rw [he] <;> rfl

/-- The flag is not set, and every session that has ended is dealt with or has a saver. -/
structure SavingInv (s : Saving) : Prop where
  saving : s.config.saving = false
  covered : ∀ n, 0 < n → n ≤ s.ended → n ∈ s.settled ∨ ∃ saver ∈ s.savers, saver.session = n

theorem SavingInv.disableTracing (h : SavingInv s) (sizes : ℕ → ℤ) : SavingInv (s.disableTracing sizes) := by
  have hflag := disableTracing_saving h.saving
  unfold Saving.disableTracing
  split
  · unfold Saving.afterHostFile
    dsimp only
    split
    · refine ⟨rfl, fun n hpos hn => ?_⟩
      rcases Nat.lt_or_eq_of_le hn with hlt | rfl
      · rcases h.covered n hpos (Nat.le_of_lt_succ hlt) with hm | hm
        · exact Or.inl (List.mem_cons_of_mem _ hm)
        · exact Or.inr hm
      · exact Or.inl List.mem_cons_self
    · refine ⟨hflag, fun n hpos hn => ?_⟩
      rcases Nat.lt_or_eq_of_le hn with hlt | rfl
      · rcases h.covered n hpos (Nat.le_of_lt_succ hlt) with hm | ⟨saver, hm, hs⟩
        · exact Or.inl hm
        · exact Or.inr ⟨saver, List.mem_append_left _ hm, hs⟩
      · exact Or.inr ⟨_, List.mem_append_right _ List.mem_cons_self, rfl⟩
  · exact ⟨hflag, h.covered⟩

theorem SavingInv.setPhase (h : SavingInv s) {i : ℕ} {saver : Saver} (hi : s.savers[i]? = some saver)
    (phase : SaverPhase) : SavingInv (s.setPhase i saver phase) := by
  refine ⟨h.saving, fun n hpos hn => ?_⟩
  rcases h.covered n hpos hn with hm | ⟨other, hm, hs⟩
  · exact Or.inl hm
  · obtain ⟨j, hj, rfl⟩ := List.getElem_of_mem hm
    apply Or.inr
    by_cases hij : i = j
    · subst hij
      have hsaver : s.savers[i] = saver := by
        rw [List.getElem?_eq_getElem hj] at hi
        exact Option.some.inj hi
      exact ⟨{ saver with phase := phase }, List.mem_of_getElem? (List.getElem?_set_self hj), hsaver ▸ hs⟩
    · have hkeep : (s.setPhase i saver phase).savers[j]? = some s.savers[j] := by
        unfold Saving.setPhase
        rw [List.getElem?_set_ne hij, List.getElem?_eq_getElem hj]
      exact ⟨s.savers[j], List.mem_of_getElem? hkeep, hs⟩

theorem SavingInv.finish (h : SavingInv s) {i : ℕ} {saver : Saver} (hi : s.savers[i]? = some saver) :
    SavingInv (s.finish i saver.session) := by
  refine ⟨rfl, fun n hpos hn => ?_⟩
  rcases h.covered n hpos hn with hm | ⟨other, hm, hs⟩
  · exact Or.inl (List.mem_cons_of_mem _ hm)
  · by_cases hsame : n = saver.session
    · rw [hsame]
      exact Or.inl List.mem_cons_self
    · obtain ⟨j, hj, rfl⟩ := List.getElem_of_mem hm
      refine Or.inr ⟨s.savers[j], List.mem_eraseIdx_iff_getElem.mpr ⟨j, hj, ?_, rfl⟩, hs⟩
      rintro rfl
      rw [List.getElem?_eq_getElem hj, Option.some_inj] at hi
      exact hsame (hs ▸ congrArg Saver.session hi)

theorem savingInv_step {e : SavingEvent} (h : SavingInv s) (hs : s.step e = some s') : SavingInv s' := by
  cases e with
  | setTraceConfig host guest combined =>
    obtain rfl := Option.some.inj hs
    exact ⟨h.saving, h.covered⟩
  | enableTracing env =>
    obtain rfl := Option.some.inj hs
    exact ⟨(enableTracing_saving env _).trans h.saving, h.covered⟩
  | disableTracing sizes =>
    obtain rfl := Option.some.inj hs
    exact h.disableTracing sizes
  | waitSavingDone =>
    simp only [Saving.step, h.saving, Bool.false_eq_true, if_false, Option.some.injEq] at hs
    exact hs ▸ h
  | saver i =>
    simp only [Saving.step, Saving.saverStep, Option.bind_eq_bind, Option.bind_eq_some_iff] at hs
    obtain ⟨saver, hi, hs⟩ := hs
    split at hs
    · obtain rfl := Option.some.inj hs
      exact h.setPhase hi _
    · split at hs
      · obtain rfl := Option.some.inj hs
        exact h.setPhase hi _
      · split at hs
        · obtain rfl := Option.some.inj hs
          exact h.setPhase hi _
        · obtain rfl := Option.some.inj hs
          exact h.finish hi
    · obtain rfl := Option.some.inj hs
      exact h.setPhase hi _
    · obtain rfl := Option.some.inj hs
      exact h.finish hi

/-- No step sets the flag, so it covers the save exactly while there is none. -/
theorem flagCovers_iff (h : SavingInv s) : FlagCovers s ↔ s.savers = [] := by
  constructor
  · intro hf
    by_contra hne
    have hs := hf.covered hne
    rw [h.saving] at hs
    exact Bool.false_ne_true hs
  · intro hnil
    refine ⟨fun hne => absurd hnil hne, fun hne => absurd hnil hne, by simp [hnil], fun _ _ => ?_⟩
    rcases Nat.eq_zero_or_pos s.ended with h0 | hpos
    · exact Or.inl h0
    · rcases h.covered s.ended hpos (Nat.le_refl _) with hm | ⟨saver, hm, -⟩
      · exact Or.inr hm
      · rw [hnil] at hm
        exact absurd hm List.not_mem_nil

theorem savers_nil_step {e : SavingEvent} (h : s.savers = []) (hok : StartsNoSaver s e)
    (hs : s.step e = some s') : s'.savers = [] := by
  cases e with
  | setTraceConfig host guest combined => exact (Option.some.inj hs) ▸ h
  | enableTracing env => exact (Option.some.inj hs) ▸ h
  | disableTracing sizes =>
    obtain rfl := Option.some.inj hs
    unfold Saving.disableTracing
    split
    · rename_i he
      obtain ⟨hg, hc⟩ := disableTracing_names s.config
      have hskip : s.config.disableTracing.guestFilename.isNone ||
          s.config.disableTracing.combinedFilename.isNone := by
        rw [hg, hc]
        rcases hok he with h1 | h1 <;> simp [h1]
      unfold Saving.afterHostFile
      rw [if_pos hskip]
      exact h
    · exact h
  | waitSavingDone =>
    simp only [Saving.step] at hs
    split at hs
    · exact absurd hs.symm (Option.some_ne_none _)
    · exact (Option.some.inj hs) ▸ h
  | saver i => simp [Saving.step, Saving.saverStep, h] at hs

theorem saving_initial (h : SavingInitial s) : SavingInv s ∧ s.savers = [] := by
  obtain ⟨config, -, hsaving, rfl⟩ := h
  exact ⟨⟨hsaving, fun n hpos hn => absurd hn (Nat.not_le.mpr hpos)⟩, rfl⟩

/-- **The flag covers the save** in every run in which no saver is started. -/
theorem flag_covers (h : Reach SavingInitial (fun s e s' => s.step e = some s') StartsNoSaver s) :
    FlagCovers s := by
  obtain ⟨hinv, hnil⟩ : SavingInv s ∧ s.savers = [] := by
    refine Reach.inv (P := fun s => SavingInv s ∧ s.savers = []) (fun _ => saving_initial) ?_ h
    rintro s e s' ⟨hinv, hnil⟩ hok hs
    exact ⟨savingInv_step hinv hs, savers_nil_step hnil hok hs⟩
  exact (flagCovers_iff hinv).mpr hnil

/-- A session without a combined file. -/
theorem flag_covers_hostOnly :
    ∃ s, run Saving.step { config := { hostFilename := some "host" } }
        [.enableTracing {}, .disableTracing fun _ => 0, .waitSavingDone] = some s ∧
      s.ended = 1 ∧ FlagCovers s := by
  refine ⟨_, rfl, rfl, flag_covers ?_⟩
  have h0 : Reach SavingInitial (fun s e s' => Saving.step s e = some s') StartsNoSaver
      { config := { hostFilename := some "host" } } := .init ⟨_, rfl, rfl, rfl⟩
  have h1 := h0.step (a := .enableTracing {}) (by exact trivial) rfl
  have h2 := h1.step (a := .disableTracing fun _ => 0) (by exact fun _ => Or.inl rfl) rfl
  exact h2.step (a := .waitSavingDone) (by exact trivial) rfl

/-- And in no state just after a saver was started. -/
theorem not_flagCovers_of_saver (h : SavingInv s) {sizes : ℕ → ℤ} (he : s.config.endsSession = true)
    (hg : s.config.guestFilename ≠ none) (hc : s.config.combinedFilename ≠ none) :
    ¬ FlagCovers (s.disableTracing sizes) := by
  rw [flagCovers_iff (h.disableTracing sizes)]
  obtain ⟨hg', hc'⟩ := disableTracing_names s.config
  have hstart : ¬ (s.config.disableTracing.guestFilename.isNone ||
      s.config.disableTracing.combinedFilename.isNone) = true := by
    rw [hg', hc']
    simpa using ⟨hg, hc⟩
  unfold Saving.disableTracing Saving.afterHostFile
  rw [if_pos he, if_neg hstart]
  simp

/-- With all three file names set, a session that ends has a saver and a
cleared flag. -/
theorem saver_uncovered :
    ∃ s, Reach SavingInitial (fun s e s' => Saving.step s e = some s') (fun _ _ => True) s ∧ ¬ FlagCovers s := by
  have h0 : Reach SavingInitial (fun s e s' => Saving.step s e = some s') (fun _ _ => True)
      { config := {} } := .init ⟨_, rfl, rfl, rfl⟩
  have h1 := Reach.run [.setTraceConfig (some "host") (some "guest") (some "combined"), .enableTracing {},
    .disableTracing fun _ => 10] (fun _ _ => trivial) h0 rfl
  exact ⟨_, h1, fun hf => absurd (hf.covered (List.cons_ne_nil _ _)) Bool.false_ne_true⟩

end

end Host
end VPerfetto
