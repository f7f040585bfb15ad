/-
# A program that waits for its saves

The test program of `vperfetto-sdk.cpp` ends each of its sessions with
`disableTracing` and `waitSavingDone`. Here the client is any list of such
calls, and each of its turns may come before or after a step of the saver.

`Synchronous` says what such a program is for: its `disableTracing` has the
files written when it returns. A client that waits cannot tell the two apart:
in the end it has the same files, whatever the order of the turns, and it gets
there (`waiting_client_synchronous`).

Key definitions: `Command`, `ClientState`, `ClientState.step`, `Synchronous`, `WaitsAfterSessions`.
Key theorems: `ClientInv.step`, `ClientInv.enabled`, `waiting_client_synchronous`.
-/
import VPerfetto.Lib.Potential
import VPerfetto.Sdk.Session

namespace VPerfetto
namespace Sdk

open Runs Wire Host

/-- What a save gets from the guest and from the uuid generator: the sizes
that the polls find, and the file that is read after them. -/
structure Guest where
  sizes : ℕ → ℤ := fun _ => 0
  file : Option Bytes := none
  gen : ℕ → UInt64 := fun _ => 0

/-- A guest file whose size settles can be read. -/
def Guest.Readable (guest : Guest) : Prop := Stabilises guest.sizes → guest.file.isSome = true

inductive Call where
  | setTraceConfig (host guest combined : Option String)
  | setGuestTime (t now : UInt64)
  | enableTracing (env : Env)
  | disableTracing (trace : Bytes) (guest : Guest)

def Call.event : Call → Event
  | .setTraceConfig host guest combined => .setTraceConfig host guest combined
  | .setGuestTime t now => .setGuestTime t now
  | .enableTracing env => .enableTracing env
  | .disableTracing trace guest => .disableTracing trace guest.sizes

/-- The guest that the next save has to do with. -/
def Call.guest (last : Guest) : Call → Guest
  | .disableTracing _ guest => guest
  | _ => last

inductive Command where
  | call (c : Call)
  | waitSavingDone

/-- Each `disableTracing` has a `waitSavingDone` right after it. -/
def WaitsAfterSessions : List Command → Prop
  | [] => True
  | .call (.disableTracing _ _) :: .waitSavingDone :: rest => WaitsAfterSessions rest
  | .call (.disableTracing _ _) :: _ => False
  | _ :: rest => WaitsAfterSessions rest

def callsOf : List Command → List Call
  | [] => []
  | .call c :: rest => c :: callsOf rest
  | .waitSavingDone :: rest => callsOf rest

/-- The library and what its client still has to do. -/
structure ClientState where
  sdk : SdkState
  commands : List Command
  guest : Guest := {}

inductive Turn where
  | client
  | saver (i : ℕ)

/-- A round of `waitSavingDone` that finds the flag set changes nothing. -/
def ClientState.step {ρ : Type} (P : Merge.Protobuf ρ) (s : ClientState) : Turn → Option ClientState
  | .client =>
    match s.commands with
    | [] => none
    | .call c :: rest =>
      (s.sdk.step P { event := c.event }).map fun sdk =>
        { sdk := sdk, commands := rest, guest := c.guest s.guest }
    | .waitSavingDone :: rest => if s.sdk.config.saving then none else some { s with commands := rest }
  | .saver i =>
    (s.sdk.step P { event := .saver i, guestFile := s.guest.file, gen := s.guest.gen }).map fun sdk =>
      { s with sdk := sdk }

/-- The client before its first command. -/
def ClientState.start (config : VirtualDeviceTraceConfig) (commands : List Command) : ClientState :=
  { sdk := { config := config }, commands := commands }

/-! ### What the client is for -/

/-- The configuration, whether a session is live, and the files that were
written, each with its name. -/
structure Synchronous where
  config : VirtualDeviceTraceConfig
  session : Bool := false
  hostFiles : List (Option String × Bytes) := []
  combinedFiles : List (Option String × Bytes) := []

/-- The files of a session that ends with this configuration. -/
def savedFiles {ρ : Type} (P : Merge.Protobuf ρ) (c : VirtualDeviceTraceConfig) (trace : Bytes) (guest : Guest) :
    List (Option String × Bytes) × List (Option String × Bytes) :=
  if State.skipsCombined c then ([(c.hostFilename, trace)], [])
  else if Stabilises guest.sizes then ([(c.hostFilename, trace)],
    [(c.combinedFilename, Merge.constructCombinedTrace P guest.gen (guest.file.getD []) trace c.guestTimeDiff)])
  else ([], [])

def Synchronous.step {ρ : Type} (P : Merge.Protobuf ρ) (t : Synchronous) : Call → Synchronous
  | .setTraceConfig host guest combined => { t with config := { t.config with
      hostFilename := host, guestFilename := guest, combinedFilename := combined } }
  | .setGuestTime time now => { t with config := t.config.setGuestTime time now }
  | .enableTracing env =>
    let c := t.config.useEnv env
    if c.hostFilename.isSome && !t.session then
      { t with config := { c with tracingDisabled := false }, session := true }
    else { t with config := c }
  | .disableTracing trace guest =>
    if t.session then
      { config := { t.config with tracingDisabled := true }
        session := false
        hostFiles := t.hostFiles ++ (savedFiles P t.config trace guest).1
        combinedFiles := t.combinedFiles ++ (savedFiles P t.config trace guest).2 }
    else t

/-! ### While a save goes on -/

/-- What the saver still has to write. -/
def pending {ρ : Type} (P : Merge.Protobuf ρ) (s : ClientState) (saver : Saver) :
    List (Option String × Bytes) × List (Option String × Bytes) :=
  let host := [(saver.hostFilename, s.sdk.hostTrace)]
  match saver.phase with
  | .started | .polling _ => savedFiles P s.sdk.config s.sdk.hostTrace s.guest
  | .stable => (host, [(saver.combinedFilename, Merge.constructCombinedTrace P s.guest.gen
      (s.guest.file.getD []) s.sdk.hostTrace s.sdk.config.guestTimeDiff)])
  | .merged => (host, [(saver.combinedFilename, s.sdk.combinedTrace)])
  | .hostWritten => ([], [(saver.combinedFilename, s.sdk.combinedTrace)])

/-- Where the saver is, it works for the client's guest and with the names of the session. -/
def SaverAt (s : ClientState) (saver : Saver) : Prop :=
  match saver.phase with
  | .started => saver.sizes = s.guest.sizes
  | .polling poll => saver.sizes = s.guest.sizes ∧ Poll.Counts saver.sizes poll ∧
      saver.hostFilename = s.sdk.config.hostFilename ∧ saver.combinedFilename = s.sdk.config.combinedFilename
  | .stable => s.guest.file.isSome = true
  | .merged | .hostWritten => True

/-- Nothing is being saved and the files are there. -/
structure Settled (s : ClientState) (t : Synchronous) : Prop where
  savers : s.sdk.savers = []
  config : s.sdk.config = t.config
  hostFiles : s.sdk.hostWrites = t.hostFiles
  combinedFiles : s.sdk.combinedWrites = t.combinedFiles

/-- One saver is there, and with what it still has to write the files are there. -/
structure Saves {ρ : Type} (P : Merge.Protobuf ρ) (s : ClientState) (t : Synchronous) (saver : Saver) : Prop where
  savers : s.sdk.savers = [saver]
  config : { s.sdk.config with saving := false } = t.config
  combined : State.skipsCombined s.sdk.config = false
  at_phase : SaverAt s saver
  hostFiles : s.sdk.hostWrites ++ (pending P s saver).1 = t.hostFiles
  combinedFiles : s.sdk.combinedWrites ++ (pending P s saver).2 = t.combinedFiles

/-- The synchronous program with the same calls behind it, and the same to come. -/
structure ClientInv {ρ : Type} (P : Merge.Protobuf ρ) (final : Synchronous) (s : ClientState) : Prop where
  sessionState : SessionState s.sdk.toState
  readable : s.guest.Readable ∧ ∀ trace guest, .disableTracing trace guest ∈ callsOf s.commands → guest.Readable
  along : ∃ t, (callsOf s.commands).foldl (Synchronous.step P) t = final ∧ s.sdk.session = t.session ∧
    ((Settled s t ∧ (WaitsAfterSessions s.commands)) ∨
      ∃ saver rest, Saves P s t saver ∧ s.commands = .waitSavingDone :: rest ∧ WaitsAfterSessions rest)

/-- The turns that a command may still need, its save included. -/
def Command.work : Command → ℕ
  | .call (.disableTracing _ _) => kMaxIters + 6
  | _ => 1

/-- The steps that a saver can still make. -/
def SaverPhase.work : SaverPhase → ℕ
  | .started => kMaxIters + 5
  | .polling poll => kMaxIters - poll.iter + 4
  | .stable => 3
  | .merged => 2
  | .hostWritten => 1

def ClientState.work (s : ClientState) : ℕ :=
  (s.commands.map Command.work).sum + (s.sdk.savers.map fun saver => saver.phase.work).sum

section

variable {ρ : Type} {P : Merge.Protobuf ρ} {s s' : ClientState} {t final : Synchronous} {saver : Saver}

theorem WaitsAfterSessions.tail {c : Command} {rest : List Command} (h : WaitsAfterSessions (c :: rest)) :
    WaitsAfterSessions rest := by
  unfold WaitsAfterSessions at h
  split at h
  · rename_i heq
    exact absurd heq (List.cons_ne_nil _ _)
  · rename_i rest' heq
    obtain ⟨-, rfl⟩ := List.cons.inj heq
    exact h
  · exact h.elim
  · rename_i heq
    obtain ⟨-, rfl⟩ := List.cons.inj heq
    exact h

theorem WaitsAfterSessions.wait {trace : Bytes} {guest : Guest} {rest : List Command}
    (h : WaitsAfterSessions (.call (.disableTracing trace guest) :: rest)) :
    ∃ rest', rest = .waitSavingDone :: rest' ∧ WaitsAfterSessions rest' := by
  cases rest with
  | nil => exact h.elim
  | cons c rest =>
    cases c with
    | call c => exact h.elim
    | waitSavingDone => exact ⟨rest, rfl, h⟩

theorem savedFiles_stable {c : VirtualDeviceTraceConfig} (hc : State.skipsCombined c = false) (trace : Bytes)
    {guest : Guest} (hg : Stabilises guest.sizes) : savedFiles P c trace guest =
      ([(c.hostFilename, trace)], [(c.combinedFilename,
        Merge.constructCombinedTrace P guest.gen (guest.file.getD []) trace c.guestTimeDiff)]) := by
  unfold savedFiles
  rw [hc, if_neg Bool.false_ne_true, if_pos hg]

theorem savedFiles_timedOut {c : VirtualDeviceTraceConfig} (hc : State.skipsCombined c = false) (trace : Bytes)
    {guest : Guest} (hg : ¬ Stabilises guest.sizes) : savedFiles P c trace guest = ([], []) := by
  unfold savedFiles
  rw [hc, if_neg Bool.false_ne_true, if_neg hg]

/-- A poll loop that ends without a size ends because the size did not settle. -/
theorem Poll.not_stabilises {sizes : ℕ → ℤ} {p : Poll} (h : Poll.Counts sizes p) (hd : p.done = true)
    (hg : p.good = false) : ¬ Stabilises sizes := by
  intro hst
  rw [Poll.good_of_stabilises h hd hst] at hg
  exact Bool.noConfusion hg

/-- A step of the saver: it goes on, with less to do, or all is written. -/
theorem Saves.saverStep {i : ℕ} (h : Saves P s t saver) (hread : s.guest.Readable)
    (hs : s.step P (.saver i) = some s') : s'.commands = s.commands ∧ s'.guest = s.guest ∧
      s'.sdk.session = s.sdk.session ∧
      (Settled s' t ∨ ∃ saver', Saves P s' t saver' ∧ saver'.phase.work < saver.phase.work) := by
  obtain ⟨sdk, hsdk, rfl⟩ := Option.map_eq_some_iff.mp hs
  simp only [SdkState.step, SdkState.saverStep, Option.bind_eq_bind, Option.bind_eq_some_iff] at hsdk
  obtain ⟨saver₁, hi₁, s₁, hs₁, hsdk⟩ := hsdk
  obtain ⟨saver₂, hi₂, hmove⟩ := State.saverStep_moves hs₁
  obtain rfl : saver₁ = saver₂ := Option.some.inj (hi₁.symm.trans hi₂)
  -- there is one saver, so it is the one that moves
  obtain ⟨rfl, rfl⟩ : i = 0 ∧ saver₁ = saver := by
    rw [h.savers] at hi₁
    cases i with
    | zero => exact ⟨rfl, (Option.some.inj hi₁).symm⟩
    | succ i => exact absurd hi₁.symm (Option.some_ne_none _)
  have hset : ∀ x, (s.sdk.toState.setSaver 0 x).savers = [x] := by
    intro x
    unfold State.setSaver
    rw [h.savers]
    rfl
  have herase : s.sdk.savers.eraseIdx 0 = [] := by
    rw [h.savers]
    rfl
  have hat := h.at_phase
  have hhost := h.hostFiles
  have hcombined := h.combinedFiles
  unfold SaverAt at hat
  unfold pending at hhost hcombined
  cases hmove with
  | copyNames hp =>
    simp only [hp] at hsdk hat hhost hcombined
    obtain rfl := Option.some.inj hsdk
    refine ⟨rfl, rfl, rfl, Or.inr ⟨_, ⟨hset _, h.config, h.combined, ?_, hhost, hcombined⟩, ?_⟩⟩
    · exact ⟨hat, Poll.counts_start _, rfl, rfl⟩
    · rw [hp]
      exact (by decide : kMaxIters - 0 + 4 < kMaxIters + 5)
  | poll poll hp hd =>
    simp only [hp, hd, Bool.false_and, Bool.false_eq_true, if_false] at hsdk hat hhost hcombined
    obtain rfl := Option.some.inj hsdk
    obtain ⟨hsizes, hcounts, hnames⟩ := hat
    refine ⟨rfl, rfl, rfl, Or.inr ⟨_, ⟨hset _, h.config, h.combined, ?_, hhost, hcombined⟩, ?_⟩⟩
    · exact ⟨hsizes, Poll.counts_next hcounts hd, hnames⟩
    · rw [hp]
      have hlt := Poll.iter_lt hd hcounts.iter_le
      simp only [SaverPhase.work, Poll.next_iter]
      omega
  | settle poll hp hd hg =>
    simp only [hp, hd, hg, Bool.not_true, Bool.and_false, Bool.false_eq_true, if_false] at hsdk hat hhost hcombined
    obtain rfl := Option.some.inj hsdk
    obtain ⟨hsizes, hcounts, hhostname, hcombinedname⟩ := hat
    have hst : Stabilises s.guest.sizes := by
      rw [← hsizes]
      exact Poll.stabilises_of_good hcounts hg
    rw [savedFiles_stable h.combined _ hst] at hhost hcombined
    refine ⟨rfl, rfl, rfl, Or.inr ⟨_, ⟨hset _, h.config, h.combined, hread hst, ?_, ?_⟩, ?_⟩⟩
    · unfold pending
      rw [hhostname]
      exact hhost
    · unfold pending
      rw [hcombinedname]
      exact hcombined
    · rw [hp]
      simp only [SaverPhase.work]
      omega
  | timeOut poll hp hd hg =>
    simp only [hp, hd, hg, Bool.not_false, Bool.and_self, if_true] at hsdk hat hhost hcombined
    obtain rfl := Option.some.inj hsdk
    obtain ⟨hsizes, hcounts, -⟩ := hat
    have hst : ¬ Stabilises s.guest.sizes := by
      rw [← hsizes]
      exact Poll.not_stabilises hcounts hd hg
    rw [savedFiles_timedOut h.combined _ hst, List.append_nil] at hhost hcombined
    exact ⟨rfl, rfl, rfl, Or.inl ⟨herase, h.config, hhost, hcombined⟩⟩
  | merge hp =>
    simp only [hp] at hsdk hat hhost hcombined
    obtain ⟨file, hfile, hsdk⟩ := Option.bind_eq_some_iff.mp hsdk
    obtain rfl := Option.some.inj hsdk
    refine ⟨rfl, rfl, rfl, Or.inr ⟨_, ⟨hset _, h.config, h.combined, trivial, hhost, ?_⟩, ?_⟩⟩
    · unfold pending
      rw [hfile, Option.getD_some] at hcombined
      exact hcombined
    · rw [hp]
      exact Nat.lt_succ_self 2
  | writeHost hp =>
    simp only [hp] at hsdk hat hhost hcombined
    obtain rfl := Option.some.inj hsdk
    refine ⟨rfl, rfl, rfl, Or.inr ⟨_, ⟨hset _, h.config, h.combined, trivial, ?_, hcombined⟩, ?_⟩⟩
    · exact (List.append_nil _).trans hhost
    · rw [hp]
      exact Nat.lt_succ_self 1
  | finish hp =>
    simp only [hp] at hsdk hat hhost hcombined
    obtain rfl := Option.some.inj hsdk
    rw [List.append_nil] at hhost
    exact ⟨rfl, rfl, rfl, Or.inl ⟨herase, h.config, hhost, hcombined⟩⟩

/-- While nothing is being saved a session begins unless one is live or there is no name for it. -/
theorem SessionState.enableTracing_eq {s : State} (h : SessionState s) (hs : s.config.saving = false) (env : Env) :
    s.enableTracing env =
      if (s.config.useEnv env).hostFilename.isSome && !s.session then
        { s with config := { s.config.useEnv env with tracingDisabled := false }, session := true }
      else { s with config := s.config.useEnv env } := by
  have hdisabled : (!s.config.tracingDisabled) = s.session := by
    rw [Bool.eq_iff_iff, Bool.not_eq_true', h.session_iff]
  have hcond : ((s.config.useEnv env).hostFilename.isNone || !(s.config.useEnv env).tracingDisabled ||
      (s.config.useEnv env).saving || s.session) =
        !((s.config.useEnv env).hostFilename.isSome && !s.session) := by
    rw [show (s.config.useEnv env).tracingDisabled = s.config.tracingDisabled from rfl, hdisabled,
      show (s.config.useEnv env).saving = s.config.saving from rfl, hs]
    cases (s.config.useEnv env).hostFilename <;> cases s.session <;> rfl
  unfold State.enableTracing
  simp only [hcond]
  cases (s.config.useEnv env).hostFilename.isSome && !s.session <;> rfl

theorem Settled.saving_false (h : Settled s t) (hstate : SessionState s.sdk.toState) :
    s.sdk.config.saving = false := by
  by_contra hne
  have hone := hstate.saving_iff.mp (by simpa using hne)
  rw [h.savers] at hone
  exact absurd hone (by decide)

theorem Synchronous.step_disableTracing (hs : t.session = true) (trace : Bytes) (guest : Guest) :
    t.step P (.disableTracing trace guest) =
      { config := { t.config with tracingDisabled := true }
        session := false
        hostFiles := t.hostFiles ++ (savedFiles P t.config trace guest).1
        combinedFiles := t.combinedFiles ++ (savedFiles P t.config trace guest).2 } := by
  unfold step
  dsimp only
  rw [if_pos hs]

/-- The end of a session: its files are there, or it leaves a save to wait for. -/
theorem Settled.disableTracing (h : Settled s t) (hstate : SessionState s.sdk.toState)
    (hsession : s.sdk.session = t.session) (trace : Bytes) (guest : Guest) {sdk : State}
    (hsdk : sdk = s.sdk.toState.disableTracing trace guest.sizes) (rest : List Command) (hs' : s' =
      { sdk := s.sdk.afterCall sdk, commands := rest, guest := guest }) :
    s'.sdk.session = (t.step P (.disableTracing trace guest)).session ∧
      (Settled s' (t.step P (.disableTracing trace guest)) ∨
        ∃ saver, Saves P s' (t.step P (.disableTracing trace guest)) saver ∧ saver.phase.work = kMaxIters + 5) := by
  have hsaving := h.saving_false hstate
  obtain ⟨hsavers, hconfig, hhost, hcombined⟩ := h
  subst hs'
  rcases State.disableTracing_cases trace guest.sizes s.sdk.toState with
    ⟨hs, heq⟩ | ⟨-, hv, -⟩ | ⟨hs, -, hskip, heq⟩ | ⟨hs, -, hskip, heq⟩
  · have ht : t.step P (.disableTracing trace guest) = t := by
      unfold Synchronous.step
      dsimp only
      rw [← hsession, hs, if_neg Bool.false_ne_true]
    rw [ht, hsdk, heq]
    exact ⟨hsession, Or.inl ⟨hsavers, hconfig, hhost, hcombined⟩⟩
  · rw [hsaving] at hv
    exact Bool.noConfusion hv
  · rw [Synchronous.step_disableTracing (hsession ▸ hs), ← hconfig, savedFiles, if_pos hskip, List.append_nil, hsdk,
      heq]
    refine ⟨rfl, Or.inl ⟨hsavers, ?_, ?_, hcombined⟩⟩
    · exact congrArg (fun saving => { s.sdk.config with tracingDisabled := true, saving := saving }) hsaving.symm
    · exact congrArg (· ++ _) hhost
  · rw [Synchronous.step_disableTracing (hsession ▸ hs), ← hconfig, hsdk, heq]
    refine ⟨rfl, Or.inr ⟨{ sizes := guest.sizes }, ⟨?_, ?_, hskip, rfl, ?_, ?_⟩, rfl⟩⟩
    · exact congrArg (· ++ _) hsavers
    · exact congrArg (fun saving => { s.sdk.config with tracingDisabled := true, saving := saving }) hsaving.symm
    · exact congrArg (· ++ _) hhost
    · exact congrArg (· ++ _) hcombined

/-- A call while nothing is being saved does what it does to the synchronous
program, or leaves it a save to wait for. -/
theorem Settled.call {c : Call} {rest : List Command} (h : Settled s t) (hstate : SessionState s.sdk.toState)
    (hsession : s.sdk.session = t.session) (hc : s.commands = .call c :: rest) (hs : s.step P .client = some s') :
    s'.commands = rest ∧ s'.guest = c.guest s.guest ∧ s'.sdk.session = (t.step P c).session ∧
      (Settled s' (t.step P c) ∨ ((∃ trace guest, c = .disableTracing trace guest) ∧
        ∃ saver, Saves P s' (t.step P c) saver ∧ saver.phase.work = kMaxIters + 5)) := by
  simp only [ClientState.step, hc] at hs
  obtain ⟨sdk, hsdk, rfl⟩ := Option.map_eq_some_iff.mp hs
  refine ⟨rfl, rfl, ?_⟩
  cases c with
  | setTraceConfig host guest combined =>
    obtain rfl := Option.some.inj hsdk
    refine ⟨hsession, Or.inl ⟨h.savers, ?_, h.hostFiles, h.combinedFiles⟩⟩
    exact congrArg (fun c : VirtualDeviceTraceConfig =>
      { c with hostFilename := host, guestFilename := guest, combinedFilename := combined }) h.config
  | setGuestTime time now =>
    obtain rfl := Option.some.inj hsdk
    refine ⟨hsession, Or.inl ⟨h.savers, ?_, h.hostFiles, h.combinedFiles⟩⟩
    exact congrArg (fun c : VirtualDeviceTraceConfig => c.setGuestTime time now) h.config
  | enableTracing env =>
    obtain rfl := Option.some.inj hsdk
    unfold Synchronous.step
    dsimp only
    rw [← h.config, ← hsession, hstate.enableTracing_eq (h.saving_false hstate)]
    split
    · exact ⟨rfl, Or.inl ⟨h.savers, rfl, h.hostFiles, h.combinedFiles⟩⟩
    · exact ⟨rfl, Or.inl ⟨h.savers, rfl, h.hostFiles, h.combinedFiles⟩⟩
  | disableTracing trace guest =>
    obtain rfl := Option.some.inj hsdk
    obtain ⟨hsession', hsettled | ⟨saver, hsaves, hwork⟩⟩ :=
      h.disableTracing (P := P) hstate hsession trace guest rfl rest rfl
    · exact ⟨hsession', Or.inl hsettled⟩
    · exact ⟨hsession', Or.inr ⟨⟨trace, guest, rfl⟩, saver, hsaves, hwork⟩⟩

theorem ClientState.step_sessionState {turn : Turn} (h : SessionState s.sdk.toState)
    (hs : s.step P turn = some s') : SessionState s'.sdk.toState := by
  cases turn with
  | client =>
    simp only [ClientState.step] at hs
    split at hs
    · cases hs
    · obtain ⟨sdk, hsdk, rfl⟩ := Option.map_eq_some_iff.mp hs
      exact h.step (SdkState.step_toState hsdk)
    · obtain ⟨-, hs⟩ := Option.ite_none_left_eq_some.mp hs
      obtain rfl := Option.some.inj hs
      exact h
  | saver i =>
    obtain ⟨sdk, hsdk, rfl⟩ := Option.map_eq_some_iff.mp hs
    exact h.step (SdkState.step_toState hsdk)

theorem Saves.saving (h : Saves P s t saver) (hstate : SessionState s.sdk.toState) : s.sdk.config.saving = true := by
  apply hstate.saving_iff.mpr
  rw [h.savers]
  rfl

theorem Saves.work_eq (h : Saves P s t saver) :
    s.work = (s.commands.map Command.work).sum + saver.phase.work := by
  unfold ClientState.work
  rw [h.savers]
  rfl

theorem Settled.work_eq (h : Settled s t) : s.work = (s.commands.map Command.work).sum := by
  unfold ClientState.work
  rw [h.savers]
  rfl

/-- A turn keeps the client on the way to the same end, with less to do. -/
theorem ClientInv.step {turn : Turn} (h : ClientInv P final s) (hs : s.step P turn = some s') :
    ClientInv P final s' ∧ s'.work < s.work := by
  obtain ⟨hstate, ⟨hread, hreads⟩, t, hfinal, hsession, hcase⟩ := h
  have hstate' := ClientState.step_sessionState hstate hs
  cases turn with
  | saver i =>
    rcases hcase with ⟨hsettled, -⟩ | ⟨saver, rest, hsaves, hcommands, hwaits⟩
    · obtain ⟨sdk, hsdk, -⟩ := Option.map_eq_some_iff.mp hs
      obtain ⟨saver, hi, -⟩ := State.saverStep_moves (SdkState.saverStep_toState hsdk)
      rw [hsettled.savers] at hi
      exact absurd hi.symm (Option.some_ne_none _)
    · obtain ⟨hc, hg, hsess, hnext⟩ := hsaves.saverStep hread hs
      have hold := hsaves.work_eq
      rcases hnext with hsettled | ⟨saver', hsaves', hlt⟩
      · refine ⟨⟨hstate', ⟨hg ▸ hread, hc ▸ hreads⟩, t, hc ▸ hfinal, hsess.trans hsession, Or.inl ⟨hsettled, ?_⟩⟩, ?_⟩
        · rw [hc, hcommands]
          exact hwaits
        · rw [hold, hsettled.work_eq, hc]
          have hpos : 0 < saver.phase.work := by
            cases saver.phase with
            | polling poll => exact Nat.succ_pos _
            | started | stable | merged | hostWritten => decide
          omega
      · refine ⟨⟨hstate', ⟨hg ▸ hread, hc ▸ hreads⟩, t, hc ▸ hfinal, hsess.trans hsession,
          Or.inr ⟨saver', rest, hsaves', hc.trans hcommands, hwaits⟩⟩, ?_⟩
        rw [hold, hsaves'.work_eq, hc]
        omega
  | client =>
    rcases hcase with ⟨hsettled, hwaits⟩ | ⟨saver, rest, hsaves, hcommands, -⟩
    · have hold := hsettled.work_eq
      cases hc : s.commands with
      | nil =>
        simp only [ClientState.step, hc] at hs
        cases hs
      | cons command rest =>
        rw [hc] at hold hwaits hfinal hreads
        cases command with
        | waitSavingDone =>
          simp only [ClientState.step, hc] at hs
          obtain ⟨-, hs⟩ := Option.ite_none_left_eq_some.mp hs
          obtain rfl := Option.some.inj hs
          have hsettled' : Settled { s with commands := rest } t :=
            ⟨hsettled.savers, hsettled.config, hsettled.hostFiles, hsettled.combinedFiles⟩
          refine ⟨⟨hstate, ⟨hread, hreads⟩, t, hfinal, hsession, Or.inl ⟨hsettled', hwaits.tail⟩⟩, ?_⟩
          rw [hold, hsettled'.work_eq, List.map_cons, List.sum_cons]
          exact Nat.lt_add_of_pos_left Nat.one_pos
        | call c =>
          obtain ⟨hrest, hguest, hsession', hnext⟩ := hsettled.call hstate hsession hc hs
          have hread' : s'.guest.Readable := by
            rw [hguest]
            cases c with
            | disableTracing trace guest => exact hreads trace guest List.mem_cons_self
            | setTraceConfig | setGuestTime | enableTracing => exact hread
          have hreads' : ∀ trace guest, .disableTracing trace guest ∈ callsOf s'.commands → guest.Readable := by
            intro trace guest hmem
            rw [hrest] at hmem
            exact hreads trace guest (List.mem_cons_of_mem _ hmem)
          have hfinal' : (callsOf s'.commands).foldl (Synchronous.step P) (t.step P c) = final := by
            rw [hrest]
            exact hfinal
          have hwork : (rest.map Command.work).sum + (Command.call c).work = s.work := by
            rw [hold, List.map_cons, List.sum_cons, Nat.add_comm]
          rcases hnext with hsettled' | ⟨⟨trace, guest, rfl⟩, saver, hsaves', hsaver⟩
          · refine ⟨⟨hstate', ⟨hread', hreads'⟩, _, hfinal', hsession', Or.inl ⟨hsettled', ?_⟩⟩, ?_⟩
            · rw [hrest]
              exact hwaits.tail
            · rw [← hwork, hsettled'.work_eq, hrest]
              cases c <;> exact Nat.lt_add_of_pos_right (Nat.succ_pos _)
          · obtain ⟨rest', hwait, hwaits'⟩ := hwaits.wait
            refine ⟨⟨hstate', ⟨hread', hreads'⟩, _, hfinal', hsession',
              Or.inr ⟨saver, rest', hsaves', hrest.trans hwait, hwaits'⟩⟩, ?_⟩
            rw [← hwork, hsaves'.work_eq, hrest, hsaver]
            exact Nat.lt_succ_self _
    · -- the flag is set, so the client goes on waiting
      simp [ClientState.step, hcommands, hsaves.saving hstate] at hs

/-- A saver that is there can make its next step. -/
theorem Saves.enabled (h : Saves P s t saver) : ∃ s', s.step P (.saver 0) = some s' := by
  have hi : s.sdk.savers[0]? = some saver := by
    rw [h.savers]
    rfl
  have hat := h.at_phase
  unfold SaverAt at hat
  have hsdk : ∃ sdk, s.sdk.saverStep P 0 { event := .saver 0, guestFile := s.guest.file, gen := s.guest.gen } =
      some sdk := by
    unfold SdkState.saverStep State.saverStep
    simp only [hi, Option.bind_eq_bind, Option.bind_some]
    cases hp : saver.phase with
    | started => exact ⟨_, rfl⟩
    | polling poll =>
      cases hd : poll.done with
      | false => simp [hd]
      | true => cases hg : poll.good <;> simp [hd, hg]
    | stable =>
      rw [hp] at hat
      obtain ⟨file, hfile⟩ := Option.isSome_iff_exists.mp hat
      rw [hfile]
      exact ⟨_, rfl⟩
    | merged | hostWritten => exact ⟨_, rfl⟩
  obtain ⟨sdk, hsdk⟩ := hsdk
  exact ⟨_, congrArg (Option.map fun sdk => ({ s with sdk := sdk } : ClientState)) hsdk⟩

/-- While there is a command or a save to go, some turn can be taken. -/
theorem ClientInv.enabled (h : ClientInv P final s) (hne : s.commands ≠ [] ∨ s.sdk.savers ≠ []) :
    ∃ turn s', s.step P turn = some s' := by
  obtain ⟨hstate, -, t, -, -, ⟨hsettled, -⟩ | ⟨saver, -, hsaves, -⟩⟩ := h
  · refine ⟨.client, ?_⟩
    cases hc : s.commands with
    | nil => exact absurd hsettled.savers (hne.resolve_left fun hcommands => hcommands hc)
    | cons command rest =>
      simp only [ClientState.step, hc]
      cases command with
      | waitSavingDone =>
        rw [hsettled.saving_false hstate]
        exact ⟨_, if_neg Bool.false_ne_true⟩
      | call c => cases c <;> exact ⟨_, rfl⟩
  · exact ⟨.saver 0, hsaves.enabled⟩

/-- **A client that waits has a synchronous library.** Whatever the order of
its turns and the saver's, it goes on until all its commands are done, in at
most 26 turns for each of them, and then it has the files of the synchronous program. -/
theorem waiting_client_synchronous {config : VirtualDeviceTraceConfig} (hd : config.tracingDisabled = true)
    (hv : config.saving = false) {commands : List Command} (hw : WaitsAfterSessions commands)
    (hg : ∀ trace guest, .disableTracing trace guest ∈ callsOf commands → guest.Readable) {turns : List Turn}
    (hr : run (ClientState.step P) (.start config commands) turns = some s) :
    turns.length ≤ 26 * commands.length ∧ ((∀ turn, s.step P turn = none) →
      s.commands = [] ∧ s.sdk.savers = [] ∧
        let t := (callsOf commands).foldl (Synchronous.step P) { config := config }
        s.sdk.config = t.config ∧ s.sdk.session = t.session ∧
          s.sdk.hostWrites = t.hostFiles ∧ s.sdk.combinedWrites = t.combinedFiles) := by
  have hinit : ClientInv P ((callsOf commands).foldl (Synchronous.step P) { config := config })
      (.start config commands) := by
    refine ⟨sessionState_initial ⟨config, hd, hv, rfl⟩, ⟨?_, hg⟩, { config := config }, rfl, rfl,
      Or.inl ⟨⟨rfl, rfl, rfl, rfl⟩, hw⟩⟩
    intro hst
    exact absurd hst (by decide : ¬ Stabilises fun _ => 0)
  have hinv : ClientInv P ((callsOf commands).foldl (Synchronous.step P) { config := config }) s := by
    have hmeet : StepsMeet (ClientState.step P) (fun _ _ => True) (.start config commands) turns :=
      stepsMeet_of_forall fun _ _ _ => trivial
    exact run_inv (fun s turn s' hi _ hs => (hi.step hs).1) hinit hmeet hr
  refine ⟨?_, fun hstuck => ?_⟩
  · have hlen := run_length_le ClientState.work (fun s turn s' hi hs => (hi.step hs).1)
      (fun s turn s' hi hs => (hi.step hs).2) hinit hr
    have hwork : (commands.map Command.work).sum ≤ 26 * commands.length := by
      refine sum_map_le Command.work fun command _ => ?_
      unfold Command.work
      split <;> decide
    exact Nat.le_trans hlen hwork
  · have hdone : s.commands = [] ∧ s.sdk.savers = [] := by
      by_contra hne
      obtain ⟨turn, s', hs⟩ := hinv.enabled (not_and_or.mp hne)
      rw [hstuck turn] at hs
      exact absurd hs.symm (Option.some_ne_none _)
    obtain ⟨-, -, t, hfinal, hsession, ⟨hsettled, -⟩ | ⟨saver, -, hsaves, -⟩⟩ := hinv
    · rw [hdone.1] at hfinal
      obtain rfl : t = _ := hfinal
      exact ⟨hdone.1, hdone.2, hsettled.config, hsession, hsettled.hostFiles, hsettled.combinedFiles⟩
    · exact absurd (hsaves.savers.symm.trans hdone.2) (List.cons_ne_nil _ _)

/-- Two sessions as in the test program, the second with a guest file of one packet. -/
def testProgram : List Command :=
  [.call (.setTraceConfig (some "trace1") none none), .call (.enableTracing {}),
    .call (.disableTracing [10, 0] {}), .waitSavingDone,
    .call (.setTraceConfig (some "trace2") (some "trace1") (some "combined")), .call (.enableTracing {}),
    .call (.disableTracing [10, 0] { sizes := fun _ => 2, file := some [10, 0] }), .waitSavingDone]

/-- It gets its files, both times. -/
theorem waiting_client_synchronous_test : ∃ s : ClientState,
    run (ClientState.step Merge.wire) (.start {} testProgram)
      (List.replicate 7 .client ++ List.replicate 8 (.saver 0) ++ [.client]) = some s ∧
    s.sdk.hostWrites = [(some "trace1", [10, 0]), (some "trace2", [10, 0])] := by
  have hw : WaitsAfterSessions testProgram := trivial
  have hg : ∀ trace guest, .disableTracing trace guest ∈ callsOf testProgram → guest.Readable := by
    intro trace guest hmem hst
    simp only [testProgram, callsOf, List.mem_cons, reduceCtorEq, Call.disableTracing.injEq, false_or,
      List.not_mem_nil, or_false] at hmem
    rcases hmem with ⟨-, rfl⟩ | ⟨-, rfl⟩
    · exact absurd hst (by decide : ¬ Stabilises fun _ => 0)
    · rfl
  have hrun : (run (ClientState.step Merge.wire) (.start {} testProgram)
      (List.replicate 7 .client ++ List.replicate 8 (.saver 0) ++ [.client])).map
        (fun s => (s.commands.length, s.sdk.savers.length)) = some (0, 0) := by
    decide +kernel
  obtain ⟨s, hs, hlengths⟩ := Option.map_eq_some_iff.mp hrun
  obtain ⟨hcommands, hsavers⟩ := Prod.mk.inj hlengths
  have hstuck : ∀ turn, s.step Merge.wire turn = none := by
    intro turn
    cases turn with
    | client =>
      unfold ClientState.step
      rw [List.eq_nil_of_length_eq_zero hcommands]
    | saver i => simp [ClientState.step, SdkState.step, SdkState.saverStep, List.eq_nil_of_length_eq_zero hsavers]
  obtain ⟨-, hend⟩ := waiting_client_synchronous (P := Merge.wire) rfl rfl hw hg hs
  obtain ⟨-, -, -, -, hfiles, -⟩ := hend hstuck
  refine ⟨s, hs, hfiles.trans ?_⟩
  decide +kernel

end

end Sdk
end VPerfetto
