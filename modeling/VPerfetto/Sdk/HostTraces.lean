/-
# The host traces of the SDK build

`disableTracing` parks the host trace of the session in `sTraceProgress`, and
the saver writes it after it has waited for the guest file and read it. Two
things come in between: the saver gives up on a guest file whose size does not
settle and clears the trace, and a guest file that cannot be opened ends the
process, for it has the size -1 and no vector can be resized to that. And the
saver copies the host file's name when it starts, not when the session ends.

`host_trace_saved` says that every host trace is written once and under its
name as long as none of the three happens; `host_trace_dropped` is a run in
which the saver gives up.

Key definitions: `Process`, `Process.step`, `HostTraceSaved`, `KeepsTrace`, `SaveInv`.
Key theorems: `SaveInv.step`, `host_trace_saved`, `abort_loses_trace`.
-/
import VPerfetto.Sdk.Session

namespace VPerfetto
namespace Sdk

open Runs Wire Host

/-- A saver is about to read the guest file, which cannot be opened. -/
def SdkState.aborts (w : SdkState) (a : SdkAction) : Bool :=
  match a.event with
  | .saver i => w.savers[i]?.any (fun saver => saver.phase = .stable) && a.guestFile.isNone
  | _ => false

/-- The library in its process, which an exception of the saver ends. -/
structure Process extends SdkState where
  aborted : Bool := false

def Process.step {ρ : Type} (P : Merge.Protobuf ρ) (p : Process) (a : SdkAction) : Option Process :=
  if p.aborted then none
  else if p.aborts a then some { p with aborted := true }
  else (p.toSdkState.step P a).map fun w => { p with toSdkState := w }

/-- Before the first session. -/
def Process.Initial (p : Process) : Prop := ∃ w, SdkState.Initial w ∧ p = { toSdkState := w }

/-- Whenever nothing is being saved, and when the process ends: the host files
that were written are those of the sessions that ended, each once, whole and
under its name. -/
def HostTraceSaved (p : Process) : Prop :=
  p.aborted = true ∨ p.config.saving = false → p.hostWrites = p.ended

/-- Runs without `setTraceConfig`. -/
def SaveRun : Event → Prop
  | .setTraceConfig _ _ _ => False
  | _ => True

/-- A session ends without a combined file to write, or with a guest file whose
size settles while the saver looks at it; the saver can open the file when it
reads it; and until it has copied the names, `enableTracing` brings no other
name for the host file. -/
def KeepsTrace (p : Process) (a : SdkAction) : Prop :=
  match a.event with
  | .enableTracing env => (∃ saver ∈ p.savers, saver.phase = .started) →
    (p.config.useEnv env).hostFilename = p.config.hostFilename
  | .disableTracing _ sizes => p.endsSession = true →
    p.config.guestFilename = none ∨ p.config.combinedFilename = none ∨ Stabilises sizes
  | .saver _ => p.aborts a = false
  | _ => True

instance (e : Event) : Decidable (SaveRun e) := by
  unfold SaveRun
  split <;> infer_instance

instance (p : Process) (a : SdkAction) : Decidable (KeepsTrace p a) := by
  unfold KeepsTrace
  split <;> infer_instance

/-- What a saver still has to write, by where it is. -/
def SaverOk (s : State) (saver : Saver) : Prop :=
  match saver.phase with
  | .started => Stabilises saver.sizes ∧ s.hostWrites ++ [(s.config.hostFilename, s.hostTrace)] = s.ended
  | .polling poll => Stabilises saver.sizes ∧ Poll.Counts saver.sizes poll ∧
      s.hostWrites ++ [(saver.hostFilename, s.hostTrace)] = s.ended
  | .stable | .merged => s.hostWrites ++ [(saver.hostFilename, s.hostTrace)] = s.ended
  | .hostWritten => s.hostWrites = s.ended

/-- All is written, but for what the saver has. -/
structure SaveInv (s : State) : Prop where
  saved : s.config.saving = false → s.hostWrites = s.ended
  saver : ∀ saver ∈ s.savers, SaverOk s saver

section

variable {s s' : State} {saver : Saver}

/-- A saver that has its own names, or whose name is still in force. -/
theorem SaverOk.congr (h : SaverOk s saver)
    (hname : saver.phase = .started → s'.config.hostFilename = s.config.hostFilename)
    (htrace : s'.hostTrace = s.hostTrace) (hwrites : s'.hostWrites = s.hostWrites) (hended : s'.ended = s.ended) :
    SaverOk s' saver := by
  unfold SaverOk at h ⊢
  rw [htrace, hwrites, hended]
  cases hp : saver.phase with
  | started =>
    rw [hp] at h
    simp only at h ⊢
    rw [hname hp]
    exact h
  | polling poll | stable | merged | hostWritten =>
    rw [hp] at h
    exact h

theorem SaveInv.enableTracing (h : SaveInv s) {env : Env} (hok : (∃ saver ∈ s.savers, saver.phase = .started) →
    (s.config.useEnv env).hostFilename = s.config.hostFilename) : SaveInv (s.enableTracing env) := by
  rcases State.enableTracing_cases env s with ⟨-, hv, -, heq⟩ | heq <;> rw [heq]
  all_goals
    refine ⟨fun hv => h.saved hv, fun saver hm => (h.saver saver hm).congr (fun hp => ?_) rfl rfl rfl⟩
    exact hok ⟨saver, hm, hp⟩

theorem SaveInv.disableTracing (h : SaveInv s) (hstate : SessionState s) {trace : Bytes} {sizes : ℕ → ℤ}
    (hok : s.endsSession = true →
      s.config.guestFilename = none ∨ s.config.combinedFilename = none ∨ Stabilises sizes) :
    SaveInv (s.disableTracing trace sizes) := by
  rcases State.disableTracing_cases trace sizes s with
    ⟨-, heq⟩ | ⟨hs, hv, -⟩ | ⟨-, hv, -, heq⟩ | ⟨hs, hv, hskip, heq⟩
  · rw [heq]
    exact h
  · exact absurd ((hstate.exclusive hv).symm.trans hs) Bool.false_ne_true
  · rw [heq]
    refine ⟨fun _ => congrArg (· ++ [(s.config.hostFilename, trace)]) (h.saved hv), fun saver hm => ?_⟩
    exact absurd (hv.symm.trans (hstate.saving_of_mem hm)) Bool.false_ne_true
  · rw [heq]
    refine ⟨fun hv' => Bool.noConfusion hv', fun saver hm => ?_⟩
    have hends : s.endsSession = true := by
      unfold State.endsSession
      rw [hs, hv]
      rfl
    have hsettles : Stabilises sizes := by
      unfold State.skipsCombined at hskip
      rcases hok hends with hnone | hnone | hst
      · simp [hnone] at hskip
      · simp [hnone] at hskip
      · exact hst
    rw [hstate.no_saver hv] at hm
    obtain rfl := List.mem_singleton.mp hm
    exact ⟨hsettles, congrArg (· ++ [(s.config.hostFilename, trace)]) (h.saved hv)⟩

theorem SaveInv.saverStep (h : SaveInv s) (hstate : SessionState s) {i : ℕ} (hs : s.saverStep i = some s') :
    SaveInv s' := by
  obtain ⟨saver, hi, hmove⟩ := State.saverStep_moves hs
  obtain ⟨rfl, hone⟩ := hstate.one_saver hi
  have hmem : saver ∈ s.savers := List.mem_of_getElem? hi
  have hsaving := hstate.saving_of_mem hmem
  have hok := h.saver saver hmem
  -- the saver goes on, and the flag stays set
  have hgoesOn : ∀ {t : State} {x : Saver}, t.savers = s.savers.set 0 x → t.config.saving = s.config.saving →
      SaverOk t x → SaveInv t := by
    intro t x hsavers hv hx
    refine ⟨fun hv' => ?_, fun y hy => ?_⟩
    · rw [hv, hsaving] at hv'
      exact Bool.noConfusion hv'
    · rw [hsavers, hone] at hy
      obtain rfl := List.mem_singleton.mp hy
      exact hx
  -- the saver leaves
  have hleaves : ∀ {t : State}, t.savers = s.savers.eraseIdx 0 → t.hostWrites = t.ended → SaveInv t := by
    intro t hsavers hw
    refine ⟨fun _ => hw, fun y hy => ?_⟩
    rw [hsavers, hone] at hy
    exact absurd hy List.not_mem_nil
  unfold SaverOk at hok
  cases hmove with
  | copyNames hp =>
    rw [hp] at hok
    exact hgoesOn rfl rfl ⟨hok.1, Poll.counts_start _, hok.2⟩
  | poll poll hp hd =>
    rw [hp] at hok
    obtain ⟨hst, hcounts, hw⟩ := hok
    exact hgoesOn rfl rfl ⟨hst, Poll.counts_next hcounts hd, hw⟩
  | settle poll hp hd hg =>
    rw [hp] at hok
    exact hgoesOn (x := { saver with phase := .stable }) rfl rfl hok.2.2
  | timeOut poll hp hd hg =>
    rw [hp] at hok
    obtain ⟨hst, hcounts, -⟩ := hok
    exact absurd (hg.symm.trans (Poll.good_of_stabilises hcounts hd hst)) Bool.false_ne_true
  | merge hp =>
    rw [hp] at hok
    exact hgoesOn (x := { saver with phase := .merged }) rfl rfl hok
  | writeHost hp =>
    rw [hp] at hok
    exact hgoesOn (x := { saver with phase := .hostWritten }) rfl rfl hok
  | finish hp =>
    rw [hp] at hok
    exact hleaves rfl hok

end

section

variable {ρ : Type} {P : Merge.Protobuf ρ} {p p' : Process} {a : SdkAction}

/-- A step is the end of the process, or one of the library. -/
theorem Process.step_cases (hs : p.step P a = some p') :
    p.aborted = false ∧ ((p.aborts a = true ∧ p' = { p with aborted := true }) ∨
      (p.aborts a = false ∧ ∃ w, p.toSdkState.step P a = some w ∧ p' = { p with toSdkState := w })) := by
  unfold Process.step at hs
  obtain ⟨halive, hs⟩ := Option.ite_none_left_eq_some.mp hs
  refine ⟨by simpa using halive, ?_⟩
  split at hs
  · rename_i habort
    exact Or.inl ⟨habort, (Option.some.inj hs).symm⟩
  · rename_i habort
    obtain ⟨w, hw, rfl⟩ := Option.map_eq_some_iff.mp hs
    exact Or.inr ⟨by simpa using habort, w, hw, rfl⟩

/-- What a step of the library keeps. -/
theorem SaveInv.step {s' : State} (h : SaveInv p.toState) (hstate : SessionState p.toState)
    (hrun : SaveRun a.event) (hok : KeepsTrace p a) (hs : p.toState.step a.event = some s') : SaveInv s' := by
  unfold KeepsTrace at hok
  cases he : a.event with
  | setTraceConfig host guest combined =>
    rw [he] at hrun
    exact hrun.elim
  | setGuestTime t now =>
    rw [he] at hs
    obtain rfl := Option.some.inj hs
    have hconfig : (p.config.setGuestTime t now).saving = p.config.saving ∧
        (p.config.setGuestTime t now).hostFilename = p.config.hostFilename := by
      unfold VirtualDeviceTraceConfig.setGuestTime
      split <;> exact ⟨rfl, rfl⟩
    refine ⟨fun hv => h.saved (hconfig.1.symm.trans hv), fun saver hm => ?_⟩
    exact (h.saver saver hm).congr (fun _ => hconfig.2) rfl rfl rfl
  | enableTracing env =>
    rw [he] at hs hok
    obtain rfl := Option.some.inj hs
    exact h.enableTracing hok
  | disableTracing trace sizes =>
    rw [he] at hs hok
    obtain rfl := Option.some.inj hs
    exact h.disableTracing hstate hok
  | saver i =>
    rw [he] at hs
    exact h.saverStep hstate hs

/-- Reached by steps that keep the host traces. -/
abbrev SavingReach (P : Merge.Protobuf ρ) : Process → Prop :=
  Reach Process.Initial (fun p a p' => p.step P a = some p') fun p a => SaveRun a.event ∧ KeepsTrace p a

theorem savingReach_inv (h : SavingReach P p) : p.aborted = false ∧ SessionState p.toState ∧ SaveInv p.toState := by
  refine Reach.inv (P := fun p => p.aborted = false ∧ SessionState p.toState ∧ SaveInv p.toState) ?_ ?_ h
  · rintro _ ⟨_, ⟨s, hs, rfl⟩, rfl⟩
    refine ⟨rfl, sessionState_initial hs, ?_⟩
    obtain ⟨config, -, -, rfl⟩ := hs
    exact ⟨fun _ => rfl, fun saver hm => absurd hm List.not_mem_nil⟩
  · rintro p a p' ⟨-, hstate, hinv⟩ ⟨hrun, hok⟩ hs
    obtain ⟨halive, ⟨habort, rfl⟩ | ⟨-, w, hw, rfl⟩⟩ := Process.step_cases hs
    · -- the saver can read the file
      have hnot : p.aborts a = false := by
        unfold KeepsTrace at hok
        unfold SdkState.aborts at habort ⊢
        cases he : a.event with
        | saver i =>
          simp only [he] at hok
          simpa [SdkState.aborts, he] using hok
        | setTraceConfig | setGuestTime | enableTracing | disableTracing => rfl
      exact absurd (hnot.symm.trans habort) Bool.false_ne_true
    · have hstep := SdkState.step_toState hw
      exact ⟨halive, hstate.step hstep, hinv.step hstate hrun hok hstep⟩

/-- **No host trace is dropped** in a run whose guest files settle and can be
read, and whose savers find the name of the session. -/
theorem host_trace_saved (h : SavingReach P p) : HostTraceSaved p := by
  obtain ⟨halive, -, hinv⟩ := savingReach_inv h
  rintro (habort | hv)
  · exact absurd (halive.symm.trans habort) Bool.false_ne_true
  · exact hinv.saved hv

/-- With the process the host trace is gone. -/
theorem abort_loses_trace (h : SavingReach P p) (ha : p.aborts a = true) (hs : p.step P a = some p') :
    ¬ HostTraceSaved p' := by
  obtain ⟨-, -, hinv⟩ := savingReach_inv h
  obtain ⟨-, ⟨-, rfl⟩ | ⟨hnot, -⟩⟩ := Process.step_cases hs
  · intro hsaved
    unfold SdkState.aborts at ha
    split at ha
    · rename_i i he
      obtain ⟨hany, -⟩ := Bool.and_eq_true_iff.mp ha
      obtain ⟨saver, hi, hphase⟩ := (Option.any_eq_true _ _).mp hany
      have hok := hinv.saver saver (List.mem_of_getElem? hi)
      unfold SaverOk at hok
      rw [show saver.phase = .stable by simpa using hphase] at hok
      have hnone : p.hostWrites = p.hostWrites ++ [(saver.hostFilename, p.hostTrace)] :=
        (hsaved (Or.inl rfl)).trans hok.symm
      exact absurd (List.self_eq_append_right.mp hnone) (List.cons_ne_nil _ _)
    · exact Bool.noConfusion ha
  · exact absurd (hnot.symm.trans ha) Bool.false_ne_true

/-- A session without a combined file, and one whose guest file settles. -/
def twoSessions : List SdkAction :=
  [{ event := .enableTracing {} }, { event := .disableTracing [10, 0] fun _ => 0 },
    { event := .enableTracing { guestFile := some "guest", combinedFile := some "combined" } },
    { event := .disableTracing [10, 0, 10, 0] fun _ => 5 }] ++
  List.replicate 8 { event := .saver 0, guestFile := some [10, 0] }

theorem host_trace_saved_two : ∃ p : Process, SavingReach Merge.wire p ∧ p.config.saving = false ∧
    p.ended = [(some "vmm.trace", [10, 0]), (some "vmm.trace", [10, 0, 10, 0])] ∧ HostTraceSaved p := by
  have h0 : SavingReach Merge.wire { config := { hostFilename := some "vmm.trace" } } :=
    .init ⟨_, ⟨{ config := { hostFilename := some "vmm.trace" } }, ⟨_, rfl, rfl, rfl⟩, rfl⟩, rfl⟩
  have hrun : (run (checked (Process.step Merge.wire) fun p a => SaveRun a.event ∧ KeepsTrace p a)
      { config := { hostFilename := some "vmm.trace" } } twoSessions).map (fun p => (p.config.saving, p.ended)) =
      some (false, [(some "vmm.trace", [10, 0]), (some "vmm.trace", [10, 0, 10, 0])]) := by
    decide +kernel
  obtain ⟨p, hp, hend⟩ := Option.map_eq_some_iff.mp hrun
  obtain ⟨hsaving, hended⟩ := Prod.mk.inj hend
  have h := h0.run_checked hp
  exact ⟨p, h, hsaving, hended, host_trace_saved h⟩

/-- The guest file never arrives: twenty polls, and the exit that clears the host trace. -/
def guestNeverArrives : List SdkAction :=
  [{ event := .enableTracing { guestFile := some "guest", combinedFile := some "combined" } },
    { event := .disableTracing [10, 0] fun _ => 0 }] ++ List.replicate 22 { event := .saver 0 }

/-- The session has ended, nothing is being saved, and no host file was written. -/
theorem host_trace_dropped : ∃ p, Reach Process.Initial (fun p a p' => Process.step Merge.wire p a = some p')
    (fun _ a => SaveRun a.event) p ∧ ¬ HostTraceSaved p := by
  have h0 : Reach Process.Initial (fun p a p' => Process.step Merge.wire p a = some p')
      (fun _ a => SaveRun a.event) { config := { hostFilename := some "vmm.trace" } } :=
    .init ⟨_, ⟨{ config := { hostFilename := some "vmm.trace" } }, ⟨_, rfl, rfl, rfl⟩, rfl⟩, rfl⟩
  have hrun : (run (Process.step Merge.wire) { config := { hostFilename := some "vmm.trace" } } guestNeverArrives).map
      (fun p => (p.config.saving, p.hostWrites.length, p.ended.length)) = some (false, 0, 1) := by
    decide +kernel
  obtain ⟨p, hp, hend⟩ := Option.map_eq_some_iff.mp hrun
  obtain ⟨hsaving, hend⟩ := Prod.mk.inj hend
  obtain ⟨hwrites, hended⟩ := Prod.mk.inj hend
  have hok : ∀ a ∈ guestNeverArrives, SaveRun a.event := by
    simp [guestNeverArrives, SaveRun]
  refine ⟨p, Reach.run_of guestNeverArrives (fun a ha _ => hok a ha) h0 hp, fun hsaved => ?_⟩
  have heq : 0 = 1 := by
    rw [← hwrites, ← hended, hsaved (Or.inr hsaving)]
  exact absurd heq Nat.zero_ne_one

end

end Sdk
end VPerfetto
