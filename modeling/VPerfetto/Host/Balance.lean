/-
# Balanced slices

The events of slices of one thread over whole runs, among any calls of other
threads.

`endTrace` returns at once at depth 16, as `beginTrace` does, but it is the end
of a slice that was recorded: the depth never comes back from 16 in a session.
So nested slices come out balanced exactly up to 15 levels (`balanced_iff`).

Key definitions: `slicesOf`, `SliceStep`, `bracketsOf`, `WithinSession`, `BalancedSlices`.
Key theorems: `step_sliceStep`, `run_slices`, `balanced_iff`.
-/
import VPerfetto.Host.HostFile
import VPerfetto.Host.Depth

namespace VPerfetto
namespace Host

open Wire Chunks Runs Brackets DyckStep

def slicesOf (t : Tid) (log : List (Tid × Emitted)) : List (DyckStep × SliceIds) :=
  (ofOwner t log).filterMap fun x => x.2.packet.slice

inductive SliceStep (strings : Ptr → Bytes) (h : HostState) (e : HostEvent) (h' : HostState) : Prop
  | starts (hd : h.config.tracingDisabled = true) (hen : h'.config.tracingDisabled = false)
      (hlog : h'.log = []) (hinfos : h'.infos = h.infos) (hev : ∃ env, e = .enableTracing env)
  | ends (order : List Tid) (hev : e = .disableTracing order) (hends : h.config.endsSession = true)
      (hperm : order.Perm h.contexts) (hdis : h'.config.tracingDisabled = true) (hlog : h'.log = [])
      (hinfos : ∀ t, h'.infos t = if t ∈ order then (h.infos t).reset else h.infos t)
  | records (u : Tid) (now : UInt64) (c : Call) (info : ThreadInfo) (b : Body) (hev : e = .call u now c)
      (halive : h.exited u = false) (henter : c.enter h.config (h.infos u) = some info)
      (hbody : c.body strings now h.config info = some b) (hinfos : h'.infos = Function.update h.infos u b.info)
      (hlog : h'.log = h.log ++ (b.packets.map (emitted (c.name (h.openNames u)))).map (u, ·))
      (hen : h'.config.tracingDisabled = h.config.tracingDisabled)
  | idle (hcall : ∀ u now c, e = .call u now c → h.exited u = false ∧ c.enter h.config (h.infos u) = none)
      (hends : ∀ order, e = .disableTracing order → h.config.endsSession = false) (hinfos : h'.infos = h.infos)
      (hlog : h'.log = h.log) (hen : h'.config.tracingDisabled = h.config.tracingDisabled)

section

variable {strings : Ptr → Bytes} {fuel : ℕ} {h h' : HostState} {e : HostEvent} {t : Tid}

theorem slicesOf_append (t : Tid) (l l' : List (Tid × Emitted)) :
    slicesOf t (l ++ l') = slicesOf t l ++ slicesOf t l' := by
  rw [slicesOf, ofOwner_append, List.filterMap_append]
  rfl

/-- What a call writes of slices is in its own thread's part of the log. -/
theorem slicesOf_body (t u : Tid) (name : Option Ptr) (b : Body) :
    slicesOf t ((b.packets.map (emitted name)).map (u, ·)) = if u = t then b.slices else [] := by
  have hall : ∀ x ∈ (b.packets.map (emitted name)).map (u, ·), x.1 = u := by
    intro x hx
    obtain ⟨e, -, rfl⟩ := List.mem_map.mp hx
    rfl
  unfold slicesOf ofOwner
  by_cases hut : u = t
  · rw [if_pos hut, List.filter_eq_self.mpr fun x hx => by simp [hall x hx, hut], List.filterMap_map, List.filterMap_map]
    rfl
  · rw [if_neg hut, List.filter_eq_nil_iff.mpr fun x hx => by simp [hall x hx, hut]]
    rfl

/-- **What an event does to the contexts and the log**, whatever the event. -/
theorem step_sliceStep (hs : h.step strings fuel e = some h') : SliceStep strings h e h' := by
  cases e with
  | enableTracing env =>
    obtain rfl := Option.some.inj hs
    unfold HostState.enableTracing
    dsimp only
    split
    · rename_i hstart
      simp only [Bool.and_eq_true, Bool.not_eq_true'] at hstart
      exact .starts hstart.1 hstart.2 rfl rfl ⟨env, rfl⟩
    · rename_i hstart
      refine .idle (fun _ _ _ heq => by cases heq) (fun _ heq => by cases heq) rfl rfl ?_
      rcases h.config.enableTracing_cases env with ⟨hd, -, -, he⟩ | he
      · exact absurd (by rw [he, hd]; rfl) hstart
      · show (h.config.enableTracing env).tracingDisabled = h.config.tracingDisabled
        rw [he]
        rfl
  | disableTracing order =>
    simp only [HostState.step, HostState.disableTracing] at hs
    by_cases hends : h.config.endsSession = true
    · rw [if_pos hends, Option.ite_none_right_eq_some] at hs
      obtain ⟨hperm, hs⟩ := hs
      obtain rfl := Option.some.inj hs
      have hname : h.config.hostFilename.isNone = false := by
        unfold VirtualDeviceTraceConfig.endsSession at hends
        simp only [Bool.and_eq_true] at hends
        simpa using hends.1
      refine .ends order rfl hends (List.isPerm_iff.mp hperm) ?_ rfl fun t => ?_
      · show h.config.disableTracing.tracingDisabled = true
        unfold VirtualDeviceTraceConfig.disableTracing
        rw [hname]
        rfl
      · show (h.saveTracesToDisk order).infos t = _
        unfold HostState.saveTracesToDisk
        dsimp only
        rw [saveContexts_eq]
    · rw [if_neg hends] at hs
      obtain rfl := Option.some.inj hs
      have hnot : h.config.endsSession = false := by simpa using hends
      refine .idle (fun _ _ _ heq => by cases heq) (fun _ _ => hnot) rfl rfl ?_
      rcases VirtualDeviceTraceConfig.disableTracing_of_not_endsSession hnot with ⟨-, hc⟩ | ⟨-, hc⟩
      · rw [hc]
      · rw [hc]
        rfl
  | setGuestTime now ns =>
    obtain rfl := Option.some.inj hs
    exact .idle (fun _ _ _ heq => by cases heq) (fun _ heq => by cases heq) rfl rfl (setGuestTime_disabled now ns h.config)
  | call u now c =>
    obtain ⟨hx, ⟨he, rfl⟩ | ⟨info, b, w, he, hb, -, rfl⟩⟩ := HostState.call_cases hs
    · rw [HostState.beforeCall_eq]
      refine .idle (fun u' now' c' heq => ?_) (fun _ heq => by cases heq) rfl rfl rfl
      cases heq
      exact ⟨hx, he⟩
    · rw [HostState.beforeCall_eq]
      exact .records u now c info b rfl hx he hb rfl rfl (Call.body_disabled hb).2
  | exit u =>
    simp only [HostState.step, HostState.exit, Option.ite_none_left_eq_some] at hs
    obtain rfl := Option.some.inj hs.2
    exact .idle (fun _ _ _ heq => by cases heq) (fun _ heq => by cases heq) rfl rfl rfl

/-! ### Nested slices -/

def Call.bracket : Call → Option DyckStep
  | .beginTrace _ => some U
  | .endTrace => some D
  | .traceCounter .. => none

/-- The calls of a thread that begin and end slices. -/
def HostEvent.brackets (t : Tid) : HostEvent → List DyckStep
  | .call u _ c => if u = t then c.bracket.toList else []
  | _ => []

def bracketsOf (t : Tid) (es : List HostEvent) : List DyckStep := es.flatMap (HostEvent.brackets t)

/-- No `traceCounter` is made with 16 slices open, as in `CounterBelow`. -/
def CountsBelow (h : HostState) : HostEvent → Prop
  | .call u _ (.traceCounter _ _) => (h.infos u).stackDepth < traceStackDepthMax
  | _ => True

def WithinSession (h : HostState) (e : HostEvent) : Prop :=
  CountsBelow h e ∧ ∀ order, e = .disableTracing order → h.config.endsSession = false

/-- From `h` to `h'` the thread's slices are balanced: what was recorded is a
Dyck word, no slice is open, and from here on everything nested up to 15
levels is recorded in full. -/
structure BalancedSlices (strings : Ptr → Bytes) (fuel : ℕ) (t : Tid) (h h' : HostState) : Prop where
  recorded : ∃ new, slicesOf t h'.log = slicesOf t h.log ++ new ∧ ∃ v : DyckWord, new.map Prod.fst = v.toList
  depth : (h'.infos t).stackDepth = 0
  further : ∀ (v : DyckWord) (es : List HostEvent) (h'' : HostState), peak 0 v.toList ≤ 15 →
    StepsMeet (HostState.step strings fuel) WithinSession h' es → Runs.run (HostState.step strings fuel) h' es = some h'' →
    bracketsOf t es = v.toList →
    ∃ new, slicesOf t h''.log = slicesOf t h'.log ++ new ∧ new.map Prod.fst = v.toList

/-- A call that is recorded is what the counter of brackets makes of its bracket. -/
theorem records_bracket {c : Call} {cfg : VirtualDeviceTraceConfig} {i info : ThreadInfo} {now : UInt64} {b : Body}
    (henter : c.enter cfg i = some info) (hbody : c.body strings now cfg info = some b) :
    b.info.stackDepth = final traceStackDepthMax i.stackDepth c.bracket.toList ∧
      b.slices.map Prod.fst = recorded traceStackDepthMax i.stackDepth c.bracket.toList := by
  rcases Call.body_slices hbody with ⟨name, rfl, hd, hs⟩ | ⟨rfl, hi, hs⟩ | ⟨name, val, rfl, hd, hs⟩
  · simp only [Call.enter, Option.ite_none_left_eq_some, Option.some.injEq] at henter
    obtain ⟨-, hne, rfl⟩ := henter
    rw [hd, hs]
    simp [Call.bracket, final, recorded, Brackets.next, Brackets.records, hne]
  · simp only [Call.enter, Option.ite_none_left_eq_some, Option.some.injEq] at henter
    obtain ⟨-, hne, hpos, rfl⟩ := henter
    rw [hi, hs]
    simp [Call.bracket, final, recorded, Brackets.next, Brackets.records, hne, hpos]
  · simp only [Call.enter, Option.ite_none_left_eq_some, Option.some.injEq] at henter
    obtain ⟨-, rfl⟩ := henter
    rw [hd, hs]
    simp [Call.bracket, final, recorded]

/-- A call that returns at once while tracing is enabled. -/
theorem returns_bracket {c : Call} {cfg : VirtualDeviceTraceConfig} {i : ThreadInfo}
    (hen : cfg.tracingDisabled = false) (henter : c.enter cfg i = none) :
    final traceStackDepthMax i.stackDepth c.bracket.toList = i.stackDepth ∧
      recorded traceStackDepthMax i.stackDepth c.bracket.toList = [] := by
  cases c with
  | beginTrace name =>
    have hmax : i.stackDepth = traceStackDepthMax := by simpa [Call.enter, hen] using henter
    simp [Call.bracket, final, recorded, Brackets.next, Brackets.records, hmax]
  | endTrace =>
    have hout : i.stackDepth = traceStackDepthMax ∨ i.stackDepth = 0 := by
      by_contra hnot
      obtain ⟨hmax, hzero⟩ := not_or.mp hnot
      simp [Call.enter, hen, hmax, hzero] at henter
    rcases hout with hmax | hzero
    · simp [Call.bracket, final, recorded, Brackets.next, Brackets.records, hmax]
    · simp [Call.bracket, final, recorded, Brackets.next, Brackets.records, hzero]
  | traceCounter name val => exact ⟨rfl, rfl⟩

/-- What an event of the session does to the depth and to what is recorded. -/
theorem step_within (hen : h.config.tracingDisabled = false) (hok : WithinSession h e)
    (hs : h.step strings fuel e = some h') :
    h'.config.tracingDisabled = false ∧
      (h'.infos t).stackDepth = final traceStackDepthMax (h.infos t).stackDepth (e.brackets t) ∧
      ∃ new, slicesOf t h'.log = slicesOf t h.log ++ new ∧
        new.map Prod.fst = recorded traceStackDepthMax (h.infos t).stackDepth (e.brackets t) := by
  cases step_sliceStep hs with
  | starts hd => rw [hen] at hd; cases hd
  | ends order hev hends =>
    rw [hok.2 order hev] at hends
    cases hends
  | records u now c info b hev halive henter hbody hinfos hlog hen' =>
    refine ⟨hen'.trans hen, ?_⟩
    rw [hinfos, hlog, slicesOf_append, slicesOf_body, hev]
    by_cases hut : u = t
    · subst hut
      obtain ⟨hdepth, hrec⟩ := records_bracket henter hbody
      simp only [HostEvent.brackets, if_true, Function.update_self]
      exact ⟨hdepth, b.slices, rfl, hrec⟩
    · have htu : t ≠ u := fun he => hut he.symm
      simp only [HostEvent.brackets, if_neg hut, Function.update_of_ne htu]
      exact ⟨rfl, [], rfl, rfl⟩
  | idle hcall hends hinfos hlog hen' =>
    refine ⟨hen'.trans hen, ?_⟩
    rw [hinfos, hlog]
    have hnone : final traceStackDepthMax (h.infos t).stackDepth (e.brackets t) = (h.infos t).stackDepth ∧
        recorded traceStackDepthMax (h.infos t).stackDepth (e.brackets t) = [] := by
      cases e with
      | call u now c =>
        by_cases hut : u = t
        · subst hut
          simp only [HostEvent.brackets, if_true]
          exact returns_bracket hen (hcall u now c rfl).2
        · simp only [HostEvent.brackets, if_neg hut]
          exact ⟨rfl, rfl⟩
      | _ => exact ⟨rfl, rfl⟩
    exact ⟨hnone.1.symm, [], (List.append_nil _).symm, hnone.2.symm⟩

/-- **A run within a session** does to a thread's slices what the counter of
brackets does to the brackets of its calls. -/
theorem run_slices {es : List HostEvent} (hen : h.config.tracingDisabled = false)
    (hmeet : StepsMeet (HostState.step strings fuel) WithinSession h es)
    (hr : Runs.run (HostState.step strings fuel) h es = some h') (t : Tid) :
    (h'.infos t).stackDepth = final traceStackDepthMax (h.infos t).stackDepth (bracketsOf t es) ∧
      h'.config.tracingDisabled = false ∧
      ∃ new, slicesOf t h'.log = slicesOf t h.log ++ new ∧
        new.map Prod.fst = recorded traceStackDepthMax (h.infos t).stackDepth (bracketsOf t es) := by
  induction es generalizing h with
  | nil =>
    obtain rfl := Option.some.inj hr
    exact ⟨rfl, hen, [], (List.append_nil _).symm, rfl⟩
  | cons e es ih =>
    obtain ⟨h₁, hs, hr⟩ := Option.bind_eq_some_iff.mp hr
    obtain ⟨hen₁, hdepth₁, new₁, hnew₁, hrec₁⟩ := step_within (t := t) hen hmeet.1 hs
    obtain ⟨hdepth, hen', new, hnew, hrec⟩ := ih hen₁ (hmeet.2 h₁ hs) hr
    have hcons : bracketsOf t (e :: es) = e.brackets t ++ bracketsOf t es := List.flatMap_cons
    refine ⟨?_, hen', new₁ ++ new, ?_, ?_⟩
    · rw [hdepth, hdepth₁, hcons]
      exact (List.foldl_append ..).symm
    · rw [hnew, hnew₁, List.append_assoc]
    · rw [List.map_append, hrec₁, hrec, hdepth₁, hcons, recorded_append]

/-- Nested calls of up to 15 levels are recorded in full. -/
theorem run_nested {es : List HostEvent} (hen : h.config.tracingDisabled = false)
    (hmeet : StepsMeet (HostState.step strings fuel) WithinSession h es)
    (hr : Runs.run (HostState.step strings fuel) h es = some h') (hzero : (h.infos t).stackDepth = 0) {v : DyckWord}
    (hv : bracketsOf t es = v.toList) (hpeak : peak 0 v.toList ≤ 15) :
    (h'.infos t).stackDepth = 0 ∧ h'.config.tracingDisabled = false ∧
      ∃ new, slicesOf t h'.log = slicesOf t h.log ++ new ∧ new.map Prod.fst = v.toList := by
  obtain ⟨hdepth, hen', new, hnew, hrec⟩ := run_slices hen hmeet hr t
  have hlt : peak 0 v.toList < traceStackDepthMax := Nat.lt_succ_of_le hpeak
  obtain ⟨hall, hfinal⟩ := recorded_of_peak_lt (closes_dyckWord v) hlt
  rw [hzero, hv] at hdepth hrec
  have hback : (h'.infos t).stackDepth = 0 := by
    calc (h'.infos t).stackDepth = final traceStackDepthMax 0 v.toList := hdepth
      _ = level 0 v.toList := hfinal
      _ = 0 := level_dyckWord v
  exact ⟨hback, hen', new, hnew, hrec.trans hall⟩

/-- **When nested slices are balanced.** -/
theorem balanced_iff {es : List HostEvent} {w : DyckWord} (hen : h.config.tracingDisabled = false)
    (hzero : (h.infos t).stackDepth = 0) (hmeet : StepsMeet (HostState.step strings fuel) WithinSession h es)
    (hr : Runs.run (HostState.step strings fuel) h es = some h') (hw : bracketsOf t es = w.toList) :
    BalancedSlices strings fuel t h h' ↔ peak 0 w.toList ≤ 15 := by
  constructor
  · intro hb
    by_contra hpeak
    have hmax : traceStackDepthMax ≤ peak 0 w.toList := Nat.lt_of_not_le hpeak
    obtain ⟨hdepth, -⟩ := run_slices hen hmeet hr t
    rw [hzero, hw, final_of_le_peak (Nat.zero_le _) hmax, hb.depth] at hdepth
    exact absurd hdepth (by decide)
  · intro hpeak
    obtain ⟨hdepth, hen', new, hnew, hall⟩ := run_nested hen hmeet hr hzero hw hpeak
    refine ⟨⟨new, hnew, w, hall⟩, hdepth, fun v es' h'' hpeak' hmeet' hr' hv => ?_⟩
    obtain ⟨-, -, hfurther⟩ := run_nested hen' hmeet' hr' hdepth hv hpeak'
    exact hfurther

def firstSession : HostState := HostState.enableTracing {} { config := { hostFilename := some "host" } }

/-- `n` slices, each in the one before. -/
def nestedCalls (n : ℕ) : List HostEvent :=
  List.replicate n (.call 0 5 (.beginTrace 7)) ++ List.replicate n (.call 0 6 .endTrace)

theorem nestedCalls_within (strings : Ptr → Bytes) (fuel n : ℕ) (h : HostState) :
    StepsMeet (HostState.step strings fuel) WithinSession h (nestedCalls n) := by
  apply stepsMeet_of_forall
  intro e he s
  rcases List.mem_append.mp he with he | he
  · rw [List.eq_of_mem_replicate he]
    exact ⟨trivial, nofun⟩
  · rw [List.eq_of_mem_replicate he]
    exact ⟨trivial, nofun⟩

/-- Two slices, one in the other. -/
theorem balanced_two : ∃ h', Runs.run (HostState.step (fun _ => [97]) 3) firstSession (nestedCalls 2) = some h' ∧
    BalancedSlices (fun _ => [97]) 3 0 firstSession h' := by
  have hrun : (Runs.run (HostState.step (fun _ => [97]) 3) firstSession (nestedCalls 2)).isSome = true := by
    decide +kernel
  obtain ⟨h', hr⟩ := Option.isSome_iff_exists.mp hrun
  obtain ⟨w, hw⟩ := dyckWord_of_closes (l := bracketsOf 0 (nestedCalls 2)) (by decide) (by decide)
  refine ⟨h', hr, (balanced_iff (by decide) rfl (nestedCalls_within _ _ 2 _) hr hw.symm).mpr ?_⟩
  rw [hw]
  decide

/-- Sixteen slices, each in the one before: none of them ends. -/
theorem unbalanced_sixteen : ∃ (es : List HostEvent) (w : DyckWord) (h' : HostState),
    firstSession.config.tracingDisabled = false ∧ (firstSession.infos 0).stackDepth = 0 ∧
      StepsMeet (HostState.step (fun _ => [97]) 3) WithinSession firstSession es ∧
      Runs.run (HostState.step (fun _ => [97]) 3) firstSession es = some h' ∧ bracketsOf 0 es = w.toList ∧
      ¬ BalancedSlices (fun _ => [97]) 3 0 firstSession h' := by
  have hrun : (Runs.run (HostState.step (fun _ => [97]) 3) firstSession (nestedCalls 16)).isSome = true := by
    decide +kernel
  obtain ⟨h', hr⟩ := Option.isSome_iff_exists.mp hrun
  obtain ⟨w, hw⟩ := dyckWord_of_closes (l := bracketsOf 0 (nestedCalls 16)) (by decide) (by decide)
  have hmeet := nestedCalls_within (fun _ => [97]) 3 16 firstSession
  refine ⟨_, w, h', by decide, rfl, hmeet, hr, hw.symm, fun hb => ?_⟩
  obtain ⟨hdepth, -⟩ := run_slices (by decide) hmeet hr 0
  have hfinal : final traceStackDepthMax (firstSession.infos 0).stackDepth (bracketsOf 0 (nestedCalls 16)) = 16 := by
    decide
  rw [hb.depth, hfinal] at hdepth
  exact absurd hdepth (by decide)

end

end Host
end VPerfetto
