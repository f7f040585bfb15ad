/-
# The end of a slice matches its beginning

The events of slices of one thread over any calls and any sessions: each end
has the ids of the innermost open beginning of its session, and the end of a
slice that was not recorded in the session writes nothing (`slices_matched`).

Beside the program runs the stack of the slices that the thread has begun and
not ended, with a mark for those recorded in the current session. Below 16
levels the depth counts the marks.

Key definitions: `begunAfter`, `stepBegun`, `BegunReach`, `ThreadOpen`, `SliceInv`.
Key theorems: `sliceInv_step`, `slices_matched`.
-/
import VPerfetto.Host.Balance

namespace VPerfetto
namespace Host

open Wire Chunks Runs Brackets DyckStep

/-- For each slice that the thread has begun and not ended, from the innermost,
whether its beginning is recorded in the session. -/
def begunAfter (t : Tid) (h h' : HostState) (e : HostEvent) (begun : List Bool) : List Bool :=
  match e with
  | .call u _ (.beginTrace _) => if u = t then decide (h.log.length < h'.log.length) :: begun else begun
  | .call u _ .endTrace => if u = t then begun.tail else begun
  | .disableTracing _ => if h.config.endsSession then begun.map fun _ => false else begun
  | _ => begun

/-- The program with the stack of a thread's slices beside it. -/
def stepBegun (strings : Ptr → Bytes) (fuel : ℕ) (t : Tid) (s : HostState × List Bool) (e : HostEvent) :
    Option (HostState × List Bool) := do
  let h ← s.1.step strings fuel e
  return (h, begunAfter t s.1 h e s.2)

def BegunInitial (s : HostState × List Bool) : Prop :=
  (∃ config : VirtualDeviceTraceConfig, config.tracingDisabled = true ∧ s.1 = { config := config }) ∧ s.2 = []

/-- The states reached when no counter comes with 16 slices open. -/
abbrev BegunReach (strings : Ptr → Bytes) (fuel : ℕ) (t : Tid) : HostState × List Bool → Prop :=
  Reach BegunInitial (fun s e s' => stepBegun strings fuel t s e = some s') fun s e => CountsBelow s.1 e

/-- The open slices of a thread that has not exited. -/
structure ThreadOpen (t : Tid) (h : HostState) (begun : List Bool) : Prop where
  ids : unmatched [] (slicesOf t h.log) = (h.infos t).openIds (h.infos t).stackDepth
  setUp : 0 < (h.infos t).stackDepth → (h.infos t).needToSetThreadId = false
  le : (h.infos t).stackDepth ≤ traceStackDepthMax
  begun : (h.infos t).stackDepth < traceStackDepthMax →
    ∃ n, begun = List.replicate (h.infos t).stackDepth true ++ List.replicate n false
  disabled : h.config.tracingDisabled = true → (h.infos t).stackDepth = 0
  fresh : t ∉ h.contexts → h.infos t = {}

structure SliceInv (t : Tid) (s : HostState × List Bool) : Prop where
  matched : Matched (slicesOf t s.1.log)
  threadOpen : s.1.exited t = false → ThreadOpen t s.1 s.2

section

variable {strings : Ptr → Bytes} {fuel : ℕ} {h h' : HostState} {e : HostEvent} {t : Tid} {begun : List Bool}

/-- A call adds its thread to the contexts while tracing is enabled. -/
theorem beforeCall_contexts (u : Tid) (h : HostState) :
    (h.beforeCall u).exited = h.exited ∧ (∀ t ∈ h.contexts, t ∈ (h.beforeCall u).contexts) ∧
      (h.config.tracingDisabled = false → u ∈ (h.beforeCall u).contexts) := by
  unfold HostState.beforeCall HostState.construct
  by_cases hd : h.config.tracingDisabled = true
  · simp only [hd, if_true]
    exact ⟨trivial, fun _ => id, fun hen => absurd hen (by simp)⟩
  · simp only [hd]
    by_cases hm : u ∈ h.contexts
    · simp only [hm, if_true]
      exact ⟨rfl, fun _ => id, fun _ => hm⟩
    · simp only [hm, if_false]
      exact ⟨rfl, fun t ht => List.mem_append_left _ ht, fun _ => List.mem_append_right _ List.mem_cons_self⟩

/-- What an event does to the set of contexts: a thread that has not exited
afterwards stays in it, and a call made while tracing is enabled puts it there. -/
theorem step_contexts (hs : h.step strings fuel e = some h') (hx : h'.exited t = false) :
    h.exited t = false ∧ (t ∉ h'.contexts → t ∉ h.contexts) ∧
      (∀ now c, e = .call t now c → h.config.tracingDisabled = false → t ∈ h'.contexts) := by
  cases e with
  | enableTracing env =>
    obtain rfl := Option.some.inj hs
    revert hx
    unfold HostState.enableTracing
    dsimp only
    split
    · exact fun hx => ⟨hx, id, fun _ _ heq => by cases heq⟩
    · exact fun hx => ⟨hx, id, fun _ _ heq => by cases heq⟩
  | disableTracing order =>
    simp only [HostState.step, HostState.disableTracing] at hs
    split at hs
    · obtain ⟨-, hs⟩ := Option.ite_none_right_eq_some.mp hs
      obtain rfl := Option.some.inj hs
      revert hx
      unfold HostState.saveTracesToDisk
      dsimp only
      rw [saveContexts_eq]
      exact fun hx => ⟨hx, id, fun _ _ heq => by cases heq⟩
    · obtain rfl := Option.some.inj hs
      exact ⟨hx, id, fun _ _ heq => by cases heq⟩
  | setGuestTime now ns =>
    obtain rfl := Option.some.inj hs
    exact ⟨hx, id, fun _ _ heq => by cases heq⟩
  | call u now c =>
    obtain ⟨hexited, hmem, hnew⟩ := beforeCall_contexts u h
    obtain ⟨-, ⟨-, rfl⟩ | ⟨info, b, w, -, -, -, rfl⟩⟩ := HostState.call_cases hs
    all_goals
      refine ⟨hexited ▸ hx, fun hn hm => hn (hmem t hm), fun now' c' heq hen => ?_⟩
      cases heq
      exact hnew hen
  | exit u =>
    simp only [HostState.step, HostState.exit, Option.ite_none_left_eq_some] at hs
    obtain rfl := Option.some.inj hs.2
    have htu : t ≠ u := by
      intro htu
      subst htu
      simp at hx
    have hx' : h.exited t = false := by simpa [htu] using hx
    refine ⟨hx', fun hn hmem => hn ?_, fun _ _ heq => by cases heq⟩
    exact (List.mem_erase_of_ne htu).mpr hmem

/-- The stack of a thread with no recorded slice open. -/
theorem begun_none {n : ℕ} (h : begun = List.replicate 0 true ++ List.replicate n false) :
    begun.map (fun _ => false) = begun ∧ begun.tail = List.replicate (n - 1) false := by
  rw [List.replicate_zero, List.nil_append] at h
  rw [h]
  exact ⟨List.map_replicate, List.tail_replicate⟩

/-- Nothing recorded: a thread at depth 0, or one that stays at 16. -/
theorem ThreadOpen.idle (ho : ThreadOpen t h begun)
    (hinfos : h'.infos = h.infos) (hlog : h'.log = h.log) (hen : h'.config.tracingDisabled = h.config.tracingDisabled)
    (hctx : t ∉ h'.contexts → t ∉ h.contexts)
    (hcall : ∀ u now c, e = .call u now c → h.exited u = false ∧ c.enter h.config (h.infos u) = none)
    (hends : ∀ order, e = .disableTracing order → h.config.endsSession = false) :
    ThreadOpen t h' (begunAfter t h h' e begun) := by
  have hbegun : (h.infos t).stackDepth < traceStackDepthMax →
      ∃ n, begunAfter t h h' e begun = List.replicate (h.infos t).stackDepth true ++ List.replicate n false := by
    intro hlt
    obtain ⟨n, hn⟩ := ho.begun hlt
    cases e with
    | disableTracing order =>
      rw [begunAfter, hends order rfl]
      exact ⟨n, hn⟩
    | call u now c =>
      by_cases hut : u = t
      · subst hut
        have hnone := (hcall u now c rfl).2
        cases c with
        | beginTrace name =>
          have hdis : h.config.tracingDisabled = true := by
            simpa [Call.enter, Nat.ne_of_lt hlt] using hnone
          have hzero := ho.disabled hdis
          refine ⟨n + 1, ?_⟩
          rw [hzero] at hn ⊢
          simp only [begunAfter, if_true, hlog, Nat.lt_irrefl, decide_false, hn]
          rfl
        | endTrace =>
          have hzero : (h.infos u).stackDepth = 0 := by
            by_cases hdis : h.config.tracingDisabled = true
            · exact ho.disabled hdis
            · simpa [Call.enter, hdis, Nat.ne_of_lt hlt] using hnone
          rw [hzero] at hn ⊢
          refine ⟨n - 1, ?_⟩
          simp only [begunAfter, if_true, (begun_none hn).2]
          rfl
        | traceCounter name val => exact ⟨n, hn⟩
      · cases c with
        | traceCounter name val => exact ⟨n, hn⟩
        | _ =>
          simp only [begunAfter, if_neg hut]
          exact ⟨n, hn⟩
    | _ => exact ⟨n, hn⟩
  refine ⟨?_, ?_, ?_, ?_, ?_, ?_⟩
  · rw [hlog, hinfos]
    exact ho.ids
  · rw [hinfos]
    exact ho.setUp
  · rw [hinfos]
    exact ho.le
  · rw [hinfos]
    exact hbegun
  · rw [hinfos, hen]
    exact ho.disabled
  · rw [hinfos]
    exact fun hn => ho.fresh (hctx hn)

/-- A recorded call: what it writes matches, and the slices that are open
after it are those of the depth. -/
theorem ThreadOpen.record {now : UInt64} {c : Call} {info : ThreadInfo} {b : Body} (ho : ThreadOpen t h begun)
    (hm : Matched (slicesOf t h.log)) (henter : c.enter h.config (h.infos t) = some info)
    (hbody : c.body strings now h.config info = some b) (hinfos : h'.infos t = b.info)
    (hslices : slicesOf t h'.log = slicesOf t h.log ++ b.slices) (hlen : h.log.length < h'.log.length)
    (hen : h'.config.tracingDisabled = false) (hctx : t ∈ h'.contexts) :
    Matched (slicesOf t h'.log) ∧ ThreadOpen t h' (begunAfter t h h' (.call t now c) begun) := by
  have hids := ho.ids
  have hdis : ∀ {P : Prop}, h'.config.tracingDisabled = true → P := fun hd => by rw [hen] at hd; cases hd
  rcases Call.body_slices hbody with ⟨name, rfl, hd, hs⟩ | ⟨rfl, hi, hs⟩ | ⟨name, val, rfl, hd, hs⟩
  · simp only [Call.enter, Option.ite_none_left_eq_some, Option.some.injEq] at henter
    obtain ⟨-, hne, rfl⟩ := henter
    have hlt : (h.infos t).stackDepth < traceStackDepthMax := Nat.lt_of_le_of_ne ho.le hne
    have hopen := Call.body_openIds hbody ho.setUp
    obtain ⟨-, hset, -⟩ := Call.body_threadId (by simp) hbody
    rw [hs] at hslices
    refine ⟨?_, ?_, fun _ => hinfos ▸ hset, ?_, fun _ => ?_, hdis, fun hn => absurd hctx hn⟩
    · rw [hslices]
      exact hm.open _
    · rw [hslices, unmatched_append, hids, hinfos, hd]
      show _ :: _ = _ :: _
      rw [hopen]
    · rw [hinfos, hd]
      exact hlt
    · obtain ⟨n, hn⟩ := ho.begun hlt
      refine ⟨n, ?_⟩
      rw [hinfos, hd, List.replicate_succ]
      simp only [begunAfter, if_true, hlen, decide_true, hn]
      rfl
  · simp only [Call.enter, Option.ite_none_left_eq_some, Option.some.injEq] at henter
    obtain ⟨-, hne, hpos, rfl⟩ := henter
    obtain ⟨depth, hdepth⟩ : ∃ depth, (h.infos t).stackDepth = depth + 1 := Nat.exists_eq_succ_of_ne_zero hpos
    have hle := ho.le
    have hset : (h.infos t).needToSetThreadId = false := ho.setUp (Nat.pos_of_ne_zero hpos)
    have hsame : ∀ k, ({ h.infos t with stackDepth := depth } : ThreadInfo).openIds k = (h.infos t).openIds k := by
      intro k
      apply ThreadInfo.openIds_congr
      · rfl
      · exact fun _ _ => ⟨rfl, rfl⟩
    rw [hdepth, Nat.add_sub_cancel] at hi hs
    rw [hdepth] at hids
    rw [hs] at hslices
    refine ⟨?_, ?_, fun _ => ?_, ?_, fun _ => ?_, hdis, fun hn => absurd hctx hn⟩
    · rw [hslices]
      apply hm.close
      rw [hids]
      rfl
    · rw [hslices, unmatched_append, hids, hinfos, hi, hsame]
      rfl
    · rw [hinfos, hi]
      exact hset
    · rw [hinfos, hi]
      show depth ≤ _
      omega
    · obtain ⟨n, hn⟩ := ho.begun (Nat.lt_of_le_of_ne ho.le hne)
      refine ⟨n, ?_⟩
      rw [hdepth, List.replicate_succ] at hn
      rw [hinfos, hi]
      simp only [begunAfter, if_true, hn]
      rfl
  · simp only [Call.enter, Option.ite_none_left_eq_some, Option.some.injEq] at henter
    obtain ⟨-, rfl⟩ := henter
    have hopen := Call.body_openIds hbody ho.setUp
    obtain ⟨-, hset, -⟩ := Call.body_threadId (by simp) hbody
    rw [hs, List.append_nil] at hslices
    refine ⟨?_, ?_, fun _ => hinfos ▸ hset, ?_, ?_, hdis, fun hn => absurd hctx hn⟩
    · rw [hslices]
      exact hm
    · rw [hslices, hids, hinfos, hd, hopen]
    · rw [hinfos, hd]
      exact ho.le
    · rw [hinfos, hd]
      exact ho.begun

theorem ThreadOpen.other {u : Tid} {now : UInt64} {c : Call} (ho : ThreadOpen t h begun) (hut : u ≠ t)
    (hinfos : h'.infos t = h.infos t) (hslices : slicesOf t h'.log = slicesOf t h.log)
    (hen : h'.config.tracingDisabled = h.config.tracingDisabled) (hctx : t ∉ h'.contexts → t ∉ h.contexts) :
    ThreadOpen t h' (begunAfter t h h' (.call u now c) begun) := by
  have hbegun : begunAfter t h h' (.call u now c) begun = begun := by
    cases c with
    | traceCounter name val => rfl
    | _ => exact if_neg hut
  refine ⟨?_, ?_, ?_, ?_, ?_, ?_⟩
  · rw [hslices, hinfos]
    exact ho.ids
  · rw [hinfos]
    exact ho.setUp
  · rw [hinfos]
    exact ho.le
  · rw [hinfos, hbegun]
    exact ho.begun
  · rw [hinfos, hen]
    exact ho.disabled
  · rw [hinfos]
    exact fun hn => ho.fresh (hctx hn)

/-- The log is empty and the thread at depth 0: a session starts or has ended. -/
theorem ThreadOpen.blank {n : ℕ} (hlog : h'.log = []) (hzero : (h'.infos t).stackDepth = 0)
    (hbegun : begun = List.replicate n false) (hfresh : t ∉ h'.contexts → h'.infos t = {}) :
    ThreadOpen t h' begun := by
  refine ⟨?_, ?_, ?_, ?_, fun _ => hzero, hfresh⟩
  · rw [hlog, hzero]
    rfl
  · rw [hzero]
    exact fun hpos => absurd hpos (Nat.lt_irrefl 0)
  · rw [hzero]
    exact Nat.zero_le _
  · rw [hzero]
    exact fun _ => ⟨n, hbegun⟩

theorem sliceInv_step {s s' : HostState × List Bool} (hi : SliceInv t s) (hs : stepBegun strings fuel t s e = some s') :
    SliceInv t s' := by
  obtain ⟨h, begun⟩ := s
  obtain ⟨h', hstep, hs⟩ := Option.bind_eq_some_iff.mp hs
  obtain rfl := Option.some.inj hs
  have hnil : h'.log = [] → Matched (slicesOf t h'.log) := by
    intro hlog
    rw [hlog]
    exact matched_nil
  cases step_sliceStep hstep with
  | starts hd hen hlog hinfos hev =>
    obtain ⟨env, rfl⟩ := hev
    refine ⟨hnil hlog, fun hx => ?_⟩
    obtain ⟨hx', hctx, -⟩ := step_contexts hstep hx
    have ho := hi.threadOpen hx'
    have hzero := ho.disabled hd
    obtain ⟨n, hn⟩ := ho.begun (by rw [hzero]; decide)
    rw [hzero] at hn
    refine ThreadOpen.blank hlog (by rw [hinfos]; exact hzero) hn fun hn' => ?_
    rw [hinfos]
    exact ho.fresh (hctx hn')
  | ends order hev hends hperm hdis hlog hinfos =>
    subst hev
    refine ⟨hnil hlog, fun hx => ?_⟩
    obtain ⟨hx', hctx, -⟩ := step_contexts hstep hx
    have ho := hi.threadOpen hx'
    have hout : t ∉ order → h'.infos t = {} := by
      intro hn
      rw [hinfos t, if_neg hn]
      exact ho.fresh fun hm => hn (hperm.mem_iff.mpr hm)
    have hbegun : begunAfter t h h' (.disableTracing order) begun = List.replicate begun.length false := by
      simp only [begunAfter, hends, if_true, List.map_const']
    refine ThreadOpen.blank hlog ?_ hbegun fun hn => hout fun hm => hctx hn (hperm.mem_iff.mp hm)
    by_cases hm : t ∈ order
    · rw [hinfos t, if_pos hm]
      rfl
    · rw [hout hm]
  | records u now c info b hev halive henter hbody hinfos hlog hen =>
    subst hev
    have hslices : slicesOf t h'.log = slicesOf t h.log ++ if u = t then b.slices else [] := by
      rw [hlog, slicesOf_append, slicesOf_body]
    by_cases hut : u = t
    · subst hut
      rw [if_pos rfl] at hslices
      have ho := hi.threadOpen halive
      have hx : h'.exited u = false := by
        obtain ⟨-, ⟨-, rfl⟩ | ⟨_, _, _, -, -, -, rfl⟩⟩ := HostState.call_cases hstep
        all_goals
          rw [HostState.beforeCall_eq]
          exact halive
      have hen₀ := Call.enter_disabled henter
      obtain ⟨-, -, hctx⟩ := step_contexts hstep hx
      have hlen : h.log.length < h'.log.length := by
        have hne : 0 < b.packets.length := List.length_pos_iff.mpr (Call.body_disabled hbody).1
        rw [hlog, List.length_append, List.length_map, List.length_map]
        exact Nat.lt_add_of_pos_right hne
      obtain ⟨hm, ho'⟩ := ho.record hi.matched henter hbody (by rw [hinfos, Function.update_self]) hslices hlen
        (hen.trans hen₀) (hctx now c rfl hen₀)
      exact ⟨hm, fun _ => ho'⟩
    · rw [if_neg hut, List.append_nil] at hslices
      refine ⟨hslices ▸ hi.matched, fun hx => ?_⟩
      obtain ⟨hx', hctx, -⟩ := step_contexts hstep hx
      have hsame : h'.infos t = h.infos t := by
        rw [hinfos]
        exact Function.update_of_ne (fun htu => hut htu.symm) _ _
      exact (hi.threadOpen hx').other hut hsame hslices hen hctx
  | idle hcall hends hinfos hlog hen =>
    refine ⟨hlog ▸ hi.matched, fun hx => ?_⟩
    obtain ⟨hx', hctx, -⟩ := step_contexts hstep hx
    exact (hi.threadOpen hx').idle hinfos hlog hen hctx hcall hends

/-- **Every end matches its beginning**, and the end of a slice whose beginning
is not recorded in the session writes nothing. -/
theorem slices_matched {s : HostState × List Bool} (hr : BegunReach strings fuel t s) :
    Matched (slicesOf t s.1.log) ∧ ∀ now h', s.1.step strings fuel (.call t now .endTrace) = some h' →
      s.2.head? ≠ some true → h'.log = s.1.log := by
  have hinv : SliceInv t s := by
    refine Reach.inv (P := SliceInv t) ?_ (fun s e s' hi _ hs => sliceInv_step hi hs) hr
    intro s hs
    obtain ⟨⟨config, hd, hconfig⟩, hbegun⟩ := hs
    have hlog : s.1.log = [] := by rw [hconfig]
    have hinfos : s.1.infos t = {} := by rw [hconfig]
    refine ⟨by rw [hlog]; exact matched_nil, fun _ => ?_⟩
    exact ThreadOpen.blank (n := 0) hlog (by rw [hinfos]) hbegun fun _ => hinfos
  refine ⟨hinv.matched, fun now h' hs hhead => ?_⟩
  obtain ⟨hx, ⟨-, rfl⟩ | ⟨info, b, w, henter, -, -, -⟩⟩ := HostState.call_cases hs
  · rw [HostState.beforeCall_eq]
  · have ho := hinv.threadOpen hx
    simp only [Call.enter, Option.ite_none_left_eq_some, Option.some.injEq] at henter
    obtain ⟨-, hne, hpos, -⟩ := henter
    obtain ⟨n, hn⟩ := ho.begun (Nat.lt_of_le_of_ne ho.le hne)
    obtain ⟨depth, hdepth⟩ : ∃ depth, (s.1.infos t).stackDepth = depth + 1 := Nat.exists_eq_succ_of_ne_zero hpos
    rw [hdepth, List.replicate_succ] at hn
    rw [hn] at hhead
    exact absurd rfl hhead

/-- A slice that is begun in one session, and one in the next. -/
theorem slices_matched_second : ∃ s : HostState × List Bool, (slicesOf 0 s.1.log).map Prod.fst = [U, D] ∧
    s.2 = [false] ∧ Matched (slicesOf 0 s.1.log) ∧
      ∀ now h', s.1.step (fun _ => [97]) 3 (.call 0 now .endTrace) = some h' → h'.log = s.1.log := by
  have hrun : ((Runs.run (stepBegun (fun _ => [97]) 3 0) ({ config := { hostFilename := some "host" } }, [])
      [.enableTracing {}, .call 0 5 (.beginTrace 7), .disableTracing [0], .enableTracing {},
        .call 0 6 (.beginTrace 8), .call 0 7 .endTrace]).map
      fun s => ((slicesOf 0 s.1.log).map Prod.fst, s.2)) = some ([U, D], [false]) := by
    decide +kernel
  obtain ⟨s, hr, heq⟩ := Option.map_eq_some_iff.mp hrun
  obtain ⟨hslices, hbegun⟩ := Prod.mk.inj heq
  have hstart : BegunReach (fun _ => [97]) 3 0 ({ config := { hostFilename := some "host" } }, []) :=
    .init ⟨⟨_, rfl, rfl⟩, rfl⟩
  have hreach := Reach.run_of _ (by simp [CountsBelow]) hstart hr
  obtain ⟨hm, hend⟩ := slices_matched hreach
  exact ⟨s, hslices, hbegun, hm, fun now h' hs => hend now h' hs (by rw [hbegun]; decide)⟩

end

end Host
end VPerfetto
