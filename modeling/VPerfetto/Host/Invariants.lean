/-
# Contexts and sessions

Two invariants of the tracing machine. `Base` holds in every reachable state:
a thread outside `mContexts` has no buffer and no call in progress, and unless
it has exited its context is as good as new. `SessionInv` needs that no
body runs outside the session of its call: then the store holds exactly the
packets of the session, and before the first of them every context is blank.

Key definitions: `Base`, `InSession`, `SessionInv`.
Key theorems: `base_step`, `sessionInv_step`.
-/
import VPerfetto.Host.Machine

namespace VPerfetto
namespace Host

open Wire Chunks Machine

/-- What holds of contexts whatever the order of steps. -/
structure Base (m : Machine) : Prop where
  nodup : m.contexts.Nodup
  alive : ∀ t ∈ m.contexts, m.exited t = false
  buffer : ∀ t ∉ m.contexts, m.store.current t = none ∧ m.store.first t = false
  pending : ∀ t ∉ m.contexts, m.pending t = none
  fresh : ∀ t ∉ m.contexts, m.exited t = false → m.infos t = {}

section

variable {strings : Ptr → Bytes} {m m' : Machine}

theorem mem_construct {t u : Tid} : u ∈ (m.construct t).contexts ↔ u ∈ m.contexts ∨ u = t := by
  unfold construct
  split
  · rename_i h
    constructor
    · exact Or.inl
    · intro hex
      rcases hex with hu | rfl
      · exact hu
      · exact h
  · simp

theorem Base.construct (h : Base m) {t : Tid} (ht : m.exited t = false) : Base (m.construct t) := by
  unfold Machine.construct
  split
  · exact h
  · rename_i hn
    refine ⟨?_, fun u hu => ?_, fun u hu => ?_, fun u hu => ?_, fun u hu => ?_⟩
    · rw [List.nodup_append]
      exact ⟨h.nodup, by simp, fun a ha b hb hab =>
        hn (List.mem_singleton.mp hb ▸ hab ▸ ha)⟩
    · rcases List.mem_append.mp hu with hu | hu
      · exact h.alive u hu
      · rw [List.mem_singleton.mp hu]
        exact ht
    all_goals have hu' : u ∉ m.contexts := fun hm => hu (List.mem_append_left _ hm)
    · exact h.buffer u hu'
    · exact h.pending u hu'
    · exact h.fresh u hu'

theorem Base.endSession (h : Base m) {order : List Tid} (hp : order.Perm m.contexts) :
    Base (m.endSession order) := by
  refine ⟨h.nodup, h.alive, fun t ht => ?_, h.pending, fun t ht hx => ?_⟩
  · have hb := h.buffer t ht
    simp [Machine.endSession, saveAll_current, saveAll_first, hb]
  · have hn : t ∉ order := fun hm => ht (hp.mem_iff.mp hm)
    simp only [Machine.endSession, hn, if_false]
    exact h.fresh t ht hx

theorem Base.afterEnter (h : Base m) {t : Tid} (ht : m.exited t = false) (call : Call) (info : ThreadInfo) :
    Base (m.afterEnter t call info) := by
  have hc := h.construct ht
  have ht' : t ∈ (m.construct t).contexts := mem_construct.mpr (Or.inr rfl)
  have hi : (m.construct t).infos = m.infos := by
    unfold Machine.construct
    split <;> rfl
  have hq : (m.construct t).pending = m.pending := by
    unfold Machine.construct
    split <;> rfl
  refine ⟨hc.nodup, hc.alive, hc.buffer, fun u hu => ?_, fun u hu hx => ?_⟩
  all_goals have hne : u ≠ t := fun he => hu (he ▸ ht')
  · rw [← hc.pending u hu]
    simp [Machine.afterEnter, hne, hq]
  · rw [← hc.fresh u hu hx]
    simp [Machine.afterEnter, hne, hi]

theorem Base.afterBody (h : Base m) {t : Tid} (ht : t ∈ m.contexts) (full : ℕ → Bool) (call : Call)
    (b : Body) : Base (m.afterBody t full call b) := by
  refine ⟨h.nodup, h.alive, fun u hu => ?_, fun u hu => ?_, fun u hu hx => ?_⟩
  all_goals have hne : u ≠ t := fun he => hu (he ▸ ht)
  · obtain ⟨h1, h2⟩ := putAll_of_ne hne full (b.packets.map (emitted (call.name (m.openNames t))))
      (if b.first then mark t m.store else m.store)
    obtain ⟨h3, h4⟩ := h.buffer u hu
    refine ⟨h1.trans ?_, h2.trans ?_⟩
    · split
      · exact h3
      · exact h3
    · split
      · rw [mark_of_ne _ hne, h4]
      · exact h4
  · simp only [Machine.afterBody, Function.update_of_ne hne]
    exact h.pending u hu
  · simp only [Machine.afterBody, Function.update_of_ne hne]
    exact h.fresh u hu hx

theorem Base.exit (h : Base m) {t : Tid} (hq : m.pending t = none) :
    Base { m with
      contexts := m.contexts.erase t
      store := save t m.store
      exited := Function.update m.exited t true } := by
  have hmem : ∀ u, u ∈ m.contexts.erase t ↔ u ≠ t ∧ u ∈ m.contexts := fun u => h.nodup.mem_erase_iff
  refine ⟨h.nodup.erase t, fun u hu => ?_, fun u hu => ?_, fun u hu => ?_, fun u hu hx => ?_⟩
  · obtain ⟨hne, hu⟩ := (hmem u).mp hu
    simpa [hne] using h.alive u hu
  · by_cases hne : u = t
    · simp [save_current, save_first, hne]
    · have hb := h.buffer u fun hm => hu ((hmem u).mpr ⟨hne, hm⟩)
      simp [save_current, save_first, hne, hb]
  · by_cases hne : u = t
    · rw [hne]
      exact hq
    · exact h.pending u fun hm => hu ((hmem u).mpr ⟨hne, hm⟩)
  · have hne : u ≠ t := by
      rintro rfl
      simp at hx
    apply h.fresh u (fun hm => hu ((hmem u).mpr ⟨hne, hm⟩))
    simpa [hne] using hx

/-- A call that is being made belongs to a context. -/
theorem Base.mem_of_pending (h : Base m) {t : Tid} {q : Call × ℕ} (hq : m.pending t = some q) :
    t ∈ m.contexts := by
  by_contra hn
  rw [h.pending t hn] at hq
  exact Option.some_ne_none _ hq.symm

theorem base_step {e : Event} (h : Base m) (hs : m.step strings e = some m') : Base m' := by
  cases e with
  | enableTracing env =>
    obtain rfl := Option.some.inj hs
    unfold Machine.enableTracing
    dsimp only
    split <;> exact ⟨h.nodup, h.alive, h.buffer, h.pending, h.fresh⟩
  | disableTracing order =>
    rcases disableTracing_cases hs with ⟨-, hp, rfl⟩ | ⟨-, rfl⟩
    · exact h.endSession hp
    · exact ⟨h.nodup, h.alive, h.buffer, h.pending, h.fresh⟩
  | setGuestTime t now =>
    obtain rfl := Option.some.inj hs
    exact ⟨h.nodup, h.alive, h.buffer, h.pending, h.fresh⟩
  | enter t call =>
    obtain ⟨hx, -, ⟨-, rfl⟩ | ⟨info, -, rfl⟩⟩ := enter_cases hs
    · split
      · exact h
      · exact h.construct hx
    · exact h.afterEnter hx call info
  | body t now full =>
    obtain ⟨call, n, b, hq, -, rfl⟩ := body_cases hs
    exact h.afterBody (h.mem_of_pending hq) full call b
  | exit t =>
    obtain ⟨-, hq, rfl⟩ := exit_cases hs
    exact h.exit hq

/-! ### Sessions -/

/-- A body runs while tracing is enabled, and the body of `endTrace`, which
does not set up the thread again, in the session of its tests. -/
def InSession (m : Machine) : Event → Prop
  | .body t _ _ =>
    m.config.tracingDisabled = false ∧ ∀ n, m.pending t = some (.endTrace, n) → n = m.ended
  | _ => True

/-- The store holds the packets of the session, and before the first of them
every context is blank. -/
structure SessionInv (m : Machine) : Prop where
  holds : Holds m.store m.log
  log_disabled : m.config.tracingDisabled = true → m.log = []
  blank : m.log = [] → ∀ t, m.exited t = false → (m.infos t).reset = m.infos t
  pending_le : ∀ t q, m.pending t = some q → q.2 ≤ m.ended
  pending_end : ∀ t, m.pending t = some (.endTrace, m.ended) → m.log ≠ []

theorem enableTracing_disabled {env : Env} {c : VirtualDeviceTraceConfig}
    (h : (c.enableTracing env).tracingDisabled = true) : c.tracingDisabled = true := by
  rcases c.enableTracing_cases env with ⟨hd, -, -, -⟩ | he
  · exact hd
  · rw [he] at h
    exact h

theorem disableTracing_disabled {c : VirtualDeviceTraceConfig} (he : c.endsSession = false)
    (h : c.disableTracing.tracingDisabled = true) : c.tracingDisabled = true := by
  rcases VirtualDeviceTraceConfig.disableTracing_of_not_endsSession he with ⟨-, hc⟩ | ⟨hd, -⟩
  · rwa [hc] at h
  · exact hd

theorem setGuestTime_disabled (t now : UInt64) (c : VirtualDeviceTraceConfig) :
    (c.setGuestTime t now).tracingDisabled = c.tracingDisabled := by
  unfold VirtualDeviceTraceConfig.setGuestTime
  split <;> rfl

/-- The body of a call leaves tracing as it was and writes something. -/
theorem Call.body_disabled {call : Call} {now : UInt64} {c : VirtualDeviceTraceConfig} {i : ThreadInfo}
    {b : Body} (h : call.body strings now c i = some b) :
    b.packets ≠ [] ∧ b.config.tracingDisabled = c.tracingDisabled := by
  have hQ : Writable strings (fun _ => True) c i call := by constructor <;> intros <;> trivial
  obtain ⟨hne, ⟨-, -, hc⟩ | ⟨-, b₀, h0, hx⟩⟩ := Call.body_cases hQ h
  · exact ⟨hne, by rw [hc]⟩
  · obtain ⟨ii, ti, hc⟩ := hx.config
    refine ⟨hne, ?_⟩
    rw [hc]
    rcases writeSequenceId_cases h0 with ⟨-, rfl⟩ | ⟨-, -, rfl⟩ <;> rfl

theorem holds_nil {s : Store Tid Emitted} (hs : s.saved = []) (hn : ∀ t, s.current t = none) :
    Holds s [] := by
  intro t
  rw [hs, hn]
  rfl

/-- After the contexts are saved no thread has a buffer. -/
theorem Base.saveAll_current (h : Base m) {order : List Tid} (hp : order.Perm m.contexts) (t : Tid) :
    (saveAll order m.store).current t = none := by
  rw [Chunks.saveAll_current]
  split
  · rfl
  · rename_i hn
    exact (h.buffer t fun hm => hn (hp.mem_iff.mpr hm)).1

/-- The tests of a call before the first packet: `endTrace` does not pass them. -/
theorem enter_blank {call : Call} {c : VirtualDeviceTraceConfig} {i info : ThreadInfo}
    (hb : i.reset = i) (h : call.enter c i = some info) : info = i ∧ call ≠ .endTrace := by
  have hd : i.stackDepth = 0 := by
    rw [← hb]
    rfl
  rcases Call.enter_info h with ⟨hne, hi⟩ | ⟨-, hpos, -⟩
  · exact ⟨hi, hne⟩
  · omega

theorem construct_eq (t : Tid) : ∃ cs, m.construct t = { m with contexts := cs } := by
  unfold construct
  split
  · exact ⟨m.contexts, rfl⟩
  · exact ⟨_, rfl⟩

theorem SessionInv.afterEnter (h : SessionInv m) {t : Tid} (hx : m.exited t = false) {call : Call}
    {info : ThreadInfo} (he : call.enter m.config (m.infos t) = some info) :
    SessionInv (m.afterEnter t call info) := by
  obtain ⟨cs, hcs⟩ := construct_eq (m := m) t
  unfold Machine.afterEnter
  rw [hcs]
  refine ⟨h.holds, h.log_disabled, fun hl u hu => ?_, fun u q hq => ?_, fun u hu => ?_⟩
  · by_cases hut : u = t
    · subst hut
      have hb := h.blank hl u hx
      simp only [Function.update_self, (enter_blank hb he).1]
      exact hb
    · simp only [Function.update_of_ne hut]
      exact h.blank hl u hu
  · by_cases hut : u = t
    · subst hut
      simp only [Function.update_self, Option.some.injEq] at hq
      exact Nat.le_of_eq (congrArg Prod.snd hq.symm)
    · simp only [Function.update_of_ne hut] at hq
      exact h.pending_le u q hq
  · by_cases hut : u = t
    · subst hut
      intro hl
      simp only [Function.update_self, Option.some.injEq, Prod.mk.injEq, and_true] at hu
      exact (enter_blank (h.blank hl u hx) he).2 hu
    · simp only [Function.update_of_ne hut] at hu
      exact h.pending_end u hu

theorem SessionInv.afterBody (h : SessionInv m) (t : Tid) (full : ℕ → Bool) {call : Call} {now : UInt64}
    {b : Body} (hd : m.config.tracingDisabled = false)
    (hb : call.body strings now m.config (m.infos t) = some b) : SessionInv (m.afterBody t full call b) := by
  obtain ⟨hne, hc⟩ := Call.body_disabled hb
  have hlog : (m.afterBody t full call b).log ≠ [] := by
    simp [Machine.afterBody, hne]
  refine ⟨?_, fun hd' => ?_, fun hl => absurd hl hlog, fun u q hq => ?_, fun u _ => hlog⟩
  · unfold Machine.afterBody
    dsimp only
    split
    · exact Holds.putAll t full _ (h.holds.mark t)
    · exact Holds.putAll t full _ h.holds
  · have : b.config.tracingDisabled = true := hd'
    rw [hc, hd] at this
    exact absurd this Bool.false_ne_true
  · by_cases hut : u = t
    · subst hut
      simp [Machine.afterBody] at hq
    · simp only [Machine.afterBody, Function.update_of_ne hut] at hq
      exact h.pending_le u q hq

theorem SessionInv.endSession (h : SessionInv m) (hb : Base m) {order : List Tid}
    (hp : order.Perm m.contexts) : SessionInv (m.endSession order) := by
  refine ⟨holds_nil rfl (hb.saveAll_current hp), fun _ => rfl, fun _ t hx => ?_, fun t q hq => ?_,
    fun t ht => ?_⟩
  · unfold Machine.endSession
    dsimp only
    split
    · rfl
    · rename_i hn
      rw [hb.fresh t (fun hm => hn (hp.mem_iff.mpr hm)) hx]
      rfl
  · exact Nat.le_succ_of_le (h.pending_le t q hq)
  · exact absurd (h.pending_le t _ ht) (Nat.not_succ_le_self m.ended)

theorem sessionInv_step {e : Event} (h : SessionInv m) (hb : Base m) (hok : InSession m e)
    (hs : m.step strings e = some m') : SessionInv m' := by
  cases e with
  | enableTracing env =>
    obtain rfl := Option.some.inj hs
    unfold Machine.enableTracing
    dsimp only
    split
    · rename_i hstart
      simp only [Bool.and_eq_true] at hstart
      have hl := h.log_disabled hstart.1
      refine ⟨hl ▸ h.holds, fun _ => rfl, fun _ => h.blank hl, h.pending_le, fun t ht => ?_⟩
      exact absurd hl (h.pending_end t ht)
    · exact ⟨h.holds, fun hd => h.log_disabled (enableTracing_disabled hd), h.blank, h.pending_le,
        h.pending_end⟩
  | disableTracing order =>
    rcases disableTracing_cases hs with ⟨-, hp, rfl⟩ | ⟨he, rfl⟩
    · exact h.endSession hb hp
    · exact ⟨h.holds, fun hd => h.log_disabled (disableTracing_disabled he hd), h.blank, h.pending_le,
        h.pending_end⟩
  | setGuestTime t now =>
    obtain rfl := Option.some.inj hs
    refine ⟨h.holds, fun hd => h.log_disabled ?_, h.blank, h.pending_le, h.pending_end⟩
    rwa [setGuestTime_disabled] at hd
  | enter t call =>
    obtain ⟨hx, -, ⟨-, rfl⟩ | ⟨info, he, rfl⟩⟩ := enter_cases hs
    · split
      · exact h
      · obtain ⟨cs, hcs⟩ := construct_eq (m := m) t
        rw [hcs]
        exact ⟨h.holds, h.log_disabled, h.blank, h.pending_le, h.pending_end⟩
    · exact h.afterEnter hx he
  | body t now full =>
    obtain ⟨call, n, b, -, hbody, rfl⟩ := body_cases hs
    exact h.afterBody t full hok.1 hbody
  | exit t =>
    obtain ⟨-, -, rfl⟩ := exit_cases hs
    refine ⟨h.holds.save t, h.log_disabled, fun hl u hu => h.blank hl u ?_, h.pending_le, h.pending_end⟩
    by_cases hut : u = t
    · subst hut
      simp at hu
    · simpa [hut] using hu

end

end Host
end VPerfetto
