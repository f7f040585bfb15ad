/-
# Sessions and the two steps of a call

A call tests `tracingDisabled` before it takes the lock, and `disableTracing`
does not wait for calls between their test and their body. A body that runs
after its session was drained puts packets into a buffer that the next
session's file is written from, with ids of a counter that has been reset.

When every body runs in an enabled session, and that of `endTrace` in the one
of its test, each host file holds the packets of its own session and thread
tracks are told apart.

Key definitions: `Packet.sliceTrack`, `SessionsApart`, `InOwnSession`.
-/
import VPerfetto.Host.Invariants

namespace VPerfetto
namespace Host

open Wire Chunks Machine Runs

/-- The track of a slice event. -/
def Packet.sliceTrack : Packet → Option UInt32
  | .sliceBegin _ threadId _ _ => some threadId
  | .sliceEnd _ threadId _ _ => some threadId
  | _ => none

/-- The host file that `disableTracing` would write now has only packets
emitted since the session began, and no track with slices of two threads. -/
def SessionsApart (m : Machine) : Prop :=
  ∀ order : List Tid, m.config.endsSession = true → order.Perm m.contexts →
    (m.hostFile order).Subperm m.log ∧
    ∀ x ∈ m.hostFile order, ∀ y ∈ m.hostFile order, ∀ id,
      x.2.packet.sliceTrack = some id → y.2.packet.sliceTrack = some id → x.1 = y.1

/-- A machine before its first session. -/
def Initial (m : Machine) : Prop :=
  ∃ config : VirtualDeviceTraceConfig, config.tracingDisabled = true ∧ m = { config := config }

/-- The body of a call runs in an enabled session (that of `endTrace` in the
session of its test), and the thread id it hands out, if any, is not past the
last one. -/
def InOwnSession (m : Machine) (e : Event) : Prop :=
  InSession m e ∧ ∀ t now full, e = .body t now full → (m.infos t).needToSetThreadId = true →
    m.config.currentThreadId.toNat + 1 < 2 ^ 32

/-- Before the first session there is no context and no packet. -/
theorem base_initial (config : VirtualDeviceTraceConfig) : Base { config := config } :=
  ⟨List.nodup_nil, nofun, fun _ _ => ⟨rfl, rfl⟩, fun _ _ => rfl, fun _ _ _ => rfl⟩

theorem sessionInv_initial (config : VirtualDeviceTraceConfig) : SessionInv { config := config } :=
  ⟨holds_nil rfl fun _ => rfl, fun _ => rfl, fun _ _ _ => rfl, nofun, nofun⟩

/-! ### Thread ids -/

/-- In the log of a session a track is introduced by one thread, and before
any of its slices. -/
structure ThreadIds (m : Machine) : Prop where
  le : ∀ x ∈ m.log, ∀ id, x.2.packet = .threadTrack id → id.toNat ≤ m.config.currentThreadId.toNat
  unique : ∀ x ∈ m.log, ∀ y ∈ m.log, ∀ id, x.2.packet = .threadTrack id →
    y.2.packet = .threadTrack id → x.1 = y.1
  slices : ∀ x ∈ m.log, ∀ id, x.2.packet.sliceTrack = some id →
    ∃ y ∈ m.log, y.1 = x.1 ∧ y.2.packet = .threadTrack id
  owned : ∀ t, m.exited t = false → (m.infos t).needToSetThreadId = false →
    ∃ y ∈ m.log, y.1 = t ∧ y.2.packet = .threadTrack (m.infos t).threadId
  depth : ∀ t, m.exited t = false → 0 < (m.infos t).stackDepth → (m.infos t).needToSetThreadId = false
  pendingEnd : ∀ t, m.pending t = some (.endTrace, m.ended) → (m.infos t).needToSetThreadId = false

section

variable {strings : Ptr → Bytes} {m m' : Machine}

/-- With an empty log and blank contexts there is nothing to tell apart. -/
theorem threadIds_blank (hl : m.log = []) (hb : ∀ t, m.exited t = false → (m.infos t).reset = m.infos t)
    (hp : ∀ t, m.pending t ≠ some (.endTrace, m.ended)) : ThreadIds m := by
  refine ⟨?_, ?_, ?_, fun t hx hn => ?_, fun t hx hd => ?_, fun t ht => absurd ht (hp t)⟩
  · simp [hl]
  · simp [hl]
  · simp [hl]
  · rw [← hb t hx] at hn
    exact absurd hn.symm Bool.false_ne_true
  · rw [← hb t hx] at hd
    exact absurd hd (Nat.lt_irrefl 0)

theorem ThreadIds.afterEnter (h : ThreadIds m) {t : Tid} (hx : m.exited t = false) {call : Call}
    {info : ThreadInfo} (he : call.enter m.config (m.infos t) = some info) :
    ThreadIds (m.afterEnter t call info) := by
  obtain ⟨cs, hcs⟩ := construct_eq (m := m) t
  have hinfo : info.needToSetThreadId = (m.infos t).needToSetThreadId ∧
      info.threadId = (m.infos t).threadId ∧ info.stackDepth ≤ (m.infos t).stackDepth ∧
      (call = .endTrace → 0 < (m.infos t).stackDepth) := by
    rcases Call.enter_info he with ⟨hne, rfl⟩ | ⟨-, hpos, rfl⟩
    · exact ⟨rfl, rfl, Nat.le_refl _, fun h => absurd h hne⟩
    · exact ⟨rfl, rfl, Nat.sub_le _ _, fun _ => hpos⟩
  obtain ⟨hn, hid, hdepth, hend⟩ := hinfo
  unfold Machine.afterEnter
  rw [hcs]
  refine ⟨h.le, h.unique, h.slices, fun u hu hnu => ?_, fun u hu hdu => ?_, fun u hq => ?_⟩
  all_goals
    by_cases hut : u = t
  · subst hut
    simp only [Function.update_self, hn, hid] at hnu ⊢
    exact h.owned u hu hnu
  · simp only [Function.update_of_ne hut] at hnu ⊢
    exact h.owned u hu hnu
  · subst hut
    simp only [Function.update_self, hn] at hdu ⊢
    exact h.depth u hu (Nat.lt_of_lt_of_le hdu hdepth)
  · simp only [Function.update_of_ne hut] at hdu ⊢
    exact h.depth u hu hdu
  · subst hut
    simp only [Function.update_self, Option.some.injEq, Prod.mk.injEq, and_true, hn] at hq ⊢
    exact h.depth u hx (hend hq)
  · simp only [Function.update_of_ne hut] at hq ⊢
    exact h.pendingEnd u hq

theorem mem_afterBody_log {t : Tid} {full : ℕ → Bool} {call : Call} {b : Body} {x : Tid × Emitted} :
    x ∈ (m.afterBody t full call b).log ↔
      x ∈ m.log ∨ ∃ p ∈ b.packets, x = (t, emitted (call.name (m.openNames t)) p) := by
  simp only [Machine.afterBody, List.mem_append, List.mem_map]
  constructor
  · intro h
    rcases h with hx | ⟨e, ⟨p, hp, rfl⟩, rfl⟩
    · exact Or.inl hx
    · exact Or.inr ⟨p, hp, rfl⟩
  · intro h
    rcases h with hx | ⟨p, hp, rfl⟩
    · exact Or.inl hx
    · exact Or.inr ⟨_, ⟨p, hp, rfl⟩, rfl⟩

/-- Every packet of a body is a new track or is about the thread's own. -/
theorem Call.body_tracks {call : Call} {now : UInt64} {c : VirtualDeviceTraceConfig} {i : ThreadInfo} {b : Body}
    (hset : call = .endTrace → i.needToSetThreadId = false) (hb : call.body strings now c i = some b) :
    ∀ p ∈ b.packets,
      (∀ id, p = .threadTrack id → i.needToSetThreadId = true ∧ id = c.currentThreadId + 1) ∧
        ∀ id, p.sliceTrack = some id → id = i.assignedId c := by
  refine Call.body_packets ⟨?_, ?_, ?_, ?_, ?_, ?_, ?_⟩ (by simp [Packet.sliceTrack]) hb
  · simp [Packet.sliceTrack]
  · intro hn
    simp [Packet.sliceTrack, hn]
  · simp [Packet.sliceTrack]
  · intro ts cat iid
    simp [Packet.sliceTrack]
  · intro hc ts cat iid
    simp [Packet.sliceTrack, ThreadInfo.assignedId, hset hc]
  · simp [Packet.sliceTrack]
  · simp [Packet.sliceTrack]

/-- A new track has the next id, which is above all ids handed out before. -/
theorem Call.body_newTrack {call : Call} {now : UInt64} {c : VirtualDeviceTraceConfig} {i : ThreadInfo}
    {b : Body} (hset : call = .endTrace → i.needToSetThreadId = false)
    (hwrap : i.needToSetThreadId = true → c.currentThreadId.toNat + 1 < 2 ^ 32)
    (hb : call.body strings now c i = some b) :
    c.currentThreadId.toNat ≤ b.config.currentThreadId.toNat ∧ ∀ id, .threadTrack id ∈ b.packets →
      c.currentThreadId.toNat < id.toNat ∧ id = b.config.currentThreadId := by
  obtain ⟨-, -, hcur, -⟩ := Call.body_assignedId hset hb
  have hnext : i.needToSetThreadId = true →
      (c.currentThreadId + 1).toNat = c.currentThreadId.toNat + 1 := by
    intro hn
    have hlt := hwrap hn
    rw [UInt32.toNat_add]
    simp only [UInt32.toNat_one]
    omega
  constructor
  · rw [hcur]
    split
    · rename_i hn
      have := hnext hn
      omega
    · exact Nat.le_refl _
  · intro id hp
    obtain ⟨hn, rfl⟩ := (Call.body_tracks hset hb _ hp).1 id rfl
    have := hnext hn
    exact ⟨by omega, by rw [hcur, if_pos hn]⟩

/-- A body in its own session: a new track has a new id, and slices are on the
thread's own track. -/
theorem ThreadIds.afterBody (h : ThreadIds m) {t : Tid} (hx : m.exited t = false) (full : ℕ → Bool)
    {call : Call} {n : ℕ} {now : UInt64} {b : Body} (hq : m.pending t = some (call, n))
    (hend : call = .endTrace → n = m.ended)
    (hwrap : (m.infos t).needToSetThreadId = true → m.config.currentThreadId.toNat + 1 < 2 ^ 32)
    (hb : call.body strings now m.config (m.infos t) = some b) : ThreadIds (m.afterBody t full call b) := by
  have hset : call = .endTrace → (m.infos t).needToSetThreadId = false := by
    intro hc
    apply h.pendingEnd t
    rw [hq, hc, hend hc]
  have htracks := Call.body_tracks hset hb
  obtain ⟨hid, hdone, -, htrack⟩ := Call.body_assignedId hset hb
  obtain ⟨hcur, hnew⟩ := Call.body_newTrack hset hwrap hb
  have hown : ∃ y ∈ (m.afterBody t full call b).log, y.1 = t ∧
      y.2.packet = .threadTrack ((m.infos t).assignedId m.config) := by
    by_cases hn : (m.infos t).needToSetThreadId = true
    · refine ⟨_, mem_afterBody_log.mpr (Or.inr ⟨_, htrack hn, rfl⟩), rfl, ?_⟩
      simp [emitted, ThreadInfo.assignedId, hn]
    · simp only [Bool.not_eq_true] at hn
      obtain ⟨y, hy, hyt, hyp⟩ := h.owned t hx hn
      refine ⟨y, mem_afterBody_log.mpr (Or.inl hy), hyt, ?_⟩
      simp [ThreadInfo.assignedId, hn, hyp]
  refine ⟨?le, ?unique, ?slices, ?owned, ?depth, ?pendingEnd⟩
  case le =>
    intro x hm id hp
    show id.toNat ≤ b.config.currentThreadId.toNat
    rcases mem_afterBody_log.mp hm with hm | ⟨p, hpm, rfl⟩
    · exact Nat.le_trans (h.le x hm id hp) hcur
    · exact Nat.le_of_eq (congrArg UInt32.toNat (hnew id (hp ▸ hpm)).2)
  case unique =>
    intro x hm y hm' id hp hp'
    rcases mem_afterBody_log.mp hm with hm | ⟨p, hpm, rfl⟩ <;>
      rcases mem_afterBody_log.mp hm' with hm' | ⟨q, hqm, rfl⟩
    · exact h.unique x hm y hm' id hp hp'
    · exact absurd (h.le x hm id hp) (Nat.not_le.mpr (hnew id (hp' ▸ hqm)).1)
    · exact absurd (h.le y hm' id hp') (Nat.not_le.mpr (hnew id (hp ▸ hpm)).1)
    · rfl
  case slices =>
    intro x hm id hp
    rcases mem_afterBody_log.mp hm with hm | ⟨p, hpm, rfl⟩
    · obtain ⟨y, hy, hyx, hyp⟩ := h.slices x hm id hp
      exact ⟨y, mem_afterBody_log.mpr (Or.inl hy), hyx, hyp⟩
    · rw [(htracks p hpm).2 id hp]
      exact hown
  case owned =>
    intro u hu hnu
    by_cases hut : u = t
    · subst hut
      simp only [Machine.afterBody, Function.update_self, hid] at hown ⊢
      exact hown
    · have hnu' : (m.infos u).needToSetThreadId = false := by
        simpa [Machine.afterBody, Function.update_of_ne hut] using hnu
      obtain ⟨y, hy, hyu, hyp⟩ := h.owned u hu hnu'
      refine ⟨y, mem_afterBody_log.mpr (Or.inl hy), hyu, ?_⟩
      simpa [Machine.afterBody, Function.update_of_ne hut] using hyp
  case depth =>
    intro u hu hdu
    by_cases hut : u = t
    · subst hut
      simp only [Machine.afterBody, Function.update_self]
      exact hdone
    · simp only [Machine.afterBody, Function.update_of_ne hut] at hdu ⊢
      exact h.depth u hu hdu
  case pendingEnd =>
    intro u hu
    by_cases hut : u = t
    · subst hut
      simp [Machine.afterBody] at hu
    · simp only [Machine.afterBody, Function.update_of_ne hut] at hu ⊢
      exact h.pendingEnd u hu

theorem threadIds_step {e : Event} (h : ThreadIds m) (hbase : Base m) (hsess : SessionInv m)
    (hok : InOwnSession m e) (hs : m.step strings e = some m') : ThreadIds m' := by
  have hsess' := sessionInv_step hsess hbase hok.1 hs
  cases e with
  | enableTracing env =>
    obtain rfl := Option.some.inj hs
    unfold Machine.enableTracing at hsess' ⊢
    dsimp only at hsess' ⊢
    split
    · rename_i hstart
      rw [if_pos hstart] at hsess'
      exact threadIds_blank rfl (hsess'.blank rfl) fun t ht => hsess'.pending_end t ht rfl
    · have hc : (m.config.enableTracing env).currentThreadId = m.config.currentThreadId := by
        rename_i hstart
        rcases m.config.enableTracing_cases env with ⟨hd, -, -, he⟩ | he
        · exact absurd (by rw [he, hd]; rfl) hstart
        · rw [he]
          rfl
      exact ⟨hc ▸ h.le, h.unique, h.slices, h.owned, h.depth, h.pendingEnd⟩
  | disableTracing order =>
    rcases disableTracing_cases hs with ⟨-, hp, rfl⟩ | ⟨he, rfl⟩
    · exact threadIds_blank rfl (hsess'.blank rfl) fun t ht => hsess'.pending_end t ht rfl
    · rcases VirtualDeviceTraceConfig.disableTracing_of_not_endsSession he with ⟨-, hc⟩ | ⟨hd, -⟩
      · rw [hc]
        exact h
      · have hl := hsess.log_disabled hd
        exact threadIds_blank hl (hsess.blank hl) fun t ht => hsess.pending_end t ht hl
  | setGuestTime t now =>
    obtain rfl := Option.some.inj hs
    have hc : (m.config.setGuestTime t now).currentThreadId = m.config.currentThreadId := by
      unfold VirtualDeviceTraceConfig.setGuestTime
      split <;> rfl
    exact ⟨fun x hx id hp => hc ▸ h.le x hx id hp, h.unique, h.slices, h.owned, h.depth, h.pendingEnd⟩
  | enter t call =>
    obtain ⟨hx, -, ⟨-, rfl⟩ | ⟨info, he, rfl⟩⟩ := enter_cases hs
    · split
      · exact h
      · obtain ⟨cs, hcs⟩ := construct_eq (m := m) t
        rw [hcs]
        exact ⟨h.le, h.unique, h.slices, h.owned, h.depth, h.pendingEnd⟩
    · exact h.afterEnter hx he
  | body t now full =>
    obtain ⟨call, n, b, hq, hbody, rfl⟩ := body_cases hs
    have hx := hbase.alive t (hbase.mem_of_pending hq)
    refine h.afterBody hx full hq (fun hc => ?_) (hok.2 t now full rfl) hbody
    exact hok.1.2 n (hc ▸ hq)
  | exit t =>
    obtain ⟨-, -, rfl⟩ := exit_cases hs
    have hx : ∀ u, Function.update m.exited t true u = false → m.exited u = false := by
      intro u hu
      by_cases hut : u = t
      · subst hut
        simp at hu
      · simpa [hut] using hu
    exact ⟨h.le, h.unique, h.slices, fun u hu => h.owned u (hx u hu), fun u hu => h.depth u (hx u hu),
      h.pendingEnd⟩

/-- **Sessions do not leak.** In every run whose bodies run in their own
session, each host file has packets of its session only, and no track in it
has slices of two threads. -/
theorem sessions_apart (h : Reach Initial (fun m e m' => m.step strings e = some m') InOwnSession m) :
    SessionsApart m := by
  obtain ⟨hbase, hsess, hids⟩ : Base m ∧ SessionInv m ∧ ThreadIds m := by
    refine Reach.inv (P := fun m => Base m ∧ SessionInv m ∧ ThreadIds m) ?_ ?_ h
    · intro init hinit
      obtain ⟨config, -, rfl⟩ := hinit
      exact ⟨base_initial config, sessionInv_initial config, threadIds_blank rfl (fun _ _ => rfl) nofun⟩
    · rintro s e s' ⟨hbase, hsess, hids⟩ hok hs
      exact ⟨base_step hbase hs, sessionInv_step hsess hbase hok.1 hs, threadIds_step hids hbase hsess hok hs⟩
  intro order _ hp
  have hperm : (m.hostFile order).Perm m.log :=
    (hsess.holds.saveAll order).written_perm (hbase.saveAll_current hp)
  refine ⟨hperm.subperm, fun x hx y hy id hxi hyi => ?_⟩
  obtain ⟨u, hu, hux, hup⟩ := hids.slices x (hperm.mem_iff.mp hx) id hxi
  obtain ⟨v, hv, hvy, hvp⟩ := hids.slices y (hperm.mem_iff.mp hy) id hyi
  rw [← hux, ← hvy]
  exact hids.unique u hu v hv id hup hvp

/-- Thread 0 begins a slice, and test and body are in one session. -/
theorem sessions_apart_slice :
    ∃ m, run (Machine.step fun _ => [97]) { config := { hostFilename := some "host" } }
        [.enableTracing {}, .enter 0 (.beginTrace 7), .body 0 5 fun _ => false] = some m ∧
      m.config.endsSession = true ∧ SessionsApart m := by
  refine ⟨_, rfl, rfl, @sessions_apart (fun _ => [97]) _ ?_⟩
  have h0 : Reach Initial (fun m e m' => m.step (fun _ => [97]) e = some m') InOwnSession
      { config := { hostFilename := some "host" } } := .init ⟨_, rfl, rfl⟩
  have h1 := h0.step (a := .enableTracing {}) (by exact ⟨trivial, nofun⟩) rfl
  have h2 := h1.step (a := .enter 0 (.beginTrace 7)) (by exact ⟨trivial, nofun⟩) rfl
  refine h2.step (a := .body 0 5 fun _ => false) ⟨⟨rfl, fun n hn => ?_⟩, fun t now full _ _ => ?_⟩ rfl
  · cases hn
  · exact (by decide : (1 : UInt32).toNat + 1 < 2 ^ 32)

end

/-- Thread 0 passes the test in the first session and runs its body after the
session was disabled; thread 1 traces in the second session. -/
def lateBody : List Event :=
  [.enableTracing {}, .enter 0 (.beginTrace 7), .disableTracing [0], .body 0 5 fun _ => false,
    .enableTracing {}, .enter 1 (.beginTrace 7), .body 1 9 fun _ => false]

/-- The second file has the slice of the late body, on the track of thread 1. -/
theorem lateBody_hostFile :
    ((run (Machine.step fun _ => [97]) { config := { hostFilename := some "host" } } lateBody).map fun m =>
      (m.config.endsSession, m.contexts, (m.hostFile [0, 1]).map fun x => (x.1, x.2.packet.sliceTrack),
        m.log.map (·.1))) =
    some (true, [0, 1], [(0, none), (0, none), (0, none), (0, none), (0, some 2), (1, none), (1, none),
      (1, none), (1, none), (1, some 2)], [1, 1, 1, 1, 1]) := by
  rfl

/-- A body after its session: the next file has a packet from outside its
session, and one track with slices of two threads. -/
theorem sessions_leak :
    ∃ m, Reach Initial (fun m e m' => m.step (fun _ => [97]) e = some m') (fun _ _ => True) m ∧
      ¬ SessionsApart m := by
  obtain ⟨m, hrun, hm⟩ := Option.map_eq_some_iff.mp lateBody_hostFile
  simp only [Prod.mk.injEq] at hm
  obtain ⟨hends, hcontexts, hfile, -⟩ := hm
  have hinit : Reach Initial (fun m e m' => m.step (fun _ => [97]) e = some m') (fun _ _ => True)
      { config := { hostFilename := some "host" } } := .init ⟨_, rfl, rfl⟩
  refine ⟨m, Reach.run lateBody (fun _ _ => trivial) hinit hrun, fun hapart => ?_⟩
  obtain ⟨-, htracks⟩ := hapart [0, 1] hends (by rw [hcontexts])
  have hmem : ∀ t : Tid, t = 0 ∨ t = 1 → ∃ x ∈ m.hostFile [0, 1], (x.1, x.2.packet.sliceTrack) = (t, some 2) := by
    rintro t (rfl | rfl) <;>
      exact List.mem_map.mp (hfile ▸ by decide)
  obtain ⟨x, hx, hxt⟩ := hmem 0 (Or.inl rfl)
  obtain ⟨y, hy, hyt⟩ := hmem 1 (Or.inr rfl)
  simp only [Prod.mk.injEq] at hxt hyt
  have hxy := htracks x hx y hy 2 hxt.2 hyt.2
  rw [hxt.1, hyt.1] at hxy
  exact absurd hxy (by decide)

end Host
end VPerfetto
