/-
# The host file

The file of a session has every packet of the session once, each thread's in
the order it was emitted, and begins with the only packet that clears the
incremental state.

The machine keeps `Started`: the store has the session's log, the first call
of a session writes the start of the sequence, and its chunk is the one with
the mark. `host_file_of_session` carries this over to the bytes on the disk.

Key definitions: `Started`, `InCall`, `Allowed`.
Key theorems: `started_step`, `machine_file`, `host_file_of_session`.
-/
import VPerfetto.Host.Storage

namespace VPerfetto
namespace Host

open Wire Chunks Machine Runs

/-- The session's log is in the store, and it begins with the start of the
sequence, which the counter of calls tells. -/
structure Started (m : Machine) : Prop where
  inv : Inv m.store m.log
  unstarted : m.config.tracingDisabled = false → m.log = [] → m.config.packetsWritten = 0
  started : m.log ≠ [] → m.config.packetsWritten ≠ 0 ∧ m.config.sequenceIdWritten = true
  head : ∀ x L, m.log = x :: L →
    x.2.packet = .sequenceStart ∧ ∀ y ∈ L, y.2.packet ≠ .sequenceStart

/-- A body runs in the session of its test, and what it makes of its
configuration and context satisfies `P`. -/
def InCall (strings : Ptr → Bytes) (P : VirtualDeviceTraceConfig → ThreadInfo → Body → Prop) (m : Machine)
    (e : Event) : Prop :=
  InSession m e ∧ ∀ t now full c n b, e = .body t now full → m.pending t = some (c, n) →
    c.body strings now m.config (m.infos t) = some b → P m.config (m.infos t) b

/-- The counter of calls does not wrap. -/
def CountsUp (c : VirtualDeviceTraceConfig) (_ : ThreadInfo) (b : Body) : Prop :=
  c.packetsWritten ≤ b.config.packetsWritten

section

variable {strings : Ptr → Bytes} {m m' : Machine}

/-- A body changes the counters of the configuration alone. -/
theorem Call.body_config {call : Call} {now : UInt64} {c : VirtualDeviceTraceConfig} {i : ThreadInfo}
    {b : Body} (h : call.body strings now c i = some b) :
    ∃ calls written interningId threadId, b.config = { c with
      packetsWritten := calls, sequenceIdWritten := written
      currentInterningId := interningId, currentThreadId := threadId } := by
  have hQ : Writable strings (fun _ => True) c i call := by constructor <;> intros <;> trivial
  obtain ⟨-, ⟨-, -, hc⟩ | ⟨-, b₀, h0, hx⟩⟩ := Call.body_cases hQ h
  · exact ⟨_, _, _, _, hc⟩
  · obtain ⟨ii, ti, hc⟩ := hx.config
    rcases writeSequenceId_cases h0 with ⟨-, rfl⟩ | ⟨-, -, rfl⟩
    · exact ⟨_, _, _, _, hc⟩
    · exact ⟨_, _, _, _, hc⟩

/-- Which bodies start the sequence. -/
theorem Call.body_start {call : Call} {now : UInt64} {c : VirtualDeviceTraceConfig} {i : ThreadInfo}
    {b : Body} (h : call.body strings now c i = some b) :
    (call = .endTrace ∧ b.config = c ∧ b.first = false ∧ ∀ p ∈ b.packets, p ≠ .sequenceStart) ∨
    (call ≠ .endTrace ∧ b.config.packetsWritten = c.packetsWritten + 1 ∧ b.config.sequenceIdWritten = true ∧
      ((c.packetsWritten = 0 ∧ b.first = true ∧
          ∃ ps, b.packets = .sequenceStart :: ps ∧ ∀ p ∈ ps, p ≠ .sequenceStart) ∨
        (c.packetsWritten ≠ 0 ∧ b.first = false ∧ ∀ p ∈ b.packets, p ≠ .sequenceStart))) := by
  have hQ : Writable strings (fun p => p ≠ .sequenceStart) c i call := by constructor <;> intros <;> nofun
  have hzero : c.packetsWritten + 1 = 1 ↔ c.packetsWritten = 0 := by
    rw [← UInt32.toNat_inj, ← UInt32.toNat_inj, UInt32.toNat_add]
    have := c.packetsWritten.toNat_lt
    simp only [UInt32.reduceToNat]
    omega
  obtain ⟨-, ⟨hcall, hx, hc⟩ | ⟨hcall, b₀, h0, hx⟩⟩ := Call.body_cases hQ h
  · obtain ⟨new, hp, hq⟩ := hx.packets
    refine Or.inl ⟨hcall, hc, hx.first, fun p hm => ?_⟩
    rw [hp] at hm
    exact hq p hm
  · obtain ⟨new, hp, hq⟩ := hx.packets
    obtain ⟨ii, ti, hc⟩ := hx.config
    refine Or.inr ⟨hcall, ?_⟩
    rw [hc, hx.first, hp]
    rcases writeSequenceId_cases h0 with ⟨hw, rfl⟩ | ⟨hw, hs, rfl⟩
    · exact ⟨hw.symm, rfl, Or.inl ⟨hzero.mp hw, rfl, new, rfl, hq⟩⟩
    · exact ⟨rfl, hs, Or.inr ⟨fun h0 => hw (hzero.mpr h0), rfl, hq⟩⟩

/-- A body that goes on with the sequence. -/
theorem Started.extend (h : Started m) (hl : m.log ≠ []) (t : Tid) (full : ℕ → Bool) (call : Call) {b : Body}
    (hfirst : b.first = false) (hw : b.config.packetsWritten ≠ 0 ∧ b.config.sequenceIdWritten = true)
    (hp : ∀ p ∈ b.packets, p ≠ .sequenceStart) : Started (m.afterBody t full call b) := by
  have hlog : (m.afterBody t full call b).log ≠ [] := by
    show m.log ++ _ ≠ []
    simp [hl]
  refine ⟨?_, fun _ hnil => absurd hnil hlog, fun _ => hw, fun x L hL => ?_⟩
  · unfold Machine.afterBody
    dsimp only
    rw [hfirst, if_neg Bool.false_ne_true]
    exact h.inv.putAll t full _ hl
  · obtain ⟨y, K, hK⟩ := List.exists_cons_of_ne_nil hl
    obtain ⟨hy, hrest⟩ := h.head y K hK
    have hcons : (y :: K) ++ (b.packets.map (emitted (call.name (m.openNames t)))).map (t, ·) = x :: L := by
      rw [← hK]
      exact hL
    obtain ⟨rfl, rfl⟩ := List.cons.inj hcons
    refine ⟨hy, fun z hz => ?_⟩
    rcases List.mem_append.mp hz with hz | hz
    · exact hrest z hz
    · obtain ⟨e, he, rfl⟩ := List.mem_map.mp hz
      obtain ⟨p, hpm, rfl⟩ := List.mem_map.mp he
      exact hp p hpm

/-- The body that starts the sequence. -/
theorem Started.begin (h : Started m) (hl : m.log = []) (t : Tid) (full : ℕ → Bool) (call : Call) {b : Body}
    (hfirst : b.first = true) (hw : b.config.packetsWritten ≠ 0 ∧ b.config.sequenceIdWritten = true)
    {ps : List Packet} (hb : b.packets = .sequenceStart :: ps) (hp : ∀ p ∈ ps, p ≠ .sequenceStart) :
    Started (m.afterBody t full call b) := by
  have hlog : (m.afterBody t full call b).log =
      (t, emitted (call.name (m.openNames t)) .sequenceStart) ::
        (ps.map (emitted (call.name (m.openNames t)))).map (t, ·) := by
    show m.log ++ _ = _
    rw [hl, hb]
    rfl
  refine ⟨?_, fun _ hnil => absurd (hlog.symm.trans hnil) (List.cons_ne_nil _ _), fun _ => hw, fun x L hL => ?_⟩
  · rw [hlog]
    unfold Machine.afterBody
    dsimp only
    rw [hfirst, if_pos rfl, hb]
    exact ((hl ▸ h.inv).start t (full 0) _).putAll t _ _ (List.cons_ne_nil _ _)
  · obtain ⟨rfl, rfl⟩ := List.cons.inj (hlog.symm.trans hL)
    refine ⟨rfl, fun z hz => ?_⟩
    obtain ⟨e, he, rfl⟩ := List.mem_map.mp hz
    obtain ⟨p, hpm, rfl⟩ := List.mem_map.mp he
    exact hp p hpm

theorem Started.afterBody (h : Started m) (hsess : SessionInv m) (t : Tid) (full : ℕ → Bool) {call : Call}
    {n : ℕ} {now : UInt64} {b : Body} (hd : m.config.tracingDisabled = false)
    (hq : m.pending t = some (call, n)) (hend : call = .endTrace → n = m.ended)
    (hb : call.body strings now m.config (m.infos t) = some b)
    (hup : m.config.packetsWritten ≤ b.config.packetsWritten) : Started (m.afterBody t full call b) := by
  rcases Call.body_start hb with ⟨hcall, hc, hfirst, hp⟩ | ⟨-, hw, hs, hstart⟩
  · have hl : m.log ≠ [] := hsess.pending_end t (by rw [hq, hcall, hend hcall])
    exact h.extend hl t full call hfirst (hc ▸ h.started hl) hp
  · have hne : b.config.packetsWritten ≠ 0 := by
      intro h0
      rw [h0, UInt32.le_zero_iff] at hup
      rw [hup, h0] at hw
      exact absurd hw (by decide)
    rcases hstart with ⟨h0, hfirst, ps, hps, hp⟩ | ⟨h0, hfirst, hp⟩
    · have hl : m.log = [] := by
        by_contra hl
        exact (h.started hl).1 h0
      exact h.begin hl t full call hfirst ⟨hne, hs⟩ hps hp
    · exact h.extend (fun hl => h0 (h.unstarted hd hl)) t full call hfirst ⟨hne, hs⟩ hp

/-- With nothing logged and nothing stored a session may start. -/
theorem started_blank (hi : Inv m.store []) (hl : m.log = [])
    (hw : m.config.tracingDisabled = false → m.config.packetsWritten = 0) : Started m :=
  ⟨hl ▸ hi, fun hd _ => hw hd, fun hne => absurd hl hne, fun _ _ hL => by rw [hl] at hL; cases hL⟩

/-- A change of the configuration that leaves the flags and the counter of calls. -/
theorem Started.config (h : Started m) {c : VirtualDeviceTraceConfig}
    (hd : c.tracingDisabled = m.config.tracingDisabled) (hw : c.packetsWritten = m.config.packetsWritten)
    (hs : c.sequenceIdWritten = m.config.sequenceIdWritten) : Started { m with config := c } :=
  ⟨h.inv, by rw [hd, hw]; exact h.unstarted, by rw [hw, hs]; exact h.started, h.head⟩

theorem Started.enableTracing (h : Started m) (hsess : SessionInv m) (env : Env) :
    Started (m.enableTracing env) := by
  have hcase := m.config.enableTracing_cases env
  unfold Machine.enableTracing
  dsimp only
  split
  · rename_i hstart
    simp only [Bool.and_eq_true, Bool.not_eq_true'] at hstart
    obtain ⟨hdis, hen⟩ := hstart
    refine started_blank (hsess.log_disabled hdis ▸ h.inv) rfl fun _ => ?_
    rcases hcase with ⟨-, -, -, he⟩ | he
    · rw [he]
      rfl
    · rw [he] at hen
      exact absurd (hdis.symm.trans hen) Bool.noConfusion
  · rename_i hstart
    rcases hcase with ⟨hd, -, -, he⟩ | he
    · exact absurd (by rw [he, hd]; rfl) hstart
    · rw [he]
      exact h.config rfl rfl rfl

/-- The end of a session leaves nothing in the store and no mark. -/
theorem started_endSession (hbase : Base m) {order : List Tid} (hp : order.Perm m.contexts)
    (hends : m.config.endsSession = true) : Started (m.endSession order) := by
  have hmark : ∀ t, (saveAll order m.store).first t = false := by
    intro t
    rw [saveAll_first]
    split
    · rfl
    · rename_i hn
      exact (hbase.buffer t fun hm => hn (hp.mem_iff.mpr hm)).2
  have hname : m.config.hostFilename.isNone = false := by
    unfold VirtualDeviceTraceConfig.endsSession at hends
    simp only [Bool.and_eq_true] at hends
    simpa using hends.1
  refine started_blank (inv_blank rfl (hbase.saveAll_current hp) hmark) rfl fun _ => ?_
  show m.config.disableTracing.packetsWritten = 0
  unfold VirtualDeviceTraceConfig.disableTracing
  rw [hname]
  rfl

theorem Started.disableTracing (h : Started m) (hbase : Base m) (hsess : SessionInv m) {order : List Tid}
    (hs : m.disableTracing order = some m') : Started m' := by
  rcases disableTracing_cases hs with ⟨hends, hp, rfl⟩ | ⟨he, rfl⟩
  · exact started_endSession hbase hp hends
  · rcases VirtualDeviceTraceConfig.disableTracing_of_not_endsSession he with ⟨-, hc⟩ | ⟨hd, hc⟩
    · rw [hc]
      exact h
    · have hl := hsess.log_disabled hd
      refine started_blank (hl ▸ h.inv) hl fun hd' => ?_
      rw [hc] at hd' ⊢
      rfl

theorem started_step {e : Event} (h : Started m) (hbase : Base m) (hsess : SessionInv m)
    (hok : InCall strings CountsUp m e) (hs : m.step strings e = some m') : Started m' := by
  cases e with
  | enableTracing env =>
    obtain rfl := Option.some.inj hs
    exact h.enableTracing hsess env
  | disableTracing order => exact h.disableTracing hbase hsess hs
  | setGuestTime t now =>
    obtain rfl := Option.some.inj hs
    refine h.config (setGuestTime_disabled t now m.config) ?_ ?_ <;>
      unfold VirtualDeviceTraceConfig.setGuestTime <;> split <;> rfl
  | enter t call =>
    obtain ⟨-, -, ⟨-, rfl⟩ | ⟨info, he, rfl⟩⟩ := enter_cases hs
    · split
      · exact h
      · obtain ⟨cs, hcs⟩ := construct_eq (m := m) t
        rw [hcs]
        exact ⟨h.inv, h.unstarted, h.started, h.head⟩
    · obtain ⟨cs, hcs⟩ := construct_eq (m := m) t
      unfold Machine.afterEnter
      rw [hcs]
      exact ⟨h.inv, h.unstarted, h.started, h.head⟩
  | body t now full =>
    obtain ⟨call, n, b, hq, hbody, rfl⟩ := body_cases hs
    obtain ⟨⟨hd, hend⟩, hup⟩ := hok
    exact h.afterBody hsess t full hd hq (fun hc => hend n (hc ▸ hq)) hbody (hup t now full call n b rfl hq hbody)
  | exit t =>
    obtain ⟨-, -, rfl⟩ := exit_cases hs
    exact ⟨h.inv.save t, h.unstarted, h.started, h.head⟩

/-- **The machine's file**: the packets of the log, each thread's in its
order, and if there is one, the start of the sequence first and only there. -/
theorem machine_file (h : Started m) (hbase : Base m) {order : List Tid} (hp : order.Perm m.contexts) :
    (m.hostFile order).Perm m.log ∧ (∀ t, ofOwner t (m.hostFile order) = ofOwner t m.log) ∧
      (m.log ≠ [] → ∃ x L, m.hostFile order = x :: L ∧ x.2.packet = .sequenceStart ∧
        ∀ y ∈ L, y.2.packet ≠ .sequenceStart) := by
  obtain ⟨hown, hperm, hhead⟩ := (h.inv.saveAll order).written_spec (hbase.saveAll_current hp)
  refine ⟨hperm, hown, fun hl => ?_⟩
  obtain ⟨x, K, hK⟩ := List.exists_cons_of_ne_nil hl
  rw [hK, List.head?_cons] at hhead
  obtain ⟨L, hL⟩ := List.head?_eq_some_iff.mp hhead
  obtain ⟨hx, hrest⟩ := h.head x K hK
  refine ⟨x, L, hL, hx, fun y hy => hrest y ?_⟩
  have hperm' : (x :: L).Perm (x :: K) := hL ▸ hK ▸ hperm
  exact (hperm'.cons_inv.mem_iff).mp hy

/-! ### The program -/

/-- The conditions on an event: names of at most 150 bytes, fewer than 16 open
slices, and fewer than `2 ^ 32` calls in a session. -/
def Allowed (strings : Ptr → Bytes) (h : HostState) : HostEvent → Prop
  | .call t _ c =>
    c.nameLe strings 150 ∧ h.calls + 1 < 2 ^ 32 ∧
      ((∃ name, c = .beginTrace name) → (h.infos t).stackDepth + 1 < traceStackDepthMax)
  | _ => True

variable {h h' : HostState} {fuel : ℕ} {allowed : HostState → HostEvent → Prop}

/-- What an event does to the configuration and to the number of calls. -/
theorem step_config {e : HostEvent} (hs : h.step strings fuel e = some h') :
    (∃ env, h'.config = h.config.enableTracing env ∧
        (h'.calls = if h.config.tracingDisabled && !h'.config.tracingDisabled then 0 else h.calls)) ∨
      (h'.config = h.config.disableTracing ∧ (h.config.hostFilename = none → h'.calls = h.calls)) ∨
      (∃ t now, h'.config = h.config.setGuestTime t now ∧ h'.calls = h.calls) ∨
      (h'.config = h.config ∧ h.calls ≤ h'.calls) ∨
      ∃ (c : Call) (now : UInt64) (info : ThreadInfo) (b : Body), c.body strings now h.config info = some b ∧
        h'.config = b.config ∧ h'.calls = h.calls + 1 := by
  cases e with
  | enableTracing env =>
    obtain rfl := Option.some.inj hs
    refine Or.inl ⟨env, ?_⟩
    unfold HostState.enableTracing
    by_cases hc : (h.config.tracingDisabled && !(h.config.enableTracing env).tracingDisabled) = true
    · simp [hc]
    · simp [hc]
  | disableTracing order =>
    right; left
    simp only [HostState.step, HostState.disableTracing] at hs
    split at hs
    · rename_i he
      obtain ⟨-, hs⟩ := Option.ite_none_right_eq_some.mp hs
      obtain rfl := Option.some.inj hs
      refine ⟨rfl, fun hnone => ?_⟩
      simp [VirtualDeviceTraceConfig.endsSession, hnone] at he
    · obtain rfl := Option.some.inj hs
      exact ⟨rfl, fun _ => rfl⟩
  | setGuestTime t now =>
    obtain rfl := Option.some.inj hs
    exact Or.inr (Or.inr (Or.inl ⟨t, now, rfl, rfl⟩))
  | call t now c =>
    obtain ⟨-, ⟨-, rfl⟩ | ⟨info, b, w, -, hb, -, rfl⟩⟩ := HostState.call_cases hs
    · rw [HostState.beforeCall_eq]
      exact Or.inr (Or.inr (Or.inr (Or.inl ⟨rfl, Nat.le_succ _⟩)))
    · refine Or.inr (Or.inr (Or.inr (Or.inr ⟨c, now, info, b, hb, rfl, ?_⟩)))
      rw [HostState.beforeCall_eq]
      rfl
  | exit t =>
    simp only [HostState.step, HostState.exit, Option.ite_none_left_eq_some] at hs
    obtain rfl := Option.some.inj hs.2
    exact Or.inr (Or.inr (Or.inr (Or.inl ⟨rfl, Nat.le_refl _⟩)))

/-- No event of the program changes the storage of a thread. -/
theorem step_storageMb {e : HostEvent} (hs : h.step strings fuel e = some h') :
    h'.config.perThreadStorageMb = h.config.perThreadStorageMb := by
  rcases step_config hs with ⟨env, hc, -⟩ | ⟨hc, -⟩ | ⟨t, now, hc, -⟩ | ⟨hc, -⟩ | ⟨c, now, info, b, hb, hc, -⟩
  · rw [hc]
    rcases h.config.enableTracing_cases env with ⟨-, -, -, he⟩ | he
    · rw [he]
      rfl
    · rw [he]
      rfl
  · rw [hc]
    unfold VirtualDeviceTraceConfig.disableTracing
    split
    · rfl
    · rfl
  · rw [hc]
    unfold VirtualDeviceTraceConfig.setGuestTime
    split
    · rfl
    · rfl
  · rw [hc]
  · obtain ⟨_, _, _, _, he⟩ := Call.body_config hb
    rw [hc, he]

/-- The storage of a thread is what it was at the start. -/
theorem storageMb_le (hr : HostReach strings fuel allowed h) :
    1 ≤ h.config.perThreadStorageMb ∧ h.config.perThreadStorageMb ≤ 4095 := by
  refine Reach.inv (P := fun h => 1 ≤ h.config.perThreadStorageMb ∧ h.config.perThreadStorageMb ≤ 4095) ?_ ?_ hr
  · intro init hinit
    obtain ⟨config, -, h1, h2, rfl⟩ := hinit
    exact ⟨h1, h2⟩
  · rintro h e h' hmb - hs
    rw [step_storageMb hs]
    exact hmb

/-- The counter of calls is not ahead of the calls. -/
theorem packetsWritten_le_calls (hr : HostReach strings fuel allowed h)
    (hd : h.config.tracingDisabled = false) : h.config.packetsWritten.toNat ≤ h.calls := by
  refine Reach.inv (P := fun h => h.config.tracingDisabled = false → h.config.packetsWritten.toNat ≤ h.calls)
    ?_ ?_ hr hd
  · rintro _ ⟨config, hdis, -, -, rfl⟩ hd
    exact absurd (hdis.symm.trans hd) Bool.noConfusion
  · rintro h e h' ih - hs hd
    rcases step_config hs with ⟨env, hc, hcalls⟩ | ⟨hc, hcalls⟩ | ⟨t, now, hc, hcalls⟩ | ⟨hc, hcalls⟩ |
      ⟨c, now, info, b, hb, hc, hcalls⟩
    · rcases h.config.enableTracing_cases env with ⟨-, -, -, he⟩ | he
      · rw [hc, he]
        exact Nat.zero_le _
      · rw [he] at hc
        rw [hc] at hd hcalls ⊢
        rw [hcalls, show (h.config.useEnv env).tracingDisabled = h.config.tracingDisabled from rfl,
          Bool.and_not_self, if_neg Bool.false_ne_true]
        exact ih hd
    · unfold VirtualDeviceTraceConfig.disableTracing at hc
      split at hc
      · rename_i hnone
        rw [hc] at hd ⊢
        rw [hcalls (Option.isNone_iff_eq_none.mp hnone)]
        exact ih hd
      · rw [hc] at hd
        exact absurd hd Bool.noConfusion
    · rw [hc, setGuestTime_disabled] at hd
      rw [hc, hcalls]
      unfold VirtualDeviceTraceConfig.setGuestTime
      split <;> exact ih hd
    · rw [hc] at hd ⊢
      exact Nat.le_trans (ih hd) hcalls
    · have hd' : h.config.tracingDisabled = false := by
        rw [← (Call.body_disabled hb).2, ← hc]
        exact hd
      rw [hc, hcalls]
      rcases Call.body_start hb with ⟨-, he, -⟩ | ⟨-, he, -⟩
      · rw [he]
        exact Nat.le_succ_of_le (ih hd')
      · rw [he, UInt32.toNat_add]
        -- the counter wraps, the calls do not
        calc (h.config.packetsWritten.toNat + (1 : UInt32).toNat) % 2 ^ 32
            ≤ h.config.packetsWritten.toNat + 1 := Nat.mod_le _ _
          _ ≤ h.calls + 1 := Nat.succ_le_succ (ih hd')

/-- A whole call is one session's, so the machine may take its steps if its body satisfies `P`. -/
theorem permits_inCall {P : VirtualDeviceTraceConfig → ThreadInfo → Body → Prop} (s : Store Tid Emitted)
    (n : ℕ) {e : HostEvent}
    (hP : ∀ t now c info b, e = .call t now c → c.enter h.config (h.infos t) = some info →
      c.body strings now h.config info = some b → P h.config info b) :
    Permits (InCall strings P) (h.machine s n) e := by
  cases e with
  | call t now c =>
    refine ⟨⟨trivial, fun _ _ _ _ _ _ heq => Event.noConfusion heq⟩, fun info full he => ?_⟩
    obtain ⟨hc, hi, hq, hended⟩ := afterEnter_facts (h.machine s n) t c info
    refine ⟨⟨?_, fun n' hn => ?_⟩, fun t' now' full' c' n' b heq hq' hb => ?_⟩
    · rw [hc]
      exact Call.enter_disabled he
    · rw [hq] at hn
      rw [hended]
      exact (Prod.mk.inj (Option.some.inj hn)).2.symm
    · obtain ⟨rfl, rfl, -⟩ := Event.body.inj heq
      rw [hq] at hq'
      obtain ⟨rfl, -⟩ := Prod.mk.inj (Option.some.inj hq')
      rw [hc, hi] at hb ⊢
      exact hP t now c info b rfl he hb
  | enableTracing env => exact ⟨trivial, fun _ _ _ _ _ _ heq => Event.noConfusion heq⟩
  | disableTracing order => exact ⟨trivial, fun _ _ _ _ _ _ heq => Event.noConfusion heq⟩
  | setGuestTime t now => exact ⟨trivial, fun _ _ _ _ _ _ heq => Event.noConfusion heq⟩
  | exit t => exact ⟨trivial, fun _ _ _ _ _ _ heq => Event.noConfusion heq⟩

/-- With fewer than `2 ^ 32` calls the counter of calls does not wrap. -/
theorem countsUp_of_calls {now : UInt64} {c : Call} {info : ThreadInfo} {b : Body}
    (hle : h.config.packetsWritten.toNat ≤ h.calls) (hcalls : h.calls + 1 < 2 ^ 32)
    (hb : c.body strings now h.config info = some b) : CountsUp h.config info b := by
  unfold CountsUp
  rcases Call.body_start hb with ⟨-, hc, -⟩ | ⟨-, hw, -⟩
  · rw [hc]
    exact UInt32.le_refl _
  · rw [hw, UInt32.le_iff_toNat_le, UInt32.toNat_add]
    simp only [UInt32.toNat_one]
    omega

/-- The machine's invariants in the states that the program's runs go through. -/
theorem machine_invariants (hr : MachineReach strings (InCall strings CountsUp) m) :
    Base m ∧ SessionInv m ∧ Started m := by
  refine Reach.inv (P := fun m => Base m ∧ SessionInv m ∧ Started m) ?_ ?_ hr
  · intro init hinit
    obtain ⟨config, hd, rfl⟩ := hinit
    refine ⟨base_initial config, sessionInv_initial config, started_blank (inv_blank rfl (fun _ => rfl) fun _ => rfl) rfl
      fun hen => ?_⟩
    exact absurd (hd.symm.trans hen) Bool.noConfusion
  · rintro m e m' ⟨hbase, hsess, hstart⟩ hok hs
    exact ⟨base_step hbase hs, sessionInv_step hsess hbase hok.1 hs, started_step hstart hbase hsess hok hs⟩

/-- What runs of the program need: names of at most 150 bytes, and that no
body wraps the counter of calls. -/
structure Suitable (strings : Ptr → Bytes) (fuel : ℕ) (allowed : HostState → HostEvent → Prop) : Prop where
  names : ∀ h t now c, allowed h (.call t now c) → c.nameLe strings 150
  counts : ∀ h t now c info b, HostReach strings fuel allowed h → allowed h (.call t now c) →
    c.enter h.config (h.infos t) = some info → c.body strings now h.config info = some b →
    CountsUp h.config info b

theorem allowed_suitable : Suitable strings fuel (Allowed strings) where
  names _ _ _ _ ha := ha.1
  counts _ _ _ _ _ _ hr ha he hb :=
    countsUp_of_calls (packetsWritten_le_calls hr (Call.enter_disabled he)) ha.2.1 hb

/-- A run of the program is one of the machine, with a store for its bytes. -/
theorem reach_started (hfuel : 2 < fuel) (hsuit : Suitable strings fuel allowed)
    (hr : HostReach strings fuel allowed h) :
    ∃ s n, Stores s h ∧ Base (h.machine s n) ∧ SessionInv (h.machine s n) ∧ Started (h.machine s n) := by
  have hallowed : ∀ h s n e, HostReach strings fuel allowed h →
      MachineReach strings (InCall strings CountsUp) (h.machine s n) → allowed h e →
      Fits strings h e ∧ Permits (InCall strings CountsUp) (h.machine s n) e := by
    intro h s n e hr _ ha
    refine ⟨?_, permits_inCall s n fun t now c info b he hent hb => ?_⟩
    · cases e with
      | call t now c => exact ⟨(storageMb_le hr).1, (storageMb_le hr).2, hsuit.names h t now c ha⟩
      | _ => trivial
    · subst he
      exact hsuit.counts h t now c info b hr ha hent hb
  obtain ⟨s, n, hst, hm⟩ := reach_machine hfuel hallowed hr
  exact ⟨s, n, hst, machine_invariants hm⟩

/-- What an event does to the log. -/
theorem step_log {e : HostEvent} (hs : h.step strings fuel e = some h') :
    h'.log = [] ∨ h'.log = h.log ∨ ∃ t now c info b, e = .call t now c ∧
      c.body strings now h.config info = some b ∧
      h'.log = h.log ++ (b.packets.map (emitted (c.name (h.openNames t)))).map (t, ·) := by
  cases e with
  | enableTracing env =>
    obtain rfl := Option.some.inj hs
    unfold HostState.enableTracing
    dsimp only
    split
    · exact Or.inl rfl
    · exact Or.inr (Or.inl rfl)
  | disableTracing order =>
    simp only [HostState.step, HostState.disableTracing] at hs
    split at hs
    · obtain ⟨-, hs⟩ := Option.ite_none_right_eq_some.mp hs
      obtain rfl := Option.some.inj hs
      exact Or.inl rfl
    · obtain rfl := Option.some.inj hs
      exact Or.inr (Or.inl rfl)
  | setGuestTime t now =>
    obtain rfl := Option.some.inj hs
    exact Or.inr (Or.inl rfl)
  | call t now c =>
    obtain ⟨-, ⟨-, rfl⟩ | ⟨info, b, w, -, hb, -, rfl⟩⟩ := HostState.call_cases hs
    · rw [HostState.beforeCall_eq]
      exact Or.inr (Or.inl rfl)
    · refine Or.inr (Or.inr ⟨t, now, c, info, b, rfl, hb, ?_⟩)
      rw [HostState.beforeCall_eq]
      rfl
  | exit t =>
    simp only [HostState.step, HostState.exit, Option.ite_none_left_eq_some] at hs
    obtain rfl := Option.some.inj hs.2
    exact Or.inr (Or.inl rfl)

/-- With short names every packet of the log fits. -/
theorem log_fits (hsuit : Suitable strings fuel allowed) (hr : HostReach strings fuel allowed h) : ∀ x ∈ h.log, x.2.packet.bytes.length ≤ neededSpace := by
  refine Reach.inv (P := fun h => ∀ x ∈ h.log, x.2.packet.bytes.length ≤ neededSpace) ?_ ?_ hr
  · intro init hinit
    obtain ⟨config, -, -, -, rfl⟩ := hinit
    exact fun _ hx => absurd hx List.not_mem_nil
  · rintro h e h' ih hok hs x hx
    rcases step_log hs with hl | hl | ⟨t, now, c, info, b, rfl, hb, hl⟩
    · rw [hl] at hx
      exact absurd hx List.not_mem_nil
    · exact ih x (hl ▸ hx)
    · rw [hl] at hx
      rcases List.mem_append.mp hx with hx | hx
      · exact ih x hx
      · obtain ⟨e, he, rfl⟩ := List.mem_map.mp hx
        obtain ⟨p, hp, rfl⟩ := List.mem_map.mp he
        exact Call.body_fits (hsuit.names h t now c hok) hb p hp

/-- Packets that fit are read back from their bytes. -/
theorem decodeTrace_traceBytes {es : List Emitted} (hfit : ∀ e ∈ es, e.packet.bytes.length ≤ neededSpace) :
    decodeTrace (traceBytes es) = some (es.map fun e => e.packet.record) := by
  have hbytes : traceBytes es = (es.map (·.packet)).flatMap Packet.bytes := by
    rw [List.flatMap_map]
    rfl
  rw [hbytes, decodeTrace_bytes, List.map_map]
  · rfl
  · intro p hp
    obtain ⟨e, he, rfl⟩ := List.mem_map.mp hp
    have hlen := hfit e he
    unfold Packet.bytes neededSpace at hlen
    simp only [List.length_append] at hlen
    omega

/-- The end of a session puts the machine's file on the disk. -/
theorem disk_hostFile {s : Store Tid Emitted} (n : ℕ) (hst : Stores s h) {order : List Tid} {f : String}
    (hends : h.config.endsSession = true) (hf : h.config.hostFilename = some f)
    (hs : h.step strings fuel (.disableTracing order) = some h') :
    order.Perm h.contexts ∧
      h'.disk f = some (traceBytes (((h.machine s n).hostFile order).map (·.2))) := by
  simp only [HostState.step, HostState.disableTracing] at hs
  rw [if_pos hends, Option.ite_none_right_eq_some] at hs
  obtain ⟨hp, hs⟩ := hs
  obtain rfl := Option.some.inj hs
  refine ⟨List.isPerm_iff.mp hp, ?_⟩
  have hsv := (hst.saveContexts order).saved
  rw [saveContexts_eq] at hsv
  unfold HostState.saveTracesToDisk
  dsimp only
  rw [saveContexts_eq]
  simp only [hf, Function.update_self]
  rw [hostBytes_written hsv]
  rfl

/-- The file that the end of a session leaves on the disk: the packets of the
log, each thread's in its order, the start of the sequence first. -/
theorem session_file (hfuel : 2 < fuel) (hsuit : Suitable strings fuel allowed)
    (hr : HostReach strings fuel allowed h) {order : List Tid} {f : String}
    (hends : h.config.endsSession = true) (hf : h.config.hostFilename = some f)
    (hs : h.step strings fuel (.disableTracing order) = some h') :
    ∃ file W, h'.disk f = some file ∧ decodeTrace file = some (W.map fun x => x.2.packet.record) ∧
      W.Perm h.log ∧ (∀ t, ofOwner t W = ofOwner t h.log) ∧
      (h.log ≠ [] → ∃ x L, W = x :: L ∧ x.2.packet = .sequenceStart ∧ ∀ y ∈ L, y.2.packet ≠ .sequenceStart) := by
  obtain ⟨s, n, hst, hbase, -, hstart⟩ := reach_started hfuel hsuit hr
  obtain ⟨hp, hdisk⟩ := disk_hostFile n hst hends hf hs
  obtain ⟨hperm, hown, hhead⟩ := machine_file hstart hbase hp
  refine ⟨_, _, hdisk, ?_, hperm, hown, hhead⟩
  rw [decodeTrace_traceBytes, List.map_map]
  · rfl
  · intro e he
    obtain ⟨y, hy, rfl⟩ := List.mem_map.mp he
    exact log_fits hsuit hr y (hperm.mem_iff.mp hy)

/-- What a thread that has not exited may do, and the order of an unordered set. -/
def Possible (h : HostState) : HostEvent → Prop
  | .disableTracing order => order.Perm h.contexts
  | .call t _ _ => h.exited t = false
  | .exit t => h.exited t = false
  | _ => True

/-- A body waits only for a sequence that another thread is starting. -/
theorem Call.body_exists (strings : Ptr → Bytes) (now : UInt64) {c : VirtualDeviceTraceConfig} (i : ThreadInfo) (call : Call)
    (h : c.packetsWritten ≠ 0 → c.sequenceIdWritten = true) : ∃ b, call.body strings now c i = some b := by
  have hw : ∃ b, writeSequenceId { config := c, info := i } = some b := by
    unfold writeSequenceId
    dsimp only
    split
    · exact ⟨_, rfl⟩
    · rename_i hne
      have hs : c.sequenceIdWritten = true := by
        refine h fun h0 => hne ?_
        rw [h0]
        rfl
      rw [hs]
      exact ⟨_, rfl⟩
  obtain ⟨b, hb⟩ := hw
  cases call <;> simp [Call.body, ensureThreadInfo, hb]

/-- The program does not get stuck. -/
theorem step_isSome (hfuel : 2 < fuel) (hr : HostReach strings fuel (Allowed strings) h) {e : HostEvent}
    (ha : Allowed strings h e) (hp : Possible h e) : (h.step strings fuel e).isSome = true := by
  cases e with
  | enableTracing env => rfl
  | setGuestTime t now => rfl
  | disableTracing order =>
    simp only [HostState.step, HostState.disableTracing]
    split
    · rw [if_pos (List.isPerm_iff.mpr hp)]
      rfl
    · rfl
  | exit t =>
    simp only [HostState.step, HostState.exit]
    rw [if_neg (by rw [show h.exited t = false from hp]; exact Bool.false_ne_true)]
    rfl
  | call t now c =>
    obtain ⟨s, n, hst, -, -, hstart⟩ := reach_started hfuel allowed_suitable hr
    obtain ⟨hmb₁, hmb₂⟩ := storageMb_le hr
    simp only [HostState.step, HostState.call]
    rw [if_neg (by rw [show h.exited t = false from hp]; exact Bool.false_ne_true)]
    split
    · rfl
    · rename_i info he
      obtain ⟨b, hb⟩ := Call.body_exists strings now (c := h.config) info c
        fun h0 => (hstart.started fun hl => h0 (hstart.unstarted (Call.enter_disabled he) hl)).2
      obtain ⟨w, -, hw, -⟩ := writePackets_body hfuel (neededSpace_le_bufferSize hmb₁ hmb₂) hst t ha.1 hb
      simp only [hb, Option.bind_eq_bind, Option.bind_some, hw]
      rfl

/-- The file is the session's log as a sequence of complete packets: each
once, each thread's in the order it was emitted, the first and no other one
with the incremental state cleared. -/
def WholeSession (log : List (Tid × Emitted)) (file : Bytes) : Prop :=
  ∃ W : List (Tid × Emitted), decodeTrace file = some (W.map fun x => x.2.packet.record) ∧
    W.Perm log ∧ (∀ t, ofOwner t W = ofOwner t log) ∧
    ∃ p ps, (W.map fun x => x.2.packet.record) = p :: ps ∧
      p.sequenceFlags = some seqIncrementalStateCleared ∧
      ∀ q ∈ ps, q.sequenceFlags ≠ some seqIncrementalStateCleared

theorem Packet.record_flags (p : Packet) :
    p.record.sequenceFlags = some seqIncrementalStateCleared ↔ p = .sequenceStart := by
  cases p <;> simp [Packet.record, seqIncrementalStateCleared]

/-- **Nothing is lost, duplicated, torn or reordered.** In every reachable
state every event that is allowed takes place, and the end of a session with a
packet leaves its whole log in the host file. -/
theorem host_file_of_session (hfuel : 2 < fuel) (hr : HostReach strings fuel (Allowed strings) h) :
    (∀ e, Allowed strings h e → Possible h e → (h.step strings fuel e).isSome = true) ∧
      ∀ order f h', h.config.endsSession = true → h.log ≠ [] → h.config.hostFilename = some f →
        h.step strings fuel (.disableTracing order) = some h' →
        ∃ file, h'.disk f = some file ∧ WholeSession h.log file := by
  refine ⟨fun e => step_isSome hfuel hr, fun order f h' hends hl hf hs => ?_⟩
  obtain ⟨file, W, hdisk, hdecode, hperm, hown, hhead⟩ := session_file hfuel allowed_suitable hr hends hf hs
  obtain ⟨x, L, rfl, hx, hrest⟩ := hhead hl
  refine ⟨file, hdisk, _, hdecode, hperm, hown, _, _, rfl, (Packet.record_flags _).mpr hx, fun q hq => ?_⟩
  obtain ⟨y, hy, rfl⟩ := List.mem_map.mp hq
  exact fun hflags => hrest y hy ((Packet.record_flags _).mp hflags)

/-- A session with one slice. -/
theorem host_file_of_session_slice :
    ∃ h h' : HostState, h.log.length = 5 ∧
      h.step (fun _ => [97]) 3 (.disableTracing [0]) = some h' ∧
      ∃ file, h'.disk "host" = some file ∧ WholeSession h.log file := by
  have h0 : HostReach (fun _ => [97]) 3 (Allowed fun _ => [97]) { config := { hostFilename := some "host" } } :=
    .init ⟨_, rfl, by decide, by decide, rfl⟩
  have h1 := h0.step (a := .enableTracing {}) (by exact trivial) rfl
  have hcall : ((HostState.enableTracing {} { config := { hostFilename := some "host" } }).step (fun _ => [97]) 3
      (.call 0 5 (.beginTrace 7))).map (fun h => (h.log.length, h.contexts, h.config.endsSession,
        h.config.hostFilename)) = some (5, [0], true, some "host") := by
    decide +kernel
  obtain ⟨h, hs, hh⟩ := Option.map_eq_some_iff.mp hcall
  simp only [Prod.mk.injEq] at hh
  obtain ⟨hl, hc, hends, hf⟩ := hh
  have h2 : HostReach (fun _ => [97]) 3 (Allowed fun _ => [97]) h := by
    refine h1.step (a := .call 0 5 (.beginTrace 7)) ?_ hs
    exact ⟨(by decide : 1 ≤ 150), by decide, fun _ => by decide⟩
  obtain ⟨h', hs'⟩ := Option.isSome_iff_exists.mp ((host_file_of_session (by decide) h2).1 (.disableTracing [0])
    trivial (by rw [Possible, hc]))
  refine ⟨h, h', hl, hs', (host_file_of_session (by decide) h2).2 [0] "host" h' hends ?_ hf hs'⟩
  intro hnil
  rw [hnil] at hl
  exact absurd hl (by decide)

end

end Host
end VPerfetto
