/-
# The timestamps of a session

`getTimestamp` adds one number to the boot time, and which number it is comes
from three entry points: `setGuestTime` computes it, unless tracing is enabled,
`disableTracing` clears it, unless there is no host file name, and
`enableTracing` starts the session it is for.

Beside the program runs what a reader of the calls knows of it: the last
`setGuestTime` since the last `disableTracing` that got past its check, the
one that the session began with, and the boot times of the calls that were
recorded. The timestamps of a session are these boot times and one difference
(`session_times`).

Key definitions: `ClockState`, `ClockEvent`, `clockStep`, `sessionTimes`, `ClockInv`.
Key theorems: `clockInv_step`, `exact_time`, `session_times`.
-/
import VPerfetto.Host.GuestTime
import VPerfetto.Host.HostFile

namespace VPerfetto
namespace Host

open Wire Chunks Runs

/-- The calls of the program, and a `setTraceConfig` callback that changes file names. -/
inductive ClockEvent where
  | event (e : HostEvent)
  | setTraceConfig (host guest combined : Option String)

/-- `lastSet` is the argument and the boot time of the last `setGuestTime`
since the last `disableTracing` that got past its check, `sessionSet` what it
was when the session began, `boots` are the boot times of the calls that the
session recorded, with their threads. -/
structure ClockState where
  host : HostState
  lastSet : Option (UInt64 × UInt64) := none
  sessionSet : Option (UInt64 × UInt64) := none
  boots : List (Tid × UInt64) := []

/-- The difference that `setGuestTime` computes; 0 if there was none. -/
def setDiff : Option (UInt64 × UInt64) → Int64
  | some (t, now) => getSignedDifference t now
  | none => 0

/-- The last `setGuestTime` after an event. -/
def lastSetAfter (h : HostState) (lastSet : Option (UInt64 × UInt64)) : HostEvent → Option (UInt64 × UInt64)
  | .setGuestTime t now => some (t, now)
  | .disableTracing _ => if h.config.hostFilename.isNone then lastSet else none
  | _ => lastSet

/-- The boot times after an event that does not begin or end a session. -/
def bootsAfter (h h' : HostState) (boots : List (Tid × UInt64)) : HostEvent → List (Tid × UInt64)
  | .call u now _ => if h.log.length < h'.log.length then boots ++ [(u, now)] else boots
  | _ => boots

def clockStep (strings : Ptr → Bytes) (fuel : ℕ) (s : ClockState) : ClockEvent → Option ClockState
  | .setTraceConfig host guest combined => some { s with host := { s.host with config := { s.host.config with
      hostFilename := host, guestFilename := guest, combinedFilename := combined } } }
  | .event e => do
    let h ← s.host.step strings fuel e
    return {
      host := h
      lastSet := lastSetAfter s.host s.lastSet e
      sessionSet := if s.host.config.tracingDisabled && !h.config.tracingDisabled then s.lastSet else s.sessionSet
      boots := if s.host.config.tracingDisabled = h.config.tracingDisabled then bootsAfter s.host h s.boots e else [] }

/-- The timestamps in a log, with the threads that emitted them. -/
def sessionTimes (log : List (Tid × Emitted)) : List (Tid × UInt64) :=
  log.filterMap fun x => x.2.packet.record.timestamp.map (x.1, ·)

/-- What a reader knows of a state is so. -/
structure ClockInv (s : ClockState) : Prop where
  pending : s.host.config.tracingDisabled = true → s.host.config.guestTimeDiff = setDiff s.lastSet
  session : s.host.config.tracingDisabled = false → s.host.config.guestTimeDiff = setDiff s.sessionSet
  times : sessionTimes s.host.log = s.boots.map fun x => (x.1, x.2 + (setDiff s.sessionSet).toUInt64)

section

variable {strings : Ptr → Bytes} {fuel : ℕ} {s s' : ClockState} {e : HostEvent}

/-- A call that is recorded adds its boot time and the difference in force. -/
theorem sessionTimes_body {u : Tid} {name : Option Ptr} {c : Call} {now : UInt64} {cfg : VirtualDeviceTraceConfig}
    {i : ThreadInfo} {b : Body} (h : c.body strings now cfg i = some b) :
    sessionTimes ((b.packets.map (emitted name)).map (u, ·)) = [(u, now + cfg.guestTimeDiff.toUInt64)] := by
  have htimes := Call.body_times h
  unfold Body.times at htimes
  have hmap : sessionTimes ((b.packets.map (emitted name)).map (u, ·)) =
      (b.packets.filterMap fun p => p.record.timestamp).map (u, ·) := by
    unfold sessionTimes
    rw [List.filterMap_map, List.filterMap_map, List.map_filterMap]
    rfl
  rw [hmap, htimes]
  rfl

/-- A call that is recorded, while tracing is enabled. -/
theorem ClockInv.record (hi : ClockInv s) {h' : HostState} {u : Tid} {now : UInt64} {c : Call} {info : ThreadInfo}
    {b : Body} (hen : s.host.config.tracingDisabled = false) (hbody : c.body strings now s.host.config info = some b)
    (hconfig : h'.config = b.config)
    (hlog : h'.log = s.host.log ++ (b.packets.map (emitted (c.name (s.host.openNames u)))).map (u, ·)) :
    ClockInv { s with host := h', boots := bootsAfter s.host h' s.boots (.call u now c) } := by
  obtain ⟨calls, written, interningId, threadId, hc⟩ := Call.body_config hbody
  have hdiff : h'.config.guestTimeDiff = s.host.config.guestTimeDiff := by rw [hconfig, hc]
  have hen' : h'.config.tracingDisabled = false := by rw [hconfig, hc]; exact hen
  have hlen : s.host.log.length < h'.log.length := by
    have hne : 0 < b.packets.length := List.length_pos_iff.mpr (Call.body_disabled hbody).1
    rw [hlog, List.length_append, List.length_map, List.length_map]
    exact Nat.lt_add_of_pos_right hne
  have hdis : ∀ {P : Prop}, h'.config.tracingDisabled = true → P := fun hd => by rw [hen'] at hd; cases hd
  refine ⟨hdis, fun _ => hdiff.trans (hi.session hen), ?_⟩
  have hboots : bootsAfter s.host h' s.boots (.call u now c) = s.boots ++ [(u, now)] := if_pos hlen
  have hsplit : sessionTimes h'.log = sessionTimes s.host.log ++ [(u, now + s.host.config.guestTimeDiff.toUInt64)] := by
    rw [hlog, sessionTimes, List.filterMap_append]
    exact congrArg _ (sessionTimes_body hbody)
  rw [hsplit, hi.times, hi.session hen]
  show _ = (bootsAfter s.host h' s.boots (.call u now c)).map _
  rw [hboots, List.map_append]
  rfl

/-- The state after an event that does not begin or end a session. -/
theorem clockStep_same {h' : HostState} (hs : s.host.step strings fuel e = some h')
    (hd : h'.config.tracingDisabled = s.host.config.tracingDisabled) :
    clockStep strings fuel s (.event e) = some { s with
      host := h', lastSet := lastSetAfter s.host s.lastSet e, boots := bootsAfter s.host h' s.boots e } := by
  simp only [clockStep, hs, Option.bind_eq_bind, Option.bind_some, hd, Bool.and_not_self, if_true]
  rfl

/-- The state after an event that begins or ends one. -/
theorem clockStep_change {h' : HostState} (hs : s.host.step strings fuel e = some h')
    (hd : s.host.config.tracingDisabled ≠ h'.config.tracingDisabled) :
    clockStep strings fuel s (.event e) = some { s with
      host := h', lastSet := lastSetAfter s.host s.lastSet e, boots := []
      sessionSet := if s.host.config.tracingDisabled then s.lastSet else s.sessionSet } := by
  have hstart : (s.host.config.tracingDisabled && !h'.config.tracingDisabled) = s.host.config.tracingDisabled := by
    revert hd
    cases s.host.config.tracingDisabled <;> cases h'.config.tracingDisabled <;> decide
  simp only [clockStep, hs, Option.bind_eq_bind, Option.bind_some, hstart, if_neg hd]
  rfl

/-- An event that writes nothing. -/
theorem ClockInv.keep (hi : ClockInv s) {h' : HostState} {lastSet : Option (UInt64 × UInt64)}
    (hlog : h'.log = s.host.log) (hd : h'.config.tracingDisabled = s.host.config.tracingDisabled)
    (hen : s.host.config.tracingDisabled = false → h'.config.guestTimeDiff = s.host.config.guestTimeDiff)
    (hdis : s.host.config.tracingDisabled = true → h'.config.guestTimeDiff = setDiff lastSet) :
    ClockInv { s with host := h', lastSet := lastSet } := by
  refine ⟨fun h => hdis (hd ▸ h), fun h => ?_, ?_⟩
  · have hold : s.host.config.tracingDisabled = false := hd ▸ h
    exact (hen hold).trans (hi.session hold)
  · show sessionTimes h'.log = _
    rw [hlog]
    exact hi.times

/-- The log is empty where a session begins or has ended. -/
theorem clockInv_blank {h' : HostState} {lastSet sessionSet : Option (UInt64 × UInt64)} (hlog : h'.log = [])
    (hen : h'.config.tracingDisabled = false → h'.config.guestTimeDiff = setDiff sessionSet)
    (hdis : h'.config.tracingDisabled = true → h'.config.guestTimeDiff = setDiff lastSet) :
    ClockInv ⟨h', lastSet, sessionSet, []⟩ := by
  refine ⟨hdis, hen, ?_⟩
  show sessionTimes h'.log = _
  rw [hlog]
  rfl

theorem clockInv_enableTracing (hi : ClockInv s) {env : Env}
    (hs : clockStep strings fuel s (.event (.enableTracing env)) = some s') : ClockInv s' := by
  have hstep : s.host.step strings fuel (.enableTracing env) = some (s.host.enableTracing env) := rfl
  have hconfig : (s.host.enableTracing env).config = s.host.config.enableTracing env :=
    HostState.enableTracing_config env s.host
  have hdiff : (s.host.enableTracing env).config.guestTimeDiff = s.host.config.guestTimeDiff := by
    rw [hconfig, enableTracing_guestTimeDiff]
  rcases s.host.config.enableTracing_cases env with ⟨hd, -, -, he⟩ | he
  · have hen : (s.host.enableTracing env).config.tracingDisabled = false := by
      rw [hconfig, he]
    have hne : s.host.config.tracingDisabled ≠ (s.host.enableTracing env).config.tracingDisabled := by
      rw [hd, hen]
      decide
    rw [clockStep_change hstep hne, if_pos hd] at hs
    obtain rfl := Option.some.inj hs
    refine clockInv_blank ?_ (fun _ => hdiff.trans (hi.pending hd)) fun h => ?_
    · rw [hconfig] at hen
      unfold HostState.enableTracing
      simp [hd, hen]
    · rw [hen] at h
      cases h
  · have hsame : (s.host.enableTracing env).config.tracingDisabled = s.host.config.tracingDisabled := by
      rw [hconfig, he]
      rfl
    rw [clockStep_same hstep hsame] at hs
    obtain rfl := Option.some.inj hs
    refine hi.keep ?_ hsame (fun _ => hdiff) fun hd => hdiff.trans (hi.pending hd)
    rw [hconfig] at hsame
    unfold HostState.enableTracing
    simp [hsame]

theorem clockInv_disableTracing (hi : ClockInv s) {order : List Tid}
    (hs : clockStep strings fuel s (.event (.disableTracing order)) = some s') : ClockInv s' := by
  obtain ⟨h', hstep, -⟩ := Option.bind_eq_some_iff.mp hs
  have hcopy := hstep
  simp only [HostState.step, HostState.disableTracing] at hcopy
  cases hname : s.host.config.hostFilename with
  | none =>
    have hsame : s.host.config.disableTracing = s.host.config := by
      simp [VirtualDeviceTraceConfig.disableTracing, hname]
    have hends : s.host.config.endsSession = false := by simp [VirtualDeviceTraceConfig.endsSession, hname]
    rw [hends, if_neg Bool.false_ne_true, hsame] at hcopy
    obtain rfl := Option.some.inj hcopy
    rw [clockStep_same hstep rfl] at hs
    obtain rfl := Option.some.inj hs
    have hlast : lastSetAfter s.host s.lastSet (.disableTracing order) = s.lastSet := by
      simp [lastSetAfter, hname]
    rw [hlast]
    exact hi.keep rfl rfl (fun _ => rfl) hi.pending
  | some f =>
    have hlast : lastSetAfter s.host s.lastSet (.disableTracing order) = none := by
      simp [lastSetAfter, hname]
    have hzero : s.host.config.disableTracing.guestTimeDiff = 0 := by
      simp [VirtualDeviceTraceConfig.disableTracing, hname]
    have hdis : s.host.config.disableTracing.tracingDisabled = true := by
      simp [VirtualDeviceTraceConfig.disableTracing, hname]
    by_cases hd : s.host.config.tracingDisabled = true
    · have hends : s.host.config.endsSession = false := by simp [VirtualDeviceTraceConfig.endsSession, hd]
      rw [hends, if_neg Bool.false_ne_true] at hcopy
      obtain rfl := Option.some.inj hcopy
      rw [clockStep_same hstep (hdis.trans hd.symm), hlast] at hs
      obtain rfl := Option.some.inj hs
      exact hi.keep rfl (hdis.trans hd.symm) (fun hen => by rw [hd] at hen; cases hen) fun _ => hzero
    · have hends : s.host.config.endsSession = true := by simp [VirtualDeviceTraceConfig.endsSession, hd, hname]
      rw [if_pos hends, Option.ite_none_right_eq_some] at hcopy
      obtain rfl := Option.some.inj hcopy.2
      have hne : s.host.config.tracingDisabled ≠ s.host.config.disableTracing.tracingDisabled := by
        rw [hdis]
        exact hd
      rw [clockStep_change hstep hne, if_neg hd, hlast] at hs
      obtain rfl := Option.some.inj hs
      refine clockInv_blank rfl (fun hen => ?_) fun _ => hzero
      rw [hdis] at hen
      cases hen

theorem clockInv_step {a : ClockEvent} (hi : ClockInv s) (hs : clockStep strings fuel s a = some s') :
    ClockInv s' := by
  cases a with
  | setTraceConfig host guest combined =>
    obtain rfl := Option.some.inj hs
    exact ⟨hi.pending, hi.session, hi.times⟩
  | event e =>
    cases e with
    | enableTracing env => exact clockInv_enableTracing hi hs
    | disableTracing order => exact clockInv_disableTracing hi hs
    | setGuestTime t now =>
      have hsame := setGuestTime_disabled t now s.host.config
      rw [clockStep_same rfl hsame] at hs
      obtain rfl := Option.some.inj hs
      refine hi.keep rfl hsame (fun hen => ?_) fun hd => ?_
      · simp [VirtualDeviceTraceConfig.setGuestTime, hen]
      · simp [VirtualDeviceTraceConfig.setGuestTime, hd, lastSetAfter, setDiff]
    | call u now c =>
      obtain ⟨h', hstep, -⟩ := Option.bind_eq_some_iff.mp hs
      obtain ⟨-, ⟨-, rfl⟩ | ⟨info, b, w, he, hb, -, rfl⟩⟩ := HostState.call_cases hstep
      · have hkeep : s.host.beforeCall u = { s.host with
            contexts := (s.host.beforeCall u).contexts, calls := s.host.calls + 1 } := s.host.beforeCall_eq u
        rw [hkeep] at hstep
        rw [clockStep_same hstep rfl] at hs
        obtain rfl := Option.some.inj hs
        have hboots : bootsAfter s.host { s.host with
            contexts := (s.host.beforeCall u).contexts, calls := s.host.calls + 1 } s.boots (.call u now c) = s.boots :=
          if_neg (Nat.lt_irrefl _)
        rw [hboots]
        exact hi.keep rfl rfl (fun _ => rfl) hi.pending
      · rw [HostState.beforeCall_eq] at hstep
        rw [clockStep_same hstep (Call.body_disabled hb).2] at hs
        obtain rfl := Option.some.inj hs
        exact hi.record (Call.enter_disabled he) hb rfl rfl
    | exit u =>
      obtain ⟨h', hstep, -⟩ := Option.bind_eq_some_iff.mp hs
      have hcopy := hstep
      simp only [HostState.step, HostState.exit, Option.ite_none_left_eq_some] at hcopy
      obtain rfl := Option.some.inj hcopy.2
      rw [clockStep_same hstep rfl] at hs
      obtain rfl := Option.some.inj hs
      exact hi.keep rfl rfl (fun _ => rfl) hi.pending

/-- **Exactly the guest's time**, when nothing is clamped and the clock has not
run over. -/
theorem exact_time {t h n : UInt64} (hw : Within63 t h) (hn : h ≤ n) (hlt : t.toNat + (n.toNat - h.toNat) < 2 ^ 64) :
    (n + (setDiff (some (t, h))).toUInt64).toNat = t.toNat + (n.toNat - h.toNat) := by
  have hdiff : (setDiff (some (t, h))).toUInt64 = t - h := getSignedDifference_toUInt64 hw
  have hsum : n + (t - h) = t + (n - h) := by
    rw [UInt64.sub_eq_add_neg, UInt64.sub_eq_add_neg, ← UInt64.add_assoc, UInt64.add_comm n t, UInt64.add_assoc]
  have hsub : (n - h).toNat = n.toNat - h.toNat := UInt64.toNat_sub_of_le n h hn
  calc (n + (setDiff (some (t, h))).toUInt64).toNat
      = (t + (n - h)).toNat := by rw [hdiff, hsum]
    _ = (t.toNat + (n.toNat - h.toNat)) % 2 ^ 64 := by rw [UInt64.toNat_add, hsub]
    _ = t.toNat + (n.toNat - h.toNat) := Nat.mod_eq_of_lt hlt

/-- Before any session, with the initial difference. -/
def ClockInitial (s : ClockState) : Prop :=
  ∃ config : VirtualDeviceTraceConfig, config.tracingDisabled = true ∧ config.guestTimeDiff = 0 ∧
    s = { host := { config := config } }

abbrev ClockReach (strings : Ptr → Bytes) (fuel : ℕ) : ClockState → Prop :=
  Reach ClockInitial (fun s a s' => clockStep strings fuel s a = some s') fun _ _ => True

/-- The boot times of a thread's calls, and the timestamps of its packets. -/
def ofThread (u : Tid) (l : List (Tid × UInt64)) : List UInt64 := (l.filter fun x => x.1 = u).map Prod.snd

theorem ofThread_map (u : Tid) (l : List (Tid × UInt64)) (d : UInt64) :
    ofThread u (l.map fun x => (x.1, x.2 + d)) = (ofThread u l).map (· + d) := by
  unfold ofThread
  rw [List.filter_map, List.map_map, List.map_map]
  rfl

/-- What the timestamps of a session are that follows `setGuestTime t` at boot time `h`. -/
structure StampedFrom (s : ClockState) (t h : UInt64) : Prop where
  times : ∀ (j : ℕ) (u : Tid) (n : UInt64), s.boots[j]? = some (u, n) → h ≤ n → t.toNat + (n.toNat - h.toNat) < 2 ^ 64 →
    ∃ ts : UInt64, (sessionTimes s.host.log)[j]? = some (u, ts) ∧ ts.toNat = t.toNat + (n.toNat - h.toNat)
  monotone : ∀ u, (∀ n ∈ ofThread u s.boots, h ≤ n ∧ t.toNat + (n.toNat - h.toNat) < 2 ^ 64) →
    (ofThread u s.boots).Pairwise (· ≤ ·) → (ofThread u (sessionTimes s.host.log)).Pairwise (· ≤ ·)

/-- **One difference for each session.** Its timestamps are the boot times of
the recorded calls and the difference that the last `setGuestTime` before it
computed; they are the guest's time exactly where nothing is clamped. -/
theorem session_times {s : ClockState} (hr : ClockReach strings fuel s) :
    sessionTimes s.host.log = s.boots.map (fun x => (x.1, x.2 + (setDiff s.sessionSet).toUInt64)) ∧
      (s.host.config.tracingDisabled = false → s.host.config.guestTimeDiff = setDiff s.sessionSet) ∧
      ∀ t h, s.sessionSet = some (t, h) → Within63 t h → StampedFrom s t h := by
  have hi : ClockInv s := by
    refine Reach.inv (P := ClockInv) ?_ (fun s a s' hi _ hs => clockInv_step hi hs) hr
    intro s hs
    obtain ⟨config, -, hzero, rfl⟩ := hs
    exact ⟨fun _ => hzero, fun _ => hzero, rfl⟩
  refine ⟨hi.times, hi.session, fun t h hset hw => ⟨fun j u n hj hn hlt => ?_, fun u hall hmono => ?_⟩⟩
  · refine ⟨n + (setDiff s.sessionSet).toUInt64, ?_, ?_⟩
    · rw [hi.times, List.getElem?_map, hj]
      rfl
    · rw [hset]
      exact exact_time hw hn hlt
  · rw [hi.times, ofThread_map, List.pairwise_map, hset]
    apply hmono.imp_of_mem
    intro a b ha hb hab
    obtain ⟨hna, hlta⟩ := hall a ha
    obtain ⟨hnb, hltb⟩ := hall b hb
    have hab' : a.toNat ≤ b.toNat := hab
    rw [UInt64.le_iff_toNat_le, exact_time hw hna hlta, exact_time hw hnb hltb]
    omega

/-- The guest's time is set to 1000 at boot time 5, and a slice begins at 7. -/
theorem session_times_slice : ∃ s : ClockState, s.boots = [(0, 7)] ∧ s.sessionSet = some (1000, 5) ∧
    StampedFrom s 1000 5 := by
  have hrun : ((Runs.run (clockStep (fun _ => [97]) 3) { host := { config := {} } }
      [.setTraceConfig (some "host") none none, .event (.setGuestTime 1000 5), .event (.enableTracing {}),
        .event (.setGuestTime 1 6), .event (.call 0 7 (.beginTrace 9))]).map
      fun s => (s.boots, s.sessionSet)) = some ([(0, 7)], some (1000, 5)) := by
    decide +kernel
  obtain ⟨s, hrun, heq⟩ := Option.map_eq_some_iff.mp hrun
  obtain ⟨hboots, hset⟩ := Prod.mk.inj heq
  have hstart : ClockReach (fun _ => [97]) 3 { host := { config := {} } } := .init ⟨{}, rfl, rfl, rfl⟩
  have hreach := Reach.run_of _ (fun _ _ _ => trivial) hstart hrun
  exact ⟨s, hboots, hset, (session_times hreach).2.2 1000 5 hset (by decide)⟩

end

end Host
end VPerfetto
