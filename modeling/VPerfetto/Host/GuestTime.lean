/-
# The time of a packet

Every packet that `beginTrace`, `endTrace` and `traceCounter` write about an
event has the boot time of the call plus `guestTimeDiff`, and there is one for
each call (`Call.body_times`).

`setGuestTime` puts the difference in force for the next session. Until that
session ends only `disableTracing` can take it away: called without a session
it still resets `guestTimeDiff` (`run_guestTimeDiff`).

Key definitions: `SameSession`, `KeepsGuestTime`.
Key theorems: `Call.body_times`, `run_guestTimeDiff`, `body_loggedAt`.
-/
import VPerfetto.Host.HostFile

namespace VPerfetto
namespace Host

open Wire Machine Runs

/-! ### One timestamp for each call -/

section

variable {strings : Ptr → Bytes} {call : Call} {now : UInt64} {c : VirtualDeviceTraceConfig}
  {i : ThreadInfo} {b : Body}

/-- The timestamps of the packets, in order. -/
def Body.times (b : Body) : List UInt64 := b.packets.filterMap fun p => p.record.timestamp

theorem emit_times (b : Body) (p : Packet) : (b.emit p).times = b.times ++ p.record.timestamp.toList := by
  rw [Body.times, Body.emit, List.filterMap_append]
  cases h : p.record.timestamp <;> simp [Body.times, h]

theorem emit_untimed_times {p q : Packet} (b : Body) (hp : p.record.timestamp = none) :
    ((b.emit p).emit q).times = b.times ++ q.record.timestamp.toList := by
  have hfirst : (b.emit p).times = b.times := by
    rw [emit_times, hp]
    exact List.append_nil b.times
  rw [emit_times, hfirst]

/-- Setting up the thread writes no timestamp and leaves the difference alone. -/
theorem ensureThreadInfo_untimed (now : UInt64) (h : ensureThreadInfo { config := c, info := i } = some b) :
    b.times = [] ∧ b.config.getTimestamp now = c.getTimestamp now := by
  obtain ⟨b₀, h0, -, -, rfl, -⟩ := ensureThreadInfo_cases h
  have hx : Extends (fun p => p.record.timestamp = none) b₀ (writeThreadTrack (writeCategory b₀)) :=
    (writeCategory_extends (fun _ => rfl) b₀).trans (writeThreadTrack_extends fun _ => rfl)
  obtain ⟨interningId, threadId, hconfig⟩ := hx.config
  obtain ⟨new, hpackets, hnew⟩ := hx.packets
  rw [Body.times, hpackets, hconfig, List.filterMap_append, List.filterMap_eq_nil_iff.mpr hnew]
  rcases writeSequenceId_cases h0 with ⟨-, rfl⟩ | ⟨-, -, rfl⟩ <;> exact ⟨rfl, rfl⟩

/-- What a call writes after the thread is set up is all that has a timestamp. -/
theorem times_after_ensure {b' : Body} (h : ensureThreadInfo { config := c, info := i } = some b)
    (htimes : b'.times = b.times ++ [b.config.getTimestamp now]) : b'.times = [c.getTimestamp now] := by
  obtain ⟨hnone, hts⟩ := ensureThreadInfo_untimed now h
  rw [htimes, hnone, hts]
  rfl

/-- **A call writes one timestamp.** -/
theorem Call.body_times (h : call.body strings now c i = some b) : b.times = [c.getTimestamp now] := by
  cases call with
  | beginTrace name =>
    obtain ⟨b₁, h1, h⟩ := Option.bind_eq_some_iff.mp h
    obtain rfl := Option.some.inj h
    apply times_after_ensure h1
    unfold writeSliceBegin
    dsimp only
    split
    · exact emit_untimed_times _ rfl
    · exact emit_times _ _
  | endTrace =>
    obtain rfl := Option.some.inj h
    rfl
  | traceCounter name val =>
    obtain ⟨b₁, h1, h⟩ := Option.bind_eq_some_iff.mp h
    obtain rfl := Option.some.inj h
    apply times_after_ensure h1
    unfold writeCounter
    dsimp only
    split
    · exact emit_untimed_times _ rfl
    · exact emit_times _ _

end

/-! ### From `setGuestTime` to the events of its session -/

/-- No other `setGuestTime` is accepted, and no session ends. -/
def SameSession (m : Machine) : Event → Prop
  | .setGuestTime _ _ => m.config.tracingDisabled = false
  | .disableTracing _ => m.config.endsSession = false
  | _ => True

/-- `disableTracing` returns at once. -/
def KeepsGuestTime (m : Machine) : Event → Prop
  | .disableTracing _ => m.config.hostFilename = none
  | _ => True

section

variable {strings : Ptr → Bytes} {m m' : Machine} {e : Event}

theorem enableTracing_guestTimeDiff (env : Env) (c : VirtualDeviceTraceConfig) :
    (c.enableTracing env).guestTimeDiff = c.guestTimeDiff := by
  rcases VirtualDeviceTraceConfig.enableTracing_cases env c with ⟨-, -, -, heq⟩ | heq
  · rw [heq]
    rfl
  · rw [heq]
    rfl

theorem step_keeps (hsame : SameSession m e) (hkeep : KeepsGuestTime m e) (hs : m.step strings e = some m') :
    m'.config.guestTimeDiff = m.config.guestTimeDiff := by
  cases e with
  | enableTracing env =>
    obtain rfl := Option.some.inj hs
    have hconfig : (m.enableTracing env).config = m.config.enableTracing env := by
      unfold Machine.enableTracing
      dsimp only
      split <;> rfl
    rw [hconfig, enableTracing_guestTimeDiff]
  | disableTracing order =>
    have hname : m.config.hostFilename = none := hkeep
    rcases disableTracing_cases hs with ⟨he, -, -⟩ | ⟨-, rfl⟩
    · simp [VirtualDeviceTraceConfig.endsSession, hname] at he
    · simp [VirtualDeviceTraceConfig.disableTracing, hname]
  | setGuestTime t now =>
    have hd : m.config.tracingDisabled = false := hsame
    obtain rfl := Option.some.inj hs
    simp [VirtualDeviceTraceConfig.setGuestTime, hd]
  | enter t call =>
    obtain ⟨-, -, ⟨-, rfl⟩ | ⟨info, -, rfl⟩⟩ := enter_cases hs
    · obtain ⟨contexts, hc⟩ := construct_eq (m := m) t
      split
      · rfl
      · rw [hc]
    · obtain ⟨contexts, hc⟩ := construct_eq (m := m) t
      rw [afterEnter, hc]
  | body t now full =>
    obtain ⟨call, n, b, -, hb, rfl⟩ := body_cases hs
    obtain ⟨calls, written, interningId, threadId, hc⟩ := Call.body_config hb
    show b.config.guestTimeDiff = _
    rw [hc]
  | exit t =>
    obtain ⟨-, -, rfl⟩ := exit_cases hs
    rfl

theorem step_resets (hsame : SameSession m e) (hkeep : ¬ KeepsGuestTime m e) (hs : m.step strings e = some m') :
    m'.config.guestTimeDiff = 0 := by
  cases e with
  | disableTracing order =>
    have hends : m.config.endsSession = false := hsame
    rcases disableTracing_cases hs with ⟨he, -, -⟩ | ⟨-, rfl⟩
    · rw [hends] at he
      exact absurd he Bool.false_ne_true
    · rcases VirtualDeviceTraceConfig.disableTracing_of_not_endsSession hends with ⟨hname, -⟩ | ⟨-, heq⟩
      · exact absurd hname hkeep
      · show (m.config.disableTracing).guestTimeDiff = 0
        rw [heq]
  | enableTracing env | setGuestTime t now | enter t call | body t now full | exit t =>
    exact absurd trivial hkeep

/-- Up to the end of its session the difference stays in force, unless a call
of `disableTracing` took it away before the session began. -/
theorem run_guestTimeDiff {es : List Event} (hsame : StepsMeet (Machine.step strings) SameSession m es)
    (hr : run (Machine.step strings) m es = some m') :
    (StepsMeet (Machine.step strings) KeepsGuestTime m es ∧ m'.config.guestTimeDiff = m.config.guestTimeDiff) ∨
      (¬ StepsMeet (Machine.step strings) KeepsGuestTime m es ∧ m'.config.guestTimeDiff = 0) :=
  run_keeps_or_resets (v := fun m : Machine => m.config.guestTimeDiff)
    (fun _ _ _ hsame hkeep hs => step_keeps hsame hkeep hs)
    (fun _ _ _ hsame hkeep hs => step_resets hsame hkeep hs) hsame hr

/-- The body adds one event to the log, with this timestamp. -/
def LoggedAt (before after : Machine) (ts : UInt64) : Prop :=
  ∃ new, after.log = before.log ++ new ∧ new.filterMap (fun e => e.2.packet.record.timestamp) = [ts]

/-- The event of a body has the time of the body and the difference in force. -/
theorem body_loggedAt {t : Tid} {now ts : UInt64} {full : ℕ → Bool} (hs : m.body strings t now full = some m') :
    LoggedAt m m' ts ↔ ts = m.config.getTimestamp now := by
  obtain ⟨call, n, b, -, hb, rfl⟩ := body_cases hs
  set new := (b.packets.map (emitted (call.name (m.openNames t)))).map (t, ·) with hnew
  have hlog : (m.afterBody t full call b).log = m.log ++ new := rfl
  have htimes : new.filterMap (fun e => e.2.packet.record.timestamp) = [m.config.getTimestamp now] := by
    rw [hnew, List.filterMap_map, List.filterMap_map, ← Call.body_times hb]
    rfl
  rw [LoggedAt, hlog]
  constructor
  · intro h
    obtain ⟨new', heq, hts⟩ := h
    obtain rfl := List.append_cancel_left heq
    rw [htimes] at hts
    exact (List.singleton_inj.mp hts).symm
  · rintro rfl
    exact ⟨new, rfl, htimes⟩

end

end Host
end VPerfetto
