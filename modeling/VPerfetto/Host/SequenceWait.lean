/-
# Waiting for the sequence id

A call that adds a packet first counts it: the one that counts the first packet
of all sets `sequenceIdWritten`, and every other one waits until the flag is
set, in a loop and with its tracing lock held. `enableTracing` and
`disableTracing` clear the counter and then the flag, without a lock.

So threads get stuck in two ways: in the deadlock of `Host/Stuck`, which is for
good, or in the loop of a call that has counted before the flag was cleared and
looks afterwards, which waits for another call to count a first packet.

Each turn of the loop reads the flag. A call that ends a slice does not count.

Key definitions: `InfoPhase`, `Threads`, `Threads.step`, `Threads.Spins`, `Threads.LeftWaiting`,
`CallsApart`.
Key theorems: `Threads.step_locks`, `leftWaiting_step`, `stuck_in_deadlock_or_loop`.
-/
import VPerfetto.Host.Stuck

namespace VPerfetto
namespace Host

open Runs Ownership

/-- Where a call is in the first part of `ensureThreadInfo`. -/
inductive InfoPhase where
  | ahead
  -- has counted the first packet and not yet set the flag
  | first
  | waiting
  | past
deriving DecidableEq, Repr

/-- Between the count and the look. -/
def InfoPhase.inside : InfoPhase → Bool
  | .first | .waiting => true
  | _ => false

/-- The locks, the call of each thread, and the two variables it looks at. -/
structure Threads where
  locks : Locks := {}
  info : ℕ → InfoPhase := fun _ => .past
  packetsWritten : UInt32 := 0
  sequenceIdWritten : Bool := false

inductive ThreadEvent where
  /-- a step of the locks; `counts` tells whether a call that begins here counts a packet -/
  | lock (e : LockEvent) (counts : Bool)
  | count (t : ℕ)
  | setWritten (t : ℕ)
  | look (t : ℕ)
  | clearPackets (t : ℕ)
  | clearWritten (t : ℕ)

def ThreadEvent.thread : ThreadEvent → ℕ
  | .lock e _ => e.thread
  | .count t | .setWritten t | .look t | .clearPackets t | .clearWritten t => t

/-- A thread goes on with what it has begun. -/
def ThreadEvent.goesOn : ThreadEvent → Bool
  | .lock e _ => e.goesOn
  | .count _ | .setWritten _ | .look _ => true
  | .clearPackets _ | .clearWritten _ => false

namespace Threads

def setInfo (t : ℕ) (p : InfoPhase) (s : Threads) : Threads :=
  { s with info := Function.update s.info t p }

/-- A call that has its lock and not yet its count and look behind it. -/
def Counting (s : Threads) (t : ℕ) : Prop := s.locks.phase t = .writing ∧ s.info t ≠ .past

instance (s : Threads) (t : ℕ) : Decidable (s.Counting t) :=
  inferInstanceAs (Decidable (s.locks.phase t = .writing ∧ s.info t ≠ .past))

/-- A call begins with its count ahead of it. -/
def afterLock (e : LockEvent) (counts : Bool) (s : Threads) : Threads :=
  match e with
  | .call t => s.setInfo t (if counts then .ahead else .past)
  | _ => s

def step (s : Threads) : ThreadEvent → Option Threads
  | .lock e counts =>
    -- neither a refill nor a return comes before the look
    if s.Counting e.thread then none
    else do
      let locks ← s.locks.step e
      return { s with locks := locks }.afterLock e counts
  | .count t =>
    if s.locks.phase t = .writing ∧ s.info t = .ahead then
      let packetsWritten := s.packetsWritten + 1
      some { s.setInfo t (if packetsWritten = 1 then .first else .waiting) with packetsWritten := packetsWritten }
    else none
  | .setWritten t => if s.info t = .first then some { s.setInfo t .past with sequenceIdWritten := true } else none
  | .look t => if s.info t = .waiting ∧ s.sequenceIdWritten = true then some (s.setInfo t .past) else none
  | .clearPackets t => if s.locks.phase t = .idle then some { s with packetsWritten := 0 } else none
  | .clearWritten t => if s.locks.phase t = .idle then some { s with sequenceIdWritten := false } else none

/-- A thread can go on with what it has begun. -/
def CanGoOn (s : Threads) (t : ℕ) : Prop :=
  ∃ e, e.thread = t ∧ e.goesOn = true ∧ (s.step e).isSome = true

/-- A thread is in the loop and finds the flag clear. -/
def Spins (s : Threads) (t : ℕ) : Prop := s.info t = .waiting ∧ s.sequenceIdWritten = false

end Threads

/-- Refills and saving stay apart, and so do clearing and counting: nothing is
cleared while a call is between its count and its look, and no packet is
counted after the counter has been cleared and before the flag is. -/
def CallsApart (s : Threads) : ThreadEvent → Prop
  | .lock e _ => RefillsApart s.locks e
  | .clearPackets _ => ∀ u, (s.info u).inside = false
  | .clearWritten _ => (∀ u, (s.info u).inside = false) ∧ s.packetsWritten = 0
  | _ => True

section

variable {s s' : Threads} {t u : ℕ} {e : ThreadEvent}

/-- What a step does to the locks: one of their steps by a thread that is not
counting, or nothing. -/
theorem Threads.step_locks (hs : s.step e = some s') :
    (∃ l counts, e = .lock l counts ∧ ¬ s.Counting l.thread ∧ s.locks.step l = some s'.locks ∧
      s' = { s with locks := s'.locks }.afterLock l counts) ∨
    ((∀ l counts, e ≠ .lock l counts) ∧ s'.locks = s.locks) := by
  cases e with
  | lock l counts =>
    simp only [Threads.step, Option.ite_none_left_eq_some, Option.bind_eq_bind, Option.bind_eq_some_iff,
      Option.pure_def, Option.some.injEq] at hs
    obtain ⟨hout, locks, hl, rfl⟩ := hs
    have hlocks : (({ s with locks := locks } : Threads).afterLock l counts).locks = locks := by
      cases l <;> rfl
    refine Or.inl ⟨l, counts, rfl, hout, ?_, ?_⟩
    · rw [hlocks]
      exact hl
    · rw [hlocks]
  | count t | setWritten t | look t | clearPackets t | clearWritten t =>
    obtain ⟨-, hs⟩ := Option.ite_none_right_eq_some.mp hs
    obtain rfl := Option.some.inj hs
    exact Or.inr ⟨nofun, rfl⟩

/-- A thread inside is in the middle of a call. -/
def InsideWriting (s : Threads) : Prop := ∀ t, (s.info t).inside = true → s.locks.phase t = .writing

theorem InsideWriting.counting (h : InsideWriting s) (hin : (s.info t).inside = true) : s.Counting t := by
  refine ⟨h t hin, fun hpast => ?_⟩
  rw [hpast] at hin
  exact Bool.false_ne_true hin

theorem afterLock_info (l : LockEvent) (counts : Bool) (s : Threads) :
    (s.afterLock l counts).info = s.info ∨
    ∃ t p, l = .call t ∧ p.inside = false ∧ (s.afterLock l counts).info = Function.update s.info t p := by
  cases l with
  | call t => exact Or.inr ⟨t, _, rfl, by cases counts <;> rfl, rfl⟩
  | acquire | refill | disable | next | release | exit => exact Or.inl rfl

/-- A call that begins is not inside. -/
theorem afterLock_inside {l : LockEvent} {counts : Bool} (h : ((s.afterLock l counts).info u).inside = true) :
    (s.info u).inside = true ∧ (s.afterLock l counts).info u = s.info u := by
  rcases afterLock_info l counts s with hinfo | ⟨t, p, -, hout, hinfo⟩
  · rw [hinfo] at h ⊢
    exact ⟨h, rfl⟩
  · rw [hinfo] at h ⊢
    rcases eq_or_ne u t with rfl | hut
    · rw [Function.update_self, hout] at h
      exact absurd h Bool.false_ne_true
    · rw [Function.update_of_ne hut] at h ⊢
      exact ⟨h, rfl⟩

/-- A step of another thread. -/
theorem Threads.step_info_of_ne (hs : s.step e = some s') (hu : u ≠ e.thread) : s'.info u = s.info u := by
  cases e with
  | lock l counts =>
    rcases Threads.step_locks hs with ⟨_, _, ⟨⟩, -, -, heq⟩ | ⟨hne, -⟩
    · rw [heq]
      rcases afterLock_info l counts { s with locks := s'.locks } with hinfo | ⟨t, p, rfl, -, hinfo⟩
      · rw [hinfo]
      · rw [hinfo]
        exact Function.update_of_ne hu _ _
    · exact absurd rfl (hne l counts)
  | count t | setWritten t | look t =>
    obtain ⟨-, hs⟩ := Option.ite_none_right_eq_some.mp hs
    obtain rfl := Option.some.inj hs
    exact Function.update_of_ne hu _ _
  | clearPackets t | clearWritten t =>
    obtain ⟨-, hs⟩ := Option.ite_none_right_eq_some.mp hs
    obtain rfl := Option.some.inj hs
    rfl

theorem insideWriting_step (h : InsideWriting s) (hs : s.step e = some s') : InsideWriting s' := by
  intro u hu
  rcases eq_or_ne u e.thread with rfl | hne
  · cases e with
    | lock l counts =>
      rcases Threads.step_locks hs with ⟨_, _, ⟨⟩, hout, -, heq⟩ | ⟨hne, -⟩
      · rw [heq] at hu
        exact absurd (h.counting (afterLock_inside hu).1) hout
      · exact absurd rfl (hne l counts)
    | count t =>
      obtain ⟨hcount, hs⟩ := Option.ite_none_right_eq_some.mp hs
      obtain rfl := Option.some.inj hs
      exact hcount.1
    | setWritten t | look t =>
      obtain ⟨-, hs⟩ := Option.ite_none_right_eq_some.mp hs
      obtain rfl := Option.some.inj hs
      exact absurd hu (by simp [Threads.setInfo, ThreadEvent.thread, InfoPhase.inside])
    | clearPackets t | clearWritten t =>
      obtain ⟨-, hs⟩ := Option.ite_none_right_eq_some.mp hs
      obtain rfl := Option.some.inj hs
      exact h _ hu
  · rw [Threads.step_info_of_ne hs hne] at hu
    rcases Threads.step_locks hs with ⟨l, _, rfl, -, hl, -⟩ | ⟨-, hlocks⟩
    · rw [(Locks.step_phase hl).2 u hne]
      exact h u hu
    · rw [hlocks]
      exact h u hu

/-- A step of the locks, by a thread that is not counting. -/
theorem Threads.step_lock {l : LockEvent} {locks : Locks} (hout : ¬ s.Counting l.thread)
    (hl : s.locks.step l = some locks) :
    s.step (.lock l false) = some ({ s with locks := locks }.afterLock l false) := by
  simp [Threads.step, hout, hl]

/-- A thread that is counting goes on unless it spins. -/
theorem Threads.counting_goesOn (hcounting : s.Counting t) (hspin : ¬ s.Spins t) :
    ∃ e s', e.thread = t ∧ e.goesOn = true ∧ CallsApart s e ∧ s.step e = some s' := by
  cases hinfo : s.info t with
  | past => exact absurd hinfo hcounting.2
  | ahead => exact ⟨.count t, _, rfl, rfl, trivial, if_pos ⟨hcounting.1, hinfo⟩⟩
  | first => exact ⟨.setWritten t, _, rfl, rfl, trivial, if_pos hinfo⟩
  | waiting =>
    have hflag : s.sequenceIdWritten = true := by
      by_contra hclear
      exact hspin ⟨hinfo, Bool.eq_false_iff.mpr hclear⟩
    exact ⟨.look t, _, rfl, rfl, trivial, if_pos ⟨hinfo, hflag⟩⟩

end

end Host
end VPerfetto
