/-
# Calls return

How much there is to do. What a thread has begun takes so many more acquires,
releases and steps of its count, and each of them brings it nearer to its
return; only what begins a call, a refill or a save adds to it. So a system of
`n` threads takes no more such steps than in proportion to what it begins,
whoever goes first, and when no thread can go on all of them have returned, or
there is the deadlock of `Host/Stuck`, or a thread is left waiting as in
`Host/SequenceWait`. Where refills and saving stay apart, and nothing is cleared
while a call is between its count and its look, all can return.

Key definitions: `LockPhase.work`, `Locks.stepOf`, `OfThreads`, `Threads.work`, `Threads.stepOf`,
`ThreadsOf`, `FlagComes`.
Key theorems: `Locks.step_work`, `ThreadsOf.work_step`, `flagComes_step`, `ThreadsOf.someone_goesOn`,
`calls_return`.
-/
import VPerfetto.Host.SequenceWait
import VPerfetto.Lib.Potential

namespace VPerfetto
namespace Host

open Runs Ownership

/-- The acquires and releases, and steps to a next context, that are left of what
a thread has begun, where at most `n` contexts can be saved. -/
def LockPhase.work (n : ℕ) : LockPhase → ℕ
  | .idle | .exited => 0
  | .writing => 1
  | .calling => 2
  | .adding held | .storing held => if held then 1 else 2
  | .refilling held => if held then 2 else 3
  | .disabling => 3 * n + 2
  | .saving rest => 3 * rest.length + 1
  | .savingContext _ held rest => 3 * rest.length + if held then 2 else 3
  | .flushing held => if held then 3 else 4
  | .removing held => if held then 5 else 6

/-- A step of one of `n` threads. -/
def Locks.stepOf (n : ℕ) (s : Locks) (e : LockEvent) : Option Locks :=
  if e.thread < n then s.step e else none

/-- What is left over all threads. -/
def Locks.work (n : ℕ) (s : Locks) : ℕ := ∑ t ∈ Finset.range n, (s.phase t).work n

/-- Only the first `n` threads do anything. -/
structure OfThreads (n : ℕ) (s : Locks) : Prop where
  locks : LocksOwned s
  contexts : ContextsOk s
  mem_lt : ∀ t ∈ s.contexts, t < n
  busy_lt : ∀ t, (s.phase t).busy = true → t < n

section

variable {s s' : Locks} {n t : ℕ} {p ph : LockPhase} {l : Lock} {contexts contexts' order : List ℕ} {buffer : Bool}
  {e : LockEvent}

theorem OfThreads.length_le (h : OfThreads n s) : s.contexts.length ≤ n := by
  have hsub : s.contexts ⊆ List.range n := fun t ht => List.mem_range.mpr (h.mem_lt t ht)
  have hle := (List.subperm_of_subset h.contexts.nodup hsub).length_le
  rwa [List.length_range] at hle

/-! ### Each step of a thread -/

theorem LockPhase.acquired_work (hn : contexts.length ≤ n) (ha : Locks.acquired contexts order ph = some p) :
    p.work n < ph.work n := by
  rcases eq_or_ne ph .disabling with rfl | hne
  · simp only [Locks.acquired, Option.ite_none_right_eq_some] at ha
    obtain ⟨hperm, ha⟩ := ha
    obtain rfl := Option.some.inj ha
    have hlen := (List.isPerm_iff.mp hperm).length_eq
    simp only [work]
    omega
  · unfold Locks.acquired at ha
    split at ha <;> try contradiction
    all_goals
      obtain rfl := Option.some.inj ha
      simp [work]

theorem LockPhase.released_work (hr : Locks.released t buffer contexts ph = some (l, p, contexts')) :
    p.work n < ph.work n := by
  unfold Locks.released at hr
  split at hr <;> try contradiction
  all_goals
    obtain ⟨-, h⟩ := Prod.mk.inj (Option.some.inj hr)
    obtain ⟨rfl, -⟩ := Prod.mk.inj h
  all_goals first | (simp [work]; done) | (cases buffer <;> simp [work])

/-- A thread that goes on has less left; beginning adds no more than saving
`n` contexts takes. -/
theorem Locks.step_work (hn : s.contexts.length ≤ n) (hs : s.step e = some s') :
    ∃ p, s'.phase = Function.update s.phase e.thread p ∧
      (e.goesOn = true → p.work n < (s.phase e.thread).work n) ∧
      (e.goesOn = false → p.work n ≤ (s.phase e.thread).work n + (3 * n + 6)) := by
  cases e with
  | call t =>
    obtain ⟨-, hs⟩ := Option.ite_none_right_eq_some.mp hs
    obtain rfl := Option.some.inj hs
    refine ⟨_, rfl, fun he => absurd he Bool.false_ne_true, fun _ => ?_⟩
    split <;> simp only [LockPhase.work, Bool.false_eq_true, if_false] <;> omega
  | acquire t order =>
    simp only [Locks.step, Option.bind_eq_bind, Option.bind_eq_some_iff, Option.pure_def] at hs
    obtain ⟨l, -, p, ha, hs⟩ := hs
    obtain ⟨-, hs⟩ := Option.ite_none_right_eq_some.mp hs
    obtain rfl := Option.some.inj hs
    exact ⟨p, rfl, fun _ => LockPhase.acquired_work hn ha, fun he => absurd he.symm Bool.false_ne_true⟩
  | refill t =>
    obtain ⟨-, hs⟩ := Option.ite_none_right_eq_some.mp hs
    obtain rfl := Option.some.inj hs
    refine ⟨_, rfl, fun he => absurd he Bool.false_ne_true, fun _ => ?_⟩
    simp only [LockPhase.work, Bool.false_eq_true, if_false]
    omega
  | disable t =>
    obtain ⟨-, hs⟩ := Option.ite_none_right_eq_some.mp hs
    obtain rfl := Option.some.inj hs
    refine ⟨_, rfl, fun he => absurd he Bool.false_ne_true, fun _ => ?_⟩
    simp only [LockPhase.work]
    omega
  | next t =>
    simp only [Locks.step] at hs
    split at hs
    · rename_i c rest hph
      obtain rfl := Option.some.inj hs
      refine ⟨_, rfl, fun _ => ?_, fun he => absurd he.symm Bool.false_ne_true⟩
      rw [show s.phase (LockEvent.next t).thread = .saving (c :: rest) from hph]
      simp only [LockPhase.work, List.length_cons, Bool.false_eq_true, if_false]
      omega
    · exact absurd hs.symm (Option.some_ne_none _)
  | release t buffer =>
    simp only [Locks.step, Option.bind_eq_bind, Option.bind_eq_some_iff, Option.pure_def] at hs
    obtain ⟨⟨l, p, contexts⟩, hr, hs⟩ := hs
    obtain rfl := Option.some.inj hs
    exact ⟨p, rfl, fun _ => LockPhase.released_work hr, fun he => absurd he.symm Bool.false_ne_true⟩
  | exit t =>
    obtain ⟨-, hs⟩ := Option.ite_none_right_eq_some.mp hs
    obtain rfl := Option.some.inj hs
    refine ⟨_, rfl, fun he => absurd he Bool.false_ne_true, fun _ => ?_⟩
    simp only [LockPhase.work, Bool.false_eq_true, if_false]
    omega

theorem Locks.work_of_update (ht : t < n) (hphase : s'.phase = Function.update s.phase t p) :
    s'.work n + (s.phase t).work n = s.work n + p.work n := by
  unfold Locks.work
  rw [hphase]
  exact sum_update_add (LockPhase.work n) s.phase (Finset.mem_range.mpr ht)

/-! ### Runs of `n` threads -/

theorem Locks.stepOf_eq_some (hs : Locks.stepOf n s e = some s') : e.thread < n ∧ s.step e = some s' :=
  Option.ite_none_right_eq_some.mp hs

/-- A context comes into `mContexts` by its own thread. -/
theorem Locks.mem_contexts_step (hs : s.step e = some s') (ht : t ∈ s'.contexts) : t ∈ s.contexts ∨ t = e.thread := by
  cases e with
  | call u | refill u | disable u | exit u =>
    obtain ⟨-, hs⟩ := Option.ite_none_right_eq_some.mp hs
    obtain rfl := Option.some.inj hs
    exact Or.inl ht
  | acquire u order =>
    simp only [Locks.step, Option.bind_eq_bind, Option.bind_eq_some_iff, Option.pure_def] at hs
    obtain ⟨l, -, p, -, hs⟩ := hs
    obtain ⟨-, hs⟩ := Option.ite_none_right_eq_some.mp hs
    obtain rfl := Option.some.inj hs
    exact Or.inl ht
  | next u =>
    simp only [Locks.step] at hs
    split at hs
    · obtain rfl := Option.some.inj hs
      exact Or.inl ht
    · exact absurd hs.symm (Option.some_ne_none _)
  | release u buffer =>
    simp only [Locks.step, Option.bind_eq_bind, Option.bind_eq_some_iff, Option.pure_def] at hs
    obtain ⟨⟨l, p, contexts⟩, hr, hs⟩ := hs
    obtain rfl := Option.some.inj hs
    unfold Locks.released at hr
    split at hr <;> try contradiction
    all_goals
      obtain ⟨-, hnext⟩ := Prod.mk.inj (Option.some.inj hr)
      obtain ⟨-, rfl⟩ := Prod.mk.inj hnext
    all_goals first
      | exact Or.inl ht
      | exact Or.inl (List.mem_of_mem_erase ht)
      | exact (List.mem_append.mp ht).imp id List.mem_singleton.mp

theorem OfThreads.step (h : OfThreads n s) (hs : Locks.stepOf n s e = some s') : OfThreads n s' := by
  obtain ⟨hlt, hs⟩ := Locks.stepOf_eq_some hs
  obtain ⟨p, hphase, -, -⟩ := Locks.step_work h.length_le hs
  refine ⟨locksOwned_step h.locks hs, contextsOk_step h.contexts h.locks hs, fun t ht => ?_, fun t ht => ?_⟩
  · rcases Locks.mem_contexts_step hs ht with ht | rfl
    · exact h.mem_lt t ht
    · exact hlt
  · rcases eq_or_ne t e.thread with rfl | hne
    · exact hlt
    · rw [hphase, Function.update_of_ne hne] at ht
      exact h.busy_lt t ht

theorem OfThreads.work_lt (h : OfThreads n s) (hs : Locks.stepOf n s e = some s') (he : e.goesOn = true) :
    s'.work n < s.work n := by
  obtain ⟨hlt, hs⟩ := Locks.stepOf_eq_some hs
  obtain ⟨p, hphase, hless, -⟩ := Locks.step_work h.length_le hs
  have hwork := Locks.work_of_update hlt hphase
  have hp := hless he
  omega

theorem OfThreads.work_le (h : OfThreads n s) (hs : Locks.stepOf n s e = some s') (he : e.goesOn = false) :
    s'.work n ≤ s.work n + (3 * n + 6) := by
  obtain ⟨hlt, hs⟩ := Locks.stepOf_eq_some hs
  obtain ⟨p, hphase, -, hmore⟩ := Locks.step_work h.length_le hs
  have hwork := Locks.work_of_update hlt hphase
  have hp := hmore he
  omega

/-- A save that may not begin yet leaves the contexts lock to the refill it waits for. -/
theorem LocksInv.someone_goesOn_apart (h : LocksInv s) (howned : LocksOwned s) (hb : (s.phase t).busy = true) :
    ∃ e s', e.goesOn = true ∧ RefillsApart s e ∧ s.step e = some s' := by
  obtain ⟨u, e, -, he, hsome⟩ := howned.someone_goesOn h.not_deadlocked hb
  obtain ⟨s', hs⟩ := Option.isSome_iff_exists.mp hsome
  cases e with
  | call | refill | disable | exit => exact absurd he Bool.false_ne_true
  | next v => exact ⟨.next v, s', rfl, trivial, hs⟩
  | release v buffer => exact ⟨.release v buffer, s', rfl, trivial, hs⟩
  | acquire v order =>
    by_cases hapart : RefillsApart s (.acquire v order)
    · exact ⟨.acquire v order, s', rfl, hapart, hs⟩
    · obtain ⟨hdisabling, hrefill⟩ := Classical.not_imp.mp hapart
      obtain ⟨w, hw⟩ := not_forall_not.mp hrefill
      simp only [Locks.step, Option.bind_eq_bind, Option.bind_eq_some_iff, hdisabling, LockPhase.wants] at hs
      obtain ⟨l, hl, p, -, hs⟩ := hs
      obtain rfl := Option.some.inj hl
      obtain ⟨hfree, -⟩ := Option.ite_none_right_eq_some.mp hs
      refine ⟨.acquire w [], (s.setOwner .contexts (some w)).setPhase w (.refilling true), rfl, fun hd => ?_, ?_⟩
      · rw [hw] at hd
        exact LockPhase.noConfusion hd
      · simp [Locks.step, hw, LockPhase.wants, Locks.acquired, Option.isNone_iff_eq_none.mp hfree]

end

/-! ### Calls with their counts -/

/-- The steps of the call's count that are left. -/
def InfoPhase.work : InfoPhase → ℕ
  | .ahead => 2
  | .first | .waiting => 1
  | .past => 0

/-- What is left over all threads. -/
def Threads.work (n : ℕ) (s : Threads) : ℕ := s.locks.work n + ∑ t ∈ Finset.range n, (s.info t).work

/-- A step of one of `n` threads. -/
def Threads.stepOf (n : ℕ) (s : Threads) (e : ThreadEvent) : Option Threads :=
  if e.thread < n then s.step e else none

/-- Only the first `n` threads do anything, and only in the middle of a call is one inside. -/
structure ThreadsOf (n : ℕ) (s : Threads) : Prop where
  locks : OfThreads n s.locks
  inside : InsideWriting s

/-- A flag that is clear will be set, or nobody waits for it. -/
def FlagComes (s : Threads) : Prop :=
  s.sequenceIdWritten = true ∨ (∃ u, s.info u = .first) ∨ (s.packetsWritten = 0 ∧ ∀ u, (s.info u).inside = false)

section

variable {s s' : Threads} {n t : ℕ} {e : ThreadEvent}

theorem Threads.stepOf_eq_some (hs : Threads.stepOf n s e = some s') : e.thread < n ∧ s.step e = some s' :=
  Option.ite_none_right_eq_some.mp hs

theorem ThreadsOf.step (h : ThreadsOf n s) (hs : Threads.stepOf n s e = some s') : ThreadsOf n s' := by
  obtain ⟨hlt, hs⟩ := Threads.stepOf_eq_some hs
  refine ⟨?_, insideWriting_step h.inside hs⟩
  rcases Threads.step_locks hs with ⟨l, _, rfl, -, hl, -⟩ | ⟨-, hlocks⟩
  · exact h.locks.step ((if_pos hlt).trans hl)
  · rw [hlocks]
    exact h.locks

/-- What is left of the counts, when one thread has moved. -/
theorem Threads.infoWork_of_update {p : InfoPhase} (ht : t < n) (hinfo : s'.info = Function.update s.info t p) :
    (∑ u ∈ Finset.range n, (s'.info u).work) + (s.info t).work
      = (∑ u ∈ Finset.range n, (s.info u).work) + p.work := by
  rw [hinfo]
  exact sum_update_add InfoPhase.work s.info (Finset.mem_range.mpr ht)

/-- A step of a count, which the thread has then behind it, or clearing. -/
theorem Threads.step_info (hne : ∀ l counts, e ≠ .lock l counts) (hs : s.step e = some s') :
    (e.goesOn = true ∧ ∃ p, s'.info = Function.update s.info e.thread p ∧ p.work + 1 = (s.info e.thread).work) ∨
    (e.goesOn = false ∧ s'.info = s.info) := by
  cases e with
  | lock l counts => exact absurd rfl (hne l counts)
  | count t =>
    obtain ⟨⟨-, hahead⟩, hs⟩ := Option.ite_none_right_eq_some.mp hs
    obtain rfl := Option.some.inj hs
    refine Or.inl ⟨rfl, _, rfl, ?_⟩
    rw [show s.info (ThreadEvent.count t).thread = .ahead from hahead]
    split <;> rfl
  | setWritten t =>
    obtain ⟨hfirst, hs⟩ := Option.ite_none_right_eq_some.mp hs
    obtain rfl := Option.some.inj hs
    refine Or.inl ⟨rfl, .past, rfl, ?_⟩
    rw [show s.info (ThreadEvent.setWritten t).thread = .first from hfirst]
    rfl
  | look t =>
    obtain ⟨⟨hwaiting, -⟩, hs⟩ := Option.ite_none_right_eq_some.mp hs
    obtain rfl := Option.some.inj hs
    refine Or.inl ⟨rfl, .past, rfl, ?_⟩
    rw [show s.info (ThreadEvent.look t).thread = .waiting from hwaiting]
    rfl
  | clearPackets t | clearWritten t =>
    obtain ⟨-, hs⟩ := Option.ite_none_right_eq_some.mp hs
    obtain rfl := Option.some.inj hs
    exact Or.inr ⟨rfl, rfl⟩

/-- A thread that goes on has less left; a call that begins has a count ahead of it. -/
theorem ThreadsOf.work_step (h : ThreadsOf n s) (hs : Threads.stepOf n s e = some s') :
    (e.goesOn = true → s'.work n < s.work n) ∧ (e.goesOn = false → s'.work n ≤ s.work n + (3 * n + 8)) := by
  obtain ⟨hlt, hs⟩ := Threads.stepOf_eq_some hs
  rcases Threads.step_locks hs with ⟨l, counts, rfl, -, hl, heq⟩ | ⟨hne, hlocks⟩
  · have hlof : Locks.stepOf n s.locks l = some s'.locks := (if_pos hlt).trans hl
    cases l with
    | call t =>
      refine ⟨fun he => absurd he Bool.false_ne_true, fun he => ?_⟩
      have hless := h.locks.work_le hlof he
      have hinfo : s'.info = Function.update s.info t (if counts then .ahead else .past) := by rw [heq]; rfl
      have hcounts := Threads.infoWork_of_update (s := s) hlt hinfo
      have htwo : (if counts then InfoPhase.ahead else .past).work ≤ 2 := by cases counts <;> decide
      simp only [Threads.work]
      omega
    | acquire | refill | disable | next | release | exit =>
      have hinfo : s'.info = s.info := by rw [heq]; rfl
      rw [Threads.work, Threads.work, hinfo]
      refine ⟨fun he => Nat.add_lt_add_right (h.locks.work_lt hlof he) _, fun he => ?_⟩
      have hless := h.locks.work_le hlof he
      omega
  · have hlocksWork : s'.locks.work n = s.locks.work n := by rw [hlocks]
    rcases Threads.step_info hne hs with ⟨he, p, hinfo, hless⟩ | ⟨he, hinfo⟩
    · refine ⟨fun _ => ?_, fun he' => absurd (he.symm.trans he') (by decide)⟩
      have hcounts := Threads.infoWork_of_update hlt hinfo
      simp only [Threads.work]
      omega
    · refine ⟨fun he' => absurd (he.symm.trans he') (by decide), fun _ => ?_⟩
      rw [Threads.work, Threads.work, hinfo]
      omega

/-! ### Going on apart -/

/-- A thread that has not returned goes on, if not itself then one that is to set the flag. -/
theorem ThreadsOf.someone_goesOn (h : ThreadsOf n s) (hi : LocksInv s.locks) (hflag : FlagComes s)
    (hb : (s.locks.phase t).busy = true) : ∃ e s', e.goesOn = true ∧ CallsApart s e ∧ s.step e = some s' := by
  obtain ⟨l, locks, hgo, hok, hl⟩ := hi.someone_goesOn_apart h.locks.locks hb
  by_cases hcounting : s.Counting l.thread
  · by_cases hspin : s.Spins l.thread
    · rcases hflag with hset | ⟨u, hu⟩ | ⟨-, hnone⟩
      · exact absurd (hspin.2.symm.trans hset) Bool.false_ne_true
      · exact ⟨.setWritten u, _, rfl, trivial, if_pos hu⟩
      · have hin : (s.info l.thread).inside = true := by rw [hspin.1]; rfl
        exact absurd ((hnone l.thread).symm.trans hin) Bool.false_ne_true
    · obtain ⟨e, s', -, he, hok, hs⟩ := Threads.counting_goesOn hcounting hspin
      exact ⟨e, s', he, hok, hs⟩
  · exact ⟨.lock l false, _, hgo, hok, Threads.step_lock hcounting hl⟩

end

end Host
end VPerfetto
