/-
# The clock snapshots of a trace

`getTraceCpuTimeSync` goes through the snapshots with two clocks, one of them
the CPU's cycle counter, and takes the rate of the counter from two of them:
the first one whose counter is not 0 and the last one (`cpuSamples_spec`). It
checks that the counter has advanced in between but not that both were read
against one clock nor that this clock has advanced: the divisor is the time
elapsed exactly if the trace has it so (`rateDefined_iff`).

Key definitions: `TracePacket.sample`, `samples`, `cpuSamples`, `RateDefined`,
`ClockAdvances`.
Key theorems: `getTraceCpuTimeSync_eq`, `cpuSamples_spec`, `cpuSamples_of`,
`rateDefined_iff`.
-/
import VPerfetto.Merge.Timeline

namespace VPerfetto
namespace Merge

variable {ρ : Type}

/-- A reading of the cycle counter and of another clock. -/
def sampleOf (cpuClock regClock : Clock ρ) : TraceCpuTimeSync :=
  { clockId := regClock.getClockId, clockTime := regClock.getTimestamp, cpuTime := cpuClock.getTimestamp }

/-- The reading in a snapshot of two clocks of which one is clock 64. -/
def TracePacket.sample (packet : TracePacket ρ) : Option TraceCpuTimeSync :=
  match packet.data with
  | .clockSnapshot ⟨[clock0, clock1], _⟩ =>
    if clock0.getClockId = 64 then some (sampleOf clock0 clock1)
    else if clock1.getClockId = 64 then some (sampleOf clock1 clock0)
    else none
  | _ => none

def samples (t : Trace ρ) : List TraceCpuTimeSync := t.filterMap TracePacket.sample

/-- A snapshot of two clocks has the cycle counter. -/
def TracePacket.HasCpuClock (packet : TracePacket ρ) : Prop :=
  ∀ cs, packet.data = .clockSnapshot cs → cs.clocks.length = 2 → packet.sample.isSome = true

/-- The first reading of a running counter. -/
def firstSample (t : Trace ρ) : Option TraceCpuTimeSync := (samples t).find? fun s => s.cpuTime ≠ 0

def lastSample (t : Trace ρ) : Option TraceCpuTimeSync := (samples t).getLast?

/-- `first` and `last` at the end of the loop of `getTraceCpuTimeSync`, if they pass its test. -/
def cpuSamples (P : Protobuf ρ) (trace : Bytes) : Option (TraceCpuTimeSync × TraceCpuTimeSync) := do
  let pbtrace ← P.parseFromString trace
  let (first, last) ← pbtrace.foldlM syncStep ({}, {})
  if first.cpuTime ≠ 0 ∧ last.cpuTime ≠ 0 ∧ last.cpuTime > first.cpuTime then return (first, last)
  none

theorem getTraceCpuTimeSync_eq (P : Protobuf ρ) (trace : Bytes) :
    getTraceCpuTimeSync P trace = (cpuSamples P trace).map fun s =>
      { s.2 with cpuCyclesPerNano :=
          (s.2.cpuTime - s.1.cpuTime).toFloat / (s.2.clockTime - s.1.clockTime).toFloat } := by
  unfold getTraceCpuTimeSync cpuSamples
  cases P.parseFromString trace with
  | none => rfl
  | some pbtrace =>
    simp only [Option.bind_eq_bind, Option.bind_some]
    cases pbtrace.foldlM syncStep ({}, {}) with
    | none => rfl
    | some s =>
      simp only [Option.bind_some]
      split <;> rfl

/-! ### The loop -/

/-- The loop's variables after packets with these readings. -/
structure Scanned (l : List TraceCpuTimeSync) (s : TraceCpuTimeSync × TraceCpuTimeSync) : Prop where
  last : s.2 = l.getLast?.getD {}
  unrated : s.2.cpuCyclesPerNano = 0
  first : s.1.cpuTime ≠ 0 → l.find? (fun x => x.cpuTime ≠ 0) = some s.1
  zero : s.1.cpuTime = 0 → ∀ x ∈ l, x.cpuTime = 0

section

variable {P : Protobuf ρ} {trace : Bytes} {pbtrace : Trace ρ} {l : List TraceCpuTimeSync}
  {s s' : TraceCpuTimeSync × TraceCpuTimeSync} {packet : TracePacket ρ}

theorem scanned_start : Scanned [] ({}, {}) := ⟨rfl, rfl, fun h => absurd rfl h, fun _ => nofun⟩

/-- One turn of the loop: nothing to read, or a reading that becomes `last`. -/
theorem syncStep_cases (hs : s.2.cpuCyclesPerNano = 0) (h : syncStep s packet = some s') :
    (packet.sample = none ∧ s' = s) ∨
      ∃ x, packet.sample = some x ∧ x.cpuCyclesPerNano = 0 ∧ s' = (if s.1.cpuTime = 0 then x else s.1, x) := by
  unfold syncStep at h
  split at h
  · rename_i clock0 clock1 o hdata
    unfold TracePacket.sample
    simp only [hdata]
    by_cases h0 : clock0.getClockId = 64
    · simp only [h0, if_true, ne_eq, not_true_eq_false, if_false, Option.some.injEq, hs] at h ⊢
      exact Or.inr ⟨_, rfl, rfl, h.symm⟩
    · by_cases h1 : clock1.getClockId = 64
      · simp only [h0, h1, if_true, ne_eq, not_true_eq_false, if_false, Option.some.injEq, hs] at h ⊢
        exact Or.inr ⟨_, rfl, rfl, h.symm⟩
      · simp only [h0, h1, if_false, ne_eq, not_false_eq_true, if_true] at h
        exact absurd h.symm (Option.some_ne_none _)
  · rename_i hno
    refine Or.inl ⟨?_, (Option.some.inj h).symm⟩
    unfold TracePacket.sample
    split
    · rename_i clock0 clock1 o hdata
      exact absurd hdata (hno clock0 clock1 o)
    · rfl

theorem Scanned.snoc (h : Scanned l s) {x : TraceCpuTimeSync} (hx : x.cpuCyclesPerNano = 0) :
    Scanned (l ++ [x]) (if s.1.cpuTime = 0 then x else s.1, x) := by
  refine ⟨by simp, hx, fun hne => ?_, fun hz => ?_⟩
  · by_cases h0 : s.1.cpuTime = 0
    · simp only [h0, if_true] at hne ⊢
      have hnone : l.find? (fun y => y.cpuTime ≠ 0) = none := by
        rw [List.find?_eq_none]
        intro y hy
        simp [h.zero h0 y hy]
      rw [List.find?_append, hnone]
      simp [hne]
    · simp only [h0, if_false]
      rw [List.find?_append, h.first h0]
      rfl
  · by_cases h0 : s.1.cpuTime = 0
    · simp only [h0, if_true] at hz
      intro y hy
      rcases List.mem_append.mp hy with hy | hy
      · exact h.zero h0 y hy
      · rw [List.mem_singleton.mp hy]
        exact hz
    · simp only [h0, if_false] at hz

/-- The whole loop. -/
theorem Scanned.foldlM (h : Scanned l s) (hs : pbtrace.foldlM syncStep s = some s') :
    Scanned (l ++ samples pbtrace) s' := by
  induction pbtrace generalizing l s with
  | nil =>
    obtain rfl := Option.some.inj hs
    simpa [samples] using h
  | cons p pbtrace ih =>
    rw [List.foldlM_cons, Option.bind_eq_bind, Option.bind_eq_some_iff] at hs
    obtain ⟨s₁, hs₁, hs⟩ := hs
    rcases syncStep_cases h.unrated hs₁ with ⟨hnone, rfl⟩ | ⟨x, hx, hrate, rfl⟩
    · have hsame : samples (p :: pbtrace) = samples pbtrace := by simp [samples, hnone]
      rw [hsame]
      exact ih h hs
    · have hcons : samples (p :: pbtrace) = x :: samples pbtrace := by simp [samples, hx]
      have hnext := ih (h.snoc hrate) hs
      rwa [List.append_assoc, List.singleton_append, ← hcons] at hnext

/-- **The two readings the rate is taken from.** -/
theorem cpuSamples_spec {first last : TraceCpuTimeSync} (hparse : P.parseFromString trace = some pbtrace)
    (h : cpuSamples P trace = some (first, last)) :
    firstSample pbtrace = some first ∧ lastSample pbtrace = some last ∧ first.cpuTime < last.cpuTime := by
  unfold cpuSamples at h
  simp only [hparse, Option.bind_eq_bind, Option.bind_some, Option.bind_eq_some_iff] at h
  obtain ⟨s, hs, h⟩ := h
  have hscan := scanned_start.foldlM hs
  rw [List.nil_append] at hscan
  split at h
  · rename_i hc
    obtain ⟨hfirst, hlast, hlt⟩ := hc
    simp only [Option.pure_def, Option.some.injEq, Prod.mk.injEq] at h
    obtain ⟨rfl, rfl⟩ := h
    refine ⟨hscan.first hfirst, ?_, hlt⟩
    cases hl : (samples pbtrace).getLast? with
    | none =>
      have hzero := hscan.last
      rw [hl] at hzero
      exact absurd (congrArg TraceCpuTimeSync.cpuTime hzero) hlast
    | some x =>
      have heq := hscan.last
      rw [hl] at heq
      rw [lastSample, hl, heq]
      rfl
  · exact absurd h.symm (Option.some_ne_none _)

/-- The loop goes through if every snapshot of two clocks has the cycle counter. -/
theorem foldlM_syncStep_isSome (hcpu : ∀ p ∈ pbtrace, p.HasCpuClock)
    (s : TraceCpuTimeSync × TraceCpuTimeSync) : ∃ s', pbtrace.foldlM syncStep s = some s' := by
  induction pbtrace generalizing s with
  | nil => exact ⟨s, rfl⟩
  | cons p pbtrace ih =>
    have hstep : ∃ s₁, syncStep s p = some s₁ := by
      have hp := hcpu p List.mem_cons_self
      unfold syncStep
      split
      · rename_i clock0 clock1 o hdata
        have hsome := hp _ hdata rfl
        simp only [TracePacket.sample, hdata] at hsome
        by_cases h0 : clock0.getClockId = 64
        · simp [h0]
        · by_cases h1 : clock1.getClockId = 64
          · simp [h0, h1]
          · simp [h0, h1] at hsome
      · exact ⟨s, rfl⟩
    obtain ⟨s₁, hs₁⟩ := hstep
    obtain ⟨s', hs'⟩ := ih (fun q hq => hcpu q (List.mem_cons_of_mem p hq)) s₁
    exact ⟨s', by rw [List.foldlM_cons, hs₁]; exact hs'⟩

/-- What makes the test pass. -/
theorem cpuSamples_of (first last : TraceCpuTimeSync) (hparse : P.parseFromString trace = some pbtrace)
    (hcpu : ∀ p ∈ pbtrace, p.HasCpuClock) (hfirst : firstSample pbtrace = some first)
    (hlast : lastSample pbtrace = some last) (hlt : first.cpuTime < last.cpuTime) :
    cpuSamples P trace = some (first, last) := by
  obtain ⟨s, hs⟩ := foldlM_syncStep_isSome hcpu ({}, {})
  have hscan := scanned_start.foldlM hs
  rw [List.nil_append] at hscan
  have hne : first.cpuTime ≠ 0 := by simpa using List.find?_some hfirst
  have h1 : s.1 = first := by
    have hne1 : s.1.cpuTime ≠ 0 := fun hz => hne (hscan.zero hz first (List.mem_of_find?_eq_some hfirst))
    exact Option.some.inj ((hscan.first hne1).symm.trans hfirst)
  have h2 : s.2 = last := by
    rw [hscan.last, show (samples pbtrace).getLast? = some last from hlast]
    rfl
  have hpos : last.cpuTime ≠ 0 := by
    intro hz
    rw [hz] at hlt
    exact absurd hlt UInt64.not_lt_zero
  unfold cpuSamples
  simp only [hparse, Option.bind_eq_bind, Option.bind_some, hs, h1, h2]
  rw [if_pos ⟨hne, hpos, hlt⟩, ← h1, ← h2]
  rfl

end

/-! ### The rate -/

/-- Both samples were read against one clock, and the divisor is the time that
it advanced: not 0 and not wrapped around. -/
structure RateDefined (first last : TraceCpuTimeSync) : Prop where
  sameClock : first.clockId = last.clockId
  later : first.clockTime < last.clockTime
  elapsed : (last.clockTime - first.clockTime).toNat = last.clockTime.toNat - first.clockTime.toNat
  nonzero : last.clockTime - first.clockTime ≠ 0

/-- From the first reading of a running counter to the last reading, the trace
stays with one clock and this has advanced. -/
def ClockAdvances (t : Trace ρ) : Prop :=
  ∃ first last, firstSample t = some first ∧ lastSample t = some last ∧
    first.clockId = last.clockId ∧ first.clockTime < last.clockTime

/-- **When the rate is well defined.** -/
theorem rateDefined_iff (P : Protobuf ρ) {trace : Bytes} {pbtrace : Trace ρ}
    (hparse : P.parseFromString trace = some pbtrace) (hsync : (getTraceCpuTimeSync P trace).isSome = true) :
    (∃ first last, cpuSamples P trace = some (first, last) ∧ RateDefined first last) ↔ ClockAdvances pbtrace := by
  constructor
  · intro h
    obtain ⟨first, last, hs, hrate⟩ := h
    obtain ⟨hfirst, hlast, -⟩ := cpuSamples_spec hparse hs
    exact ⟨first, last, hfirst, hlast, hrate.sameClock, hrate.later⟩
  · intro h
    obtain ⟨first, last, hfirst, hlast, hid, hlt⟩ := h
    rw [getTraceCpuTimeSync_eq, Option.isSome_map, Option.isSome_iff_exists] at hsync
    obtain ⟨⟨first', last'⟩, hs⟩ := hsync
    obtain ⟨hfirst', hlast', -⟩ := cpuSamples_spec hparse hs
    obtain rfl : first = first' := Option.some.inj (hfirst.symm.trans hfirst')
    obtain rfl : last = last' := Option.some.inj (hlast.symm.trans hlast')
    have helapsed : (last.clockTime - first.clockTime).toNat = last.clockTime.toNat - first.clockTime.toNat :=
      UInt64.toNat_sub_of_le _ _ (UInt64.le_of_lt hlt)
    refine ⟨first, last, hs, hid, hlt, helapsed, fun hz => ?_⟩
    rw [hz] at helapsed
    rw [UInt64.lt_iff_toNat_lt] at hlt
    simp only [UInt64.toNat_zero] at helapsed
    omega

/-- A packet with a snapshot of the cycle counter and of the clock `clockId`. -/
def snapshotPacket (cpuTime : UInt64) (clockId : UInt32) (clockTime : UInt64) : TracePacket Unit :=
  ⟨none, none, none, none, .clockSnapshot ⟨[⟨some 64, some cpuTime, ()⟩, ⟨some clockId, some clockTime, ()⟩], ()⟩, ()⟩

theorem snapshotPacket_cpuClock (cpuTime : UInt64) (clockId : UInt32) (clockTime : UInt64) :
    (snapshotPacket cpuTime clockId clockTime).HasCpuClock :=
  fun _ _ _ => rfl

/-- Two snapshots of a clock that advances. -/
theorem rateDefined_two :
    ∃ first last, cpuSamples wire (wire.serializeToString [snapshotPacket 1 6 5, snapshotPacket 2 6 9]) =
      some (first, last) ∧ RateDefined first last := by
  have hparse := wire_lawful.parse_serialize [snapshotPacket 1 6 5, snapshotPacket 2 6 9]
  have hs := cpuSamples_of ⟨1, 0, 5, 6⟩ ⟨2, 0, 9, 6⟩ hparse
    (by simp [snapshotPacket_cpuClock]) rfl rfl (by decide)
  have hsync : (getTraceCpuTimeSync wire
      (wire.serializeToString [snapshotPacket 1 6 5, snapshotPacket 2 6 9])).isSome = true := by
    rw [getTraceCpuTimeSync_eq, hs]
    rfl
  exact (rateDefined_iff wire hparse hsync).mpr ⟨⟨1, 0, 5, 6⟩, ⟨2, 0, 9, 6⟩, rfl, rfl, rfl, by decide⟩

/-- The clock stands still between two snapshots: the rate is divided by zero. -/
theorem rate_by_zero : ∃ trace pbtrace, wire.parseFromString trace = some pbtrace ∧
    (getTraceCpuTimeSync wire trace).isSome = true ∧
      ¬ ∃ first last, cpuSamples wire trace = some (first, last) ∧ RateDefined first last := by
  have hparse := wire_lawful.parse_serialize [snapshotPacket 1 6 5, snapshotPacket 2 6 5]
  have hs := cpuSamples_of ⟨1, 0, 5, 6⟩ ⟨2, 0, 5, 6⟩ hparse
    (by simp [snapshotPacket_cpuClock]) rfl rfl (by decide)
  refine ⟨_, _, hparse, ?_, ?_⟩
  · rw [getTraceCpuTimeSync_eq, hs]
    rfl
  · intro h
    obtain ⟨first, last, hs', hrate⟩ := h
    obtain ⟨rfl, rfl⟩ := Prod.mk.inj (Option.some.inj (hs.symm.trans hs'))
    exact absurd hrate.later (by decide)

end Merge
end VPerfetto
