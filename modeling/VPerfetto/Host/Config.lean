/-
# The trace configuration

`VirtualDeviceTraceConfig` and what `enableTracing`, `disableTracing` and
`setGuestTime` of `vperfetto.cpp` do to it. What `disableTracing` does to the
threads' buffers and to the disk is in `Machine` and `Saving`.

Key definitions: `VirtualDeviceTraceConfig`, `enableTracing`, `endsSession`,
`disableTracing`, `getSignedDifference`, `setGuestTime`, `getTimestamp`.
Key theorem: `getSignedDifference_toUInt64`.
-/
import Mathlib.Algebra.Group.Nat.Defs
import Mathlib.Data.Int.Notation

namespace VPerfetto
namespace Host

/-- `initialized` is left out: nothing reads it. -/
structure VirtualDeviceTraceConfig where
  tracingDisabled : Bool := true
  packetsWritten : UInt32 := 0
  sequenceIdWritten : Bool := false
  currentInterningId : UInt32 := 1
  currentThreadId : UInt32 := 1
  hostFilename : Option String := none
  guestFilename : Option String := none
  combinedFilename : Option String := none
  hostStartTime : UInt64 := 0
  guestStartTime : UInt64 := 0
  guestTimeDiff : Int64 := 0
  perThreadStorageMb : UInt32 := 1
  saving : Bool := false
deriving DecidableEq, Repr

/-- The environment variables `VPERFETTO_HOST_FILE`, `VPERFETTO_GUEST_FILE` and
`VPERFETTO_COMBINED_FILE`. -/
structure Env where
  hostFile : Option String := none
  guestFile : Option String := none
  combinedFile : Option String := none
deriving DecidableEq, Repr

/-- A variable that is set and not empty replaces the configured name. -/
def useFilenameByEnv (byEnv configured : Option String) : Option String :=
  match byEnv with
  | some s => if s = "" then configured else some s
  | none => configured

namespace VirtualDeviceTraceConfig

def useEnv (env : Env) (c : VirtualDeviceTraceConfig) : VirtualDeviceTraceConfig :=
  { c with
    hostFilename := useFilenameByEnv env.hostFile c.hostFilename
    guestFilename := useFilenameByEnv env.guestFile c.guestFilename
    combinedFilename := useFilenameByEnv env.combinedFile c.combinedFilename }

/-- The counters that both ends of a session reset. -/
def resetCounters (c : VirtualDeviceTraceConfig) : VirtualDeviceTraceConfig :=
  { c with packetsWritten := 0, sequenceIdWritten := false, currentInterningId := 1, currentThreadId := 1 }

def enableTracing (env : Env) (c : VirtualDeviceTraceConfig) : VirtualDeviceTraceConfig :=
  let c := c.useEnv env
  if c.hostFilename.isNone then c
  else if !c.tracingDisabled then c
  else if c.saving then c
  else { c.resetCounters with tracingDisabled := false }

/-- `disableTracing` gets past its check and finds tracing enabled. -/
def endsSession (c : VirtualDeviceTraceConfig) : Bool := c.hostFilename.isSome && !c.tracingDisabled

def disableTracing (c : VirtualDeviceTraceConfig) : VirtualDeviceTraceConfig :=
  if c.hostFilename.isNone then c
  else
    -- the comment at this assignment says "Set saving on"
    let saving := if c.tracingDisabled then c.saving else false
    { c.resetCounters with tracingDisabled := true, saving := saving, guestTimeDiff := 0 }

/-- Either a session starts, or only the file names change. -/
theorem enableTracing_cases (env : Env) (c : VirtualDeviceTraceConfig) :
    (c.tracingDisabled = true ∧ c.saving = false ∧ (c.useEnv env).hostFilename.isSome = true ∧
      c.enableTracing env = { (c.useEnv env).resetCounters with tracingDisabled := false }) ∨
      c.enableTracing env = c.useEnv env := by
  unfold enableTracing
  dsimp only
  split
  · exact Or.inr rfl
  · rename_i hh
    split
    · exact Or.inr rfl
    · rename_i hd
      split
      · exact Or.inr rfl
      · rename_i hs
        refine Or.inl ⟨by simpa [useEnv] using hd, by simpa [useEnv] using hs, ?_, rfl⟩
        simpa [Option.isSome_iff_ne_none] using hh

/-- A call that ends no session returns at once or finds tracing disabled. -/
theorem disableTracing_of_not_endsSession {c : VirtualDeviceTraceConfig} (he : c.endsSession = false) :
    (c.hostFilename = none ∧ c.disableTracing = c) ∨
      (c.tracingDisabled = true ∧ c.disableTracing = { c.resetCounters with guestTimeDiff := 0 }) := by
  unfold endsSession at he
  unfold disableTracing
  cases hf : c.hostFilename with
  | none => exact Or.inl ⟨rfl, rfl⟩
  | some f =>
    have hd : c.tracingDisabled = true := by simpa [hf] using he
    exact Or.inr ⟨hd, by simp [hd, resetCounters]⟩

end VirtualDeviceTraceConfig

/-- `vperfetto-util.h`: the difference, clamped to the range of `int64_t`. -/
def getSignedDifference (a b : UInt64) : Int64 :=
  let absDiff := if a > b then a - b else b - a
  let absDiff := if absDiff < 0x7fffffffffffffff then absDiff else 0x7fffffffffffffff
  if a > b then absDiff.toInt64 else -absDiff.toInt64

/-- The times are less than `2^63` apart. -/
def Within63 (a b : UInt64) : Prop := a.toNat < b.toNat + 2 ^ 63 ∧ b.toNat < a.toNat + 2 ^ 63

instance (a b : UInt64) : Decidable (Within63 a b) := inferInstanceAs (Decidable (_ ∧ _))

theorem clamp_of_lt {d : UInt64} (h : d.toNat < 2 ^ 63) :
    (if d < 0x7fffffffffffffff then d else 0x7fffffffffffffff) = d := by
  split
  · rfl
  · rename_i hge
    rw [UInt64.lt_iff_toNat_lt] at hge
    apply UInt64.toNat_inj.mp
    simp only [UInt64.reduceToNat] at hge ⊢
    omega

/-- The difference is not clamped. -/
theorem getSignedDifference_toUInt64 {a b : UInt64} (h : Within63 a b) :
    (getSignedDifference a b).toUInt64 = a - b := by
  obtain ⟨hab, hba⟩ := h
  unfold getSignedDifference
  by_cases hlt : a > b
  · have hsub : (a - b).toNat = a.toNat - b.toNat := UInt64.toNat_sub_of_le a b (UInt64.le_of_lt hlt)
    have hd : (a - b).toNat < 2 ^ 63 := by omega
    simp only [if_pos hlt]
    rw [clamp_of_lt hd, UInt64.toUInt64_toInt64]
  · have hle : a ≤ b := UInt64.not_lt.mp hlt
    have hsub : (b - a).toNat = b.toNat - a.toNat := UInt64.toNat_sub_of_le b a hle
    have hd : (b - a).toNat < 2 ^ 63 := by omega
    simp only [if_neg hlt]
    rw [clamp_of_lt hd, Int64.toUInt64_neg, UInt64.toUInt64_toInt64, UInt64.neg_sub]

namespace VirtualDeviceTraceConfig

/-- `now` is what `bootTimeNs` returns during the call. -/
def setGuestTime (t now : UInt64) (c : VirtualDeviceTraceConfig) : VirtualDeviceTraceConfig :=
  if !c.tracingDisabled then c
  else { c with guestStartTime := t, hostStartTime := now, guestTimeDiff := getSignedDifference t now }

def getTimestamp (now : UInt64) (c : VirtualDeviceTraceConfig) : UInt64 := now + c.guestTimeDiff.toUInt64

end VirtualDeviceTraceConfig

end Host
end VPerfetto
