/-
# The tracing machine

All threads of `vperfetto.cpp` together. A call is two steps, the tests before
the lock and the body under it, and steps of different threads interleave
freely with whole `enableTracing` and `disableTracing` calls and with thread
exits. Buffers hold packets here; a buffer may be full before any packet
(`Storage` says when, and what the bytes are).

`log` and `openNames` are not in the program. They record, since the session
began, which packets were emitted by whom, with the name each packet is about:
for a slice begin the name passed to `beginTrace`, for a slice end the name of
the call it closes, for a counter its name.

Key definitions: `Machine`, `Event`, `Machine.step`, `Machine.hostFile`.
Key theorems: `disableTracing_cases`, `enter_cases`, `body_cases`, `exit_cases`.
-/
import VPerfetto.Lib.Chunks
import VPerfetto.Lib.Runs
import VPerfetto.Host.Context

namespace VPerfetto
namespace Host

open Wire Chunks

abbrev Tid := ℕ

/-- A packet and the pointer of the name it is about. -/
structure Emitted where
  packet : Packet
  name : Option Ptr
deriving DecidableEq, Repr

/-- Events of slices and counters, and the tracks of counters, are about a name. -/
def Packet.isNamed : Packet → Bool
  | .sliceBegin .. | .sliceEnd .. | .counterTrack .. | .counter .. => true
  | _ => false

def emitted (name : Option Ptr) (p : Packet) : Emitted := ⟨p, if p.isNamed then name else none⟩

/-- The name a call is about, given the names of the open slices. -/
def Call.name (openNames : List Ptr) : Call → Option Ptr
  | .beginTrace name => some name
  | .endTrace => openNames.head?
  | .traceCounter name _ => some name

/-- The names of the open slices after the call. -/
def Call.openAfter (openNames : List Ptr) : Call → List Ptr
  | .beginTrace name => name :: openNames
  | .endTrace => openNames.tail
  | .traceCounter .. => openNames

/-- `contexts` is `mContexts`; `pending` are the calls between their two steps,
with the number of sessions that had ended at the first. -/
structure Machine where
  config : VirtualDeviceTraceConfig
  infos : Tid → ThreadInfo := fun _ => {}
  store : Store Tid Emitted := {}
  contexts : List Tid := []
  exited : Tid → Bool := fun _ => false
  pending : Tid → Option (Call × ℕ) := fun _ => none
  ended : ℕ := 0
  log : List (Tid × Emitted) := []
  openNames : Tid → List Ptr := fun _ => []

inductive Event where
  | enableTracing (env : Env)
  | disableTracing (order : List Tid)
  | setGuestTime (t now : UInt64)
  | enter (t : Tid) (call : Call)
  | body (t : Tid) (now : UInt64) (full : ℕ → Bool)
  | exit (t : Tid)

namespace Machine

/-- The thread's context is constructed by its first call that finds tracing enabled. -/
def construct (t : Tid) (m : Machine) : Machine :=
  if t ∈ m.contexts then m else { m with contexts := m.contexts ++ [t] }

def enableTracing (env : Env) (m : Machine) : Machine :=
  let config := m.config.enableTracing env
  if m.config.tracingDisabled && !config.tracingDisabled then
    { m with config := config, log := [], openNames := fun _ => [] }
  else { m with config := config }

/-- What `saveTracesToDisk` writes when it goes through the contexts in this order. -/
def hostFile (order : List Tid) (m : Machine) : List (Tid × Emitted) := written (saveAll order m.store)

/-- The end of a session: every context is saved and reset, the file is
written, the counters are reset. -/
def endSession (order : List Tid) (m : Machine) : Machine :=
  { m with
    config := m.config.disableTracing
    infos := fun t => if t ∈ order then (m.infos t).reset else m.infos t
    store := { saveAll order m.store with saved := [] }
    ended := m.ended + 1
    log := []
    openNames := fun _ => [] }

/-- The order of an unordered set is any order. -/
def disableTracing (order : List Tid) (m : Machine) : Option Machine :=
  if m.config.endsSession then
    if order.isPerm m.contexts then some (m.endSession order) else none
  else some { m with config := m.config.disableTracing }

def afterEnter (t : Tid) (call : Call) (info : ThreadInfo) (m : Machine) : Machine :=
  { m.construct t with
    infos := Function.update m.infos t info
    pending := Function.update m.pending t (some (call, m.ended)) }

def enter (t : Tid) (call : Call) (m : Machine) : Option Machine :=
  if m.exited t || (m.pending t).isSome then none
  else match call.enter m.config (m.infos t) with
    | none => some (if m.config.tracingDisabled then m else m.construct t)
    | some info => some (m.afterEnter t call info)

def afterBody (t : Tid) (full : ℕ → Bool) (call : Call) (b : Body) (m : Machine) : Machine :=
  let es := b.packets.map (emitted (call.name (m.openNames t)))
  { m with
    config := b.config
    infos := Function.update m.infos t b.info
    store := putAll t full es (if b.first then mark t m.store else m.store)
    pending := Function.update m.pending t none
    log := m.log ++ es.map (t, ·)
    openNames := Function.update m.openNames t (call.openAfter (m.openNames t)) }

def body (strings : Ptr → Bytes) (t : Tid) (now : UInt64) (full : ℕ → Bool) (m : Machine) :
    Option Machine := do
  let (call, _) ← m.pending t
  let b ← call.body strings now m.config (m.infos t)
  return m.afterBody t full call b

/-- `~TraceContext`: the context leaves the set and its buffer is saved. -/
def exit (t : Tid) (m : Machine) : Option Machine :=
  if m.exited t || (m.pending t).isSome then none
  else some { m with
    contexts := m.contexts.erase t
    store := save t m.store
    exited := Function.update m.exited t true }

def step (strings : Ptr → Bytes) (m : Machine) : Event → Option Machine
  | .enableTracing env => some (m.enableTracing env)
  | .disableTracing order => m.disableTracing order
  | .setGuestTime t now => some { m with config := m.config.setGuestTime t now }
  | .enter t call => m.enter t call
  | .body t now full => m.body strings t now full
  | .exit t => m.exit t

/-! ### What a step can do -/

variable {strings : Ptr → Bytes} {m m' : Machine}

theorem disableTracing_cases {order : List Tid} (h : m.disableTracing order = some m') :
    (m.config.endsSession = true ∧ order.Perm m.contexts ∧ m' = m.endSession order) ∨
      (m.config.endsSession = false ∧ m' = { m with config := m.config.disableTracing }) := by
  unfold disableTracing at h
  by_cases he : m.config.endsSession = true
  · rw [if_pos he] at h
    split at h
    · rename_i hp
      exact Or.inl ⟨he, List.isPerm_iff.mp hp, (Option.some.inj h).symm⟩
    · exact absurd h.symm (Option.some_ne_none _)
  · rw [if_neg he] at h
    exact Or.inr ⟨by simpa using he, (Option.some.inj h).symm⟩

theorem enter_cases {t : Tid} {call : Call} (h : m.enter t call = some m') :
    m.exited t = false ∧ m.pending t = none ∧
      ((call.enter m.config (m.infos t) = none ∧ m' = (if m.config.tracingDisabled then m else m.construct t)) ∨
        ∃ info, call.enter m.config (m.infos t) = some info ∧ m' = m.afterEnter t call info) := by
  unfold enter at h
  split at h
  · exact absurd h.symm (Option.some_ne_none _)
  · rename_i hg
    simp only [Bool.or_eq_true, Option.isSome_iff_ne_none, not_or, Bool.not_eq_true, ne_eq, not_not] at hg
    refine ⟨hg.1, hg.2, ?_⟩
    split at h
    · rename_i hc
      exact Or.inl ⟨hc, (Option.some.inj h).symm⟩
    · rename_i info hc
      exact Or.inr ⟨info, hc, (Option.some.inj h).symm⟩

theorem body_cases {t : Tid} {now : UInt64} {full : ℕ → Bool} (h : m.body strings t now full = some m') :
    ∃ call n b, m.pending t = some (call, n) ∧ call.body strings now m.config (m.infos t) = some b ∧
      m' = m.afterBody t full call b := by
  unfold body at h
  simp only [Option.bind_eq_bind, Option.bind_eq_some_iff, Option.pure_def, Option.some.injEq] at h
  obtain ⟨⟨call, n⟩, hp, b, hb, rfl⟩ := h
  exact ⟨call, n, b, hp, hb, rfl⟩

theorem exit_cases {t : Tid} (h : m.exit t = some m') :
    m.exited t = false ∧ m.pending t = none ∧ m' = { m with
      contexts := m.contexts.erase t
      store := save t m.store
      exited := Function.update m.exited t true } := by
  unfold exit at h
  split at h
  · exact absurd h.symm (Option.some_ne_none _)
  · rename_i hg
    simp only [Bool.or_eq_true, Option.isSome_iff_ne_none, not_or, Bool.not_eq_true, ne_eq, not_not] at hg
    exact ⟨hg.1, hg.2, (Option.some.inj h).symm⟩

end Machine

end Host
end VPerfetto
