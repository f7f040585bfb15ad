/-
# The trace storage

`vperfetto.cpp` with its buffers as bytes, call by call: each thread writes
its packets through `writePackets`, full buffers go to `mSavedTraces`, and
`saveTracesToDisk` writes these out in two passes.

Whatever this machine does, the tracing machine of `Machine` does with packets
in the place of bytes: for every state reached there is a store of packets
whose bytes are in the buffers (`reach_machine`). So what holds of the store
holds of the file that is written.

`log`, `openNames` and `calls` are not in the program: they record what has
been emitted, which slices are open and how many calls there were since the
session began.

Key definitions: `HostState`, `HostEvent`, `HostState.step`, `Stores`, `HostState.machine`.
Key theorems: `writePackets_holds`, `reach_machine`, `hostBytes_written`.
-/
import VPerfetto.Host.Buffer
import VPerfetto.Host.Sessions

namespace VPerfetto
namespace Host

open Wire Chunks Protozero Runs

/-- The size of a new buffer, computed in 32 bits. -/
def VirtualDeviceTraceConfig.bufferSize (c : VirtualDeviceTraceConfig) : ℕ :=
  (c.perThreadStorageMb * 1048576).toNat

/-- `disk` has the contents of the files by name. -/
structure HostState where
  config : VirtualDeviceTraceConfig
  infos : Tid → ThreadInfo := fun _ => {}
  buffers : Tid → TraceBuffer := fun _ => emptyBuffer
  contexts : List Tid := []
  savedTraces : List SavedTraceInfo := []
  exited : Tid → Bool := fun _ => false
  disk : String → Option Bytes := fun _ => none
  log : List (Tid × Emitted) := []
  openNames : Tid → List Ptr := fun _ => []
  calls : ℕ := 0

inductive HostEvent where
  | enableTracing (env : Env)
  | disableTracing (order : List Tid)
  | setGuestTime (t now : UInt64)
  | call (t : Tid) (now : UInt64) (call : Call)
  | exit (t : Tid)

/-- `mFirst` is set by the call that starts the sequence. -/
def TraceBuffer.mark (first : Bool) (b : TraceBuffer) : TraceBuffer :=
  { b with delegate := { b.delegate with first := b.delegate.first || first } }

/-- What `saveTracesToDisk` writes: the traces with the mark, then the others. -/
def hostBytes (saved : List SavedTraceInfo) : Bytes :=
  ((saved.filter fun i => i.first) ++ saved.filter fun i => !i.first).flatMap fun i => i.data

namespace HostState

def construct (t : Tid) (h : HostState) : HostState :=
  if t ∈ h.contexts then h else { h with contexts := h.contexts ++ [t] }

def enableTracing (env : Env) (h : HostState) : HostState :=
  let config := h.config.enableTracing env
  if h.config.tracingDisabled && !config.tracingDisabled then
    { h with config := config, log := [], openNames := fun _ => [], calls := 0 }
  else { h with config := config }

theorem enableTracing_config (env : Env) (h : HostState) :
    (h.enableTracing env).config = h.config.enableTracing env := by
  unfold enableTracing
  dsimp only
  split <;> rfl

/-- `save()` of a context, and `saveTraceLocked`. -/
def saveContext (t : Tid) (h : HostState) : HostState :=
  let (buffer, saved) := (h.buffers t).save h.savedTraces
  { h with
    infos := Function.update h.infos t (h.infos t).reset
    buffers := Function.update h.buffers t buffer.resetRoot
    savedTraces := saved }

def saveTracesToDisk (order : List Tid) (h : HostState) : HostState :=
  let h := order.foldl (fun h t => h.saveContext t) h
  { h with
    disk := match h.config.hostFilename with
      | some f => Function.update h.disk f (some (hostBytes h.savedTraces))
      | none => h.disk
    savedTraces := [] }

def disableTracing (order : List Tid) (h : HostState) : Option HostState :=
  if h.config.endsSession then
    if order.isPerm h.contexts then
      some { h.saveTracesToDisk order with
        config := h.config.disableTracing, log := [], openNames := fun _ => [], calls := 0 }
    else none
  else some { h with config := h.config.disableTracing }

/-- After a call whose packets are in `w`. -/
def afterCall (t : Tid) (call : Call) (b : Body) (w : Writing) (h : HostState) : HostState :=
  let es := b.packets.map (emitted (call.name (h.openNames t)))
  { h with
    config := b.config
    infos := Function.update h.infos t b.info
    buffers := Function.update h.buffers t w.buffer
    savedTraces := w.saved
    log := h.log ++ es.map (t, ·)
    openNames := Function.update h.openNames t (call.openAfter (h.openNames t)) }

/-- A call is counted, and constructs its context if tracing is enabled. -/
def beforeCall (t : Tid) (h : HostState) : HostState :=
  { if h.config.tracingDisabled then h else h.construct t with calls := h.calls + 1 }

def call (strings : Ptr → Bytes) (fuel : ℕ) (t : Tid) (now : UInt64) (call : Call) (h : HostState) :
    Option HostState :=
  if h.exited t then none
  else match call.enter h.config (h.infos t) with
    | none => some (h.beforeCall t)
    | some info => do
      let b ← call.body strings now h.config info
      let w ← writePackets h.config.bufferSize fuel b.packets
        (((h.buffers t).mark b.first).start h.savedTraces)
      return (h.beforeCall t).afterCall t call b w

/-- `~TraceContext`. Nothing reads the context afterwards. -/
def exit (t : Tid) (h : HostState) : Option HostState :=
  if h.exited t then none
  else
    let (buffer, saved) := (h.buffers t).save h.savedTraces
    some { h with
      contexts := h.contexts.erase t
      buffers := Function.update h.buffers t buffer
      savedTraces := saved
      exited := Function.update h.exited t true }

def step (strings : Ptr → Bytes) (fuel : ℕ) (h : HostState) : HostEvent → Option HostState
  | .enableTracing env => some (h.enableTracing env)
  | .disableTracing order => h.disableTracing order
  | .setGuestTime t now => some { h with config := h.config.setGuestTime t now }
  | .call t now c => h.call strings fuel t now c
  | .exit t => h.exit t

/-- The tracing machine with packets in a store in the place of bytes. -/
def machine (store : Store Tid Emitted) (ended : ℕ) (h : HostState) : Machine :=
  { config := h.config, infos := h.infos, store := store, contexts := h.contexts
    exited := h.exited, ended := ended, log := h.log, openNames := h.openNames }

end HostState

/-! ### Bytes and packets -/

def traceBytes (es : List Emitted) : Bytes := es.flatMap fun e => e.packet.bytes

/-- The buffer of thread `t` has the bytes of its current chunk. -/
structure BufferHolds (s : Store Tid Emitted) (t : Tid) (b : TraceBuffer) : Prop where
  allocated : b.delegate.allocated = (s.current t).isSome
  first : b.delegate.first = s.first t
  bytes : ∀ es, s.current t = some es → b.bytes = traceBytes es

/-- The saved traces have the bytes of the chunks of the shared list. -/
def SavedHolds (s : Store Tid Emitted) (saved : List SavedTraceInfo) : Prop :=
  saved.map (fun i => (i.data, i.first)) = s.saved.map fun c => (traceBytes c.data, c.first)

/-- All buffers and saved traces have the bytes of the store. -/
structure Stores (s : Store Tid Emitted) (h : HostState) : Prop where
  buffer : ∀ t, BufferHolds s t (h.buffers t)
  saved : SavedHolds s h.savedTraces

section

variable {s s' : Store Tid Emitted} {t u : Tid} {b : TraceBuffer} {saved : List SavedTraceInfo}

@[simp] theorem traceBytes_append (es es' : List Emitted) :
    traceBytes (es ++ es') = traceBytes es ++ traceBytes es' := by
  simp [traceBytes]

@[simp] theorem traceBytes_singleton (e : Emitted) : traceBytes [e] = e.packet.bytes := by
  simp [traceBytes]

theorem BufferHolds.congr (h : BufferHolds s t b) (hc : s'.current t = s.current t)
    (hf : s'.first t = s.first t) : BufferHolds s' t b :=
  ⟨hc ▸ h.allocated, hf ▸ h.first, hc ▸ h.bytes⟩

/-- Saving a buffer, on both sides. -/
theorem BufferHolds.save (h : BufferHolds s t b) (hs : SavedHolds s saved) :
    BufferHolds (save t s) t (b.save saved).1 ∧ SavedHolds (save t s) (b.save saved).2 := by
  refine ⟨⟨by simp [TraceBuffer.save, save_current], by simp [TraceBuffer.save, save_first],
    fun es hes => ?_⟩, ?_⟩
  · rw [save_current, if_pos rfl] at hes
    exact absurd hes.symm (Option.some_ne_none es)
  · unfold SavedHolds at hs ⊢
    unfold TraceBuffer.save Chunks.save
    dsimp only
    rw [h.allocated]
    cases hc : s.current t with
    | none => exact hs
    | some es => simp [hs, h.bytes es hc, h.first]

/-- A context that starts the sequence has the mark, on both sides. -/
theorem BufferHolds.mark (h : BufferHolds s t b) (first : Bool) :
    BufferHolds (if first then Chunks.mark t s else s) t (b.mark first) := by
  cases first with
  | false => exact ⟨h.allocated, by simp [TraceBuffer.mark, h.first], h.bytes⟩
  | true => exact ⟨h.allocated, by simp [TraceBuffer.mark, Chunks.mark], h.bytes⟩

variable {size : ℕ} {w : Writing}

/-- After `makeRoom` there is a buffer, and a chunk that was full has been moved. -/
theorem makeRoom_holds (hsize : neededSpace ≤ size) (h : BufferHolds s t w.buffer) (hs : SavedHolds s w.saved) :
    ∃ full, ∀ s', s' = (if full && (s.current t).isSome then save t s else s) →
      (makeRoom size w).delegate.1.allocated = true ∧ (makeRoom size w).delegate.1.first = s'.first t ∧
      (makeRoom size w).bytes = traceBytes ((s'.current t).getD []) ∧ SavedHolds s' (makeRoom size w).saved := by
  have ha : w.delegate.1.allocated = (s.current t).isSome := h.allocated
  cases hc : s.current t with
  | none =>
    refine ⟨false, fun s' hs' => ?_⟩
    obtain rfl : s' = s := by simpa using hs'
    have hroom : makeRoom size w = allocTraceBuffer size w := by
      have hfree : ¬ (allocTraceBuffer size w).bytesAvailable < neededSpace := Nat.not_lt.mpr hsize
      unfold makeRoom
      simp [ha, hc, hfree]
    rw [hroom, hc]
    exact ⟨rfl, h.first, rfl, hs⟩
  | some es =>
    by_cases hfull : w.bytesAvailable < neededSpace
    · refine ⟨true, fun s' hs' => ?_⟩
      obtain rfl : s' = save t s := by simpa using hs'
      obtain ⟨hb, hsv⟩ := h.save hs
      have hroom : makeRoom size w
          = allocTraceBuffer size ((w.buffer.save w.saved).1.start (w.buffer.save w.saved).2) := by
        unfold makeRoom finishAndRefresh
        simp [ha, hc, hfull]
      rw [hroom]
      refine ⟨rfl, hb.first, ?_, hsv⟩
      rw [save_current, if_pos rfl]
      rfl
    · refine ⟨false, fun s' hs' => ?_⟩
      obtain rfl : s' = s := by simpa using hs'
      have hroom : makeRoom size w = w := by
        unfold makeRoom
        simp [ha, hc, hfull]
      rw [hroom, hc]
      exact ⟨by rw [ha, hc]; rfl, h.first, h.bytes es hc, hs⟩

/-- **A packet goes to the end of its thread's chunk**, a new one if the
buffer has less room than `beginPacket` asks for. -/
theorem writePacket_holds {fuel : ℕ} (hfuel : 2 < fuel) (hsize : neededSpace ≤ size) {e : Emitted}
    (hp : e.packet.bytes.length ≤ neededSpace) (h : BufferHolds s t w.buffer) (hs : SavedHolds s w.saved) :
    ∃ w' full, writePacket size fuel e.packet w = some w' ∧
      BufferHolds (put t full e s) t w'.buffer ∧ SavedHolds (put t full e s) w'.saved := by
  obtain ⟨full, hroom⟩ := makeRoom_holds hsize h hs
  obtain ⟨w', hw, hbytes, -, hdel⟩ := writePacket_fits hfuel hsize hp w
  obtain ⟨halloc, hfirst, hold, hsaved⟩ := hroom _ rfl
  generalize hs' : (if full && (s.current t).isSome then save t s else s) = s' at *
  have hput : put t full e s = push t e s' := by
    unfold put
    rw [hs']
  refine ⟨w', full, hw, ?_, ?_⟩
  · rw [hput]
    refine ⟨?_, ?_, fun es hes => ?_⟩
    · show w'.delegate.1.allocated = _
      rw [hdel]
      simpa [push, setWritingPacket] using halloc
    · show w'.delegate.1.first = _
      rw [hdel]
      exact hfirst
    · obtain rfl : (s'.current t).getD [] ++ [e] = es := by simpa [push] using hes
      show w'.bytes = _
      rw [hbytes, hold, traceBytes_append, traceBytes_singleton]
  · rw [hput]
    show SavedHolds s' w'.delegate.2
    rw [hdel]
    exact hsaved

/-- The packets of a call, one after another. -/
theorem writePackets_holds {fuel : ℕ} (hfuel : 2 < fuel) (hsize : neededSpace ≤ size) :
    ∀ (es : List Emitted) {s : Store Tid Emitted} {w : Writing},
    (∀ e ∈ es, e.packet.bytes.length ≤ neededSpace) → BufferHolds s t w.buffer → SavedHolds s w.saved →
    ∃ w' full, writePackets size fuel (es.map (·.packet)) w = some w' ∧
      BufferHolds (putAll t full es s) t w'.buffer ∧ SavedHolds (putAll t full es s) w'.saved
  | [], s, w, _, h, hs => ⟨w, fun _ => false, rfl, h, hs⟩
  | e :: es, s, w, hp, h, hs => by
    obtain ⟨w₁, full, hw₁, h₁, hs₁⟩ := writePacket_holds hfuel hsize (hp e List.mem_cons_self) h hs
    obtain ⟨w₂, rest, hw₂, h₂, hs₂⟩ := writePackets_holds hfuel hsize es
      (fun e' he => hp e' (List.mem_cons_of_mem e he)) h₁ hs₁
    refine ⟨w₂, fun n => if n = 0 then full else rest (n - 1), ?_, h₂, hs₂⟩
    simp only [List.map_cons, writePackets, hw₁, Option.bind_eq_bind, Option.bind_some, hw₂]

/-- **What is written** is the store's packets in the store's order. -/
theorem hostBytes_written (h : SavedHolds s saved) : hostBytes saved = traceBytes ((written s).map (·.2)) := by
  have hpass (p : Bool → Bool) : (saved.filter fun i => p i.first).flatMap (fun i => i.data) =
      traceBytes ((records (s.saved.filter fun c => p c.first)).map (·.2)) := by
    have hmap := congrArg (fun l => (l.filter fun x => p x.2).flatMap (·.1)) h
    simp only [List.filter_map, List.flatMap_map] at hmap
    unfold records traceBytes
    rw [List.map_flatMap, List.flatMap_assoc]
    simpa [Function.comp_def, List.flatMap_map, traceBytes] using hmap
  unfold hostBytes written writeOrder
  rw [List.flatMap_append, records_append, List.map_append, traceBytes_append]
  exact congrArg₂ _ (hpass id) (hpass not)

/-! ### Saving the contexts -/

variable {h h' : HostState}

theorem Stores.saveContext (hst : Stores s h) (t : Tid) : Stores (save t s) (h.saveContext t) := by
  obtain ⟨hb, hsv⟩ := (hst.buffer t).save hst.saved
  refine ⟨fun u => ?_, hsv⟩
  unfold HostState.saveContext
  by_cases hut : u = t
  · subst hut
    simp only [Function.update_self]
    exact ⟨hb.allocated, hb.first, hb.bytes⟩
  · simp only [Function.update_of_ne hut]
    exact (hst.buffer u).congr (by simp [save_current, hut]) (by simp [save_first, hut])

theorem Stores.saveContexts (order : List Tid) {s : Store Tid Emitted} {h : HostState} (hst : Stores s h) :
    Stores (saveAll order s) (order.foldl (fun h t => h.saveContext t) h) := by
  induction order generalizing s h with
  | nil => exact hst
  | cons t order ih => exact ih (hst.saveContext t)

/-- Saving resets the contexts and moves the buffers; the rest stays. -/
theorem saveContexts_eq (order : List Tid) (h : HostState) :
    order.foldl (fun h t => h.saveContext t) h =
      { h with
        infos := fun t => if t ∈ order then (h.infos t).reset else h.infos t
        buffers := (order.foldl (fun h t => h.saveContext t) h).buffers
        savedTraces := (order.foldl (fun h t => h.saveContext t) h).savedTraces } := by
  induction order generalizing h with
  | nil => simp
  | cons t order ih =>
    rw [List.foldl_cons, ih]
    have hinfos : (fun u => if u ∈ order then ((h.saveContext t).infos u).reset else (h.saveContext t).infos u) =
        fun u => if u ∈ t :: order then (h.infos u).reset else h.infos u := by
      funext u
      by_cases hut : u = t
      · subst hut
        simp [HostState.saveContext, ThreadInfo.reset]
      · simp [HostState.saveContext, hut]
    rw [hinfos]
    rfl

/-! ### The tracing machine does the same -/

/-- The names a call passes have at most `n` bytes. -/
def Call.nameLe (strings : Ptr → Bytes) (n : ℕ) : Call → Prop
  | .beginTrace name => (strings name).length ≤ n
  | .endTrace => True
  | .traceCounter name _ => (strings name).length ≤ n

/-- What makes a packet fit in a buffer: storage of 1 to 4095 MB and short names. -/
def Fits (strings : Ptr → Bytes) (h : HostState) : HostEvent → Prop
  | .call _ _ c =>
    1 ≤ h.config.perThreadStorageMb ∧ h.config.perThreadStorageMb ≤ 4095 ∧ c.nameLe strings 150
  | _ => True

/-- The steps that the tracing machine takes for an event are among those that `ok` allows. -/
def Permits (ok : Machine → Event → Prop) (m : Machine) : HostEvent → Prop
  | .enableTracing env => ok m (.enableTracing env)
  | .disableTracing order => ok m (.disableTracing order)
  | .setGuestTime t now => ok m (.setGuestTime t now)
  | .call t now c => ok m (.enter t c) ∧ ∀ info full, c.enter m.config (m.infos t) = some info →
      ok (m.afterEnter t c info) (.body t now full)
  | .exit t => ok m (.exit t)

theorem neededSpace_le_bufferSize {c : VirtualDeviceTraceConfig} (h1 : 1 ≤ c.perThreadStorageMb)
    (h2 : c.perThreadStorageMb ≤ 4095) : neededSpace ≤ c.bufferSize := by
  rw [UInt32.le_iff_toNat_le] at h1 h2
  have hmb : c.bufferSize = c.perThreadStorageMb.toNat * 1048576 := by
    unfold VirtualDeviceTraceConfig.bufferSize
    rw [UInt32.toNat_mul, Nat.mod_eq_of_lt]
    · rfl
    · exact Nat.lt_of_le_of_lt (Nat.mul_le_mul_right _ h2) (by decide)
  rw [hmb]
  unfold neededSpace
  simp only [UInt32.reduceToNat] at h1 h2
  omega

variable {strings : Ptr → Bytes}

/-- What a call with short names writes fits. -/
theorem Call.body_fits {call : Call} {now : UInt64} {c : VirtualDeviceTraceConfig} {i : ThreadInfo}
    {b : Body} (hn : call.nameLe strings 150) (hb : call.body strings now c i = some b) :
    ∀ p ∈ b.packets, p.bytes.length ≤ neededSpace := by
  refine fun p hp => Packet.bytes_length_le ?_
  refine Call.body_packets (Q := Packet.namesLe 150) ⟨fun _ => ?_, fun _ => ?_, ?_, fun _ _ _ => ?_,
    fun _ _ _ _ => ?_, ?_, fun _ _ _ => ?_⟩ ?_ hb p hp
  case refine_3 =>
    rintro name iid rfl
    exact hn
  case refine_6 =>
    rintro name val uuid rfl
    exact hn
  case refine_1 => exact (by decide : kCategory.length ≤ 150)
  all_goals exact trivial

theorem HostState.call_cases {fuel : ℕ} {now : UInt64} {c : Call} (hs : h.call strings fuel t now c = some h') :
    h.exited t = false ∧ ((c.enter h.config (h.infos t) = none ∧ h' = h.beforeCall t) ∨
      ∃ info b w, c.enter h.config (h.infos t) = some info ∧ c.body strings now h.config info = some b ∧
        writePackets h.config.bufferSize fuel b.packets (((h.buffers t).mark b.first).start h.savedTraces) = some w ∧
        h' = (h.beforeCall t).afterCall t c b w) := by
  unfold HostState.call at hs
  split at hs
  · exact absurd hs.symm (Option.some_ne_none _)
  · rename_i hx
    refine ⟨by simpa using hx, ?_⟩
    split at hs
    · rename_i he
      exact Or.inl ⟨he, (Option.some.inj hs).symm⟩
    · rename_i info he
      simp only [Option.bind_eq_bind, Option.bind_eq_some_iff, Option.pure_def, Option.some.injEq] at hs
      obtain ⟨b, hb, w, hw, rfl⟩ := hs
      exact Or.inr ⟨info, b, w, he, hb, hw, rfl⟩

theorem HostState.beforeCall_machine (n : ℕ) (t : Tid) (h : HostState) :
    (h.beforeCall t).machine s n =
      if h.config.tracingDisabled then h.machine s n else (h.machine s n).construct t := by
  unfold beforeCall HostState.construct Machine.construct
  by_cases hd : h.config.tracingDisabled = true
  · simp only [hd, if_true]
    rfl
  · simp only [hd, Bool.false_eq_true, if_false]
    by_cases hm : t ∈ h.contexts
    · simp only [machine, hm, if_true]
    · simp only [machine, hm, if_false]

theorem HostState.beforeCall_eq (t : Tid) (h : HostState) :
    h.beforeCall t = { h with contexts := (h.beforeCall t).contexts, calls := h.calls + 1 } := by
  unfold beforeCall HostState.construct
  split
  · rfl
  · split <;> rfl

/-- Enabled tracing is what the tests of a call ask first. -/
theorem Call.enter_disabled {call : Call} {c : VirtualDeviceTraceConfig} {i info : ThreadInfo}
    (h : call.enter c i = some info) : c.tracingDisabled = false := by
  cases call <;> simp only [Call.enter, Option.ite_none_left_eq_some] at h <;> simpa using h.1

variable {ok : Machine → Event → Prop} {n fuel : ℕ}

/-- The states of the tracing machine reached by steps that `ok` allows. -/
abbrev MachineReach (strings : Ptr → Bytes) (ok : Machine → Event → Prop) : Machine → Prop :=
  Reach Initial (fun m e m' => m.step strings e = some m') ok

theorem enableTracing_machine (env : Env) (h : HostState) :
    (h.machine s n).enableTracing env = (h.enableTracing env).machine s n := by
  unfold Machine.enableTracing HostState.enableTracing
  by_cases hc : (h.config.tracingDisabled && !(h.config.enableTracing env).tracingDisabled) = true
  · simp only [HostState.machine, hc, if_true]
  · simp only [HostState.machine, hc, Bool.false_eq_true, if_false]

/-- The end of a session, on both sides. -/
theorem endSession_machine (hst : Stores s h) (order : List Tid)
    (hh : h' = { h.saveTracesToDisk order with
      config := h.config.disableTracing, log := [], openNames := fun _ => [], calls := 0 }) :
    Stores { saveAll order s with saved := [] } h' ∧
      (h.machine s n).endSession order = h'.machine { saveAll order s with saved := [] } (n + 1) := by
  have hsv := hst.saveContexts order
  subst hh
  refine ⟨⟨fun t => ⟨(hsv.buffer t).allocated, (hsv.buffer t).first, (hsv.buffer t).bytes⟩, rfl⟩, ?_⟩
  unfold HostState.saveTracesToDisk
  dsimp only
  rw [saveContexts_eq]
  rfl

/-- A thread exits, on both sides. -/
theorem exit_machine (hst : Stores s h) (hs : h.exit t = some h') :
    Stores (save t s) h' ∧ (h.machine s n).exit t = some (h'.machine (save t s) n) := by
  simp only [HostState.exit, Option.ite_none_left_eq_some] at hs
  obtain ⟨hx, hs⟩ := hs
  obtain rfl := Option.some.inj hs
  obtain ⟨hb, hsv⟩ := (hst.buffer t).save hst.saved
  refine ⟨⟨fun u => ?_, hsv⟩, ?_⟩
  · by_cases hut : u = t
    · subst hut
      simpa using hb
    · simp only [Function.update_of_ne hut]
      exact (hst.buffer u).congr (by simp [save_current, hut]) (by simp [save_first, hut])
  · unfold Machine.exit
    rw [if_neg]
    · rfl
    · simpa [HostState.machine] using hx

/-- The packets of a body find room, in the buffer and in the store. -/
theorem writePackets_body (hfuel : 2 < fuel) (hsize : neededSpace ≤ h.config.bufferSize) (hst : Stores s h)
    (t : Tid) {now : UInt64} {c : Call} {info : ThreadInfo} {b : Body} (hn : c.nameLe strings 150)
    (hb : c.body strings now h.config info = some b) :
    ∃ w full, writePackets h.config.bufferSize fuel b.packets (((h.buffers t).mark b.first).start h.savedTraces)
        = some w ∧
      BufferHolds (putAll t full (b.packets.map (emitted (c.name (h.openNames t))))
        (if b.first then mark t s else s)) t w.buffer ∧
      SavedHolds (putAll t full (b.packets.map (emitted (c.name (h.openNames t))))
        (if b.first then mark t s else s)) w.saved := by
  have hfit : ∀ e ∈ b.packets.map (emitted (c.name (h.openNames t))), e.packet.bytes.length ≤ neededSpace := by
    intro e hm
    obtain ⟨p, hp, rfl⟩ := List.mem_map.mp hm
    exact Call.body_fits hn hb p hp
  have hmark : BufferHolds (if b.first then mark t s else s) t ((h.buffers t).mark b.first) :=
    (hst.buffer t).mark b.first
  have hmarked : SavedHolds (if b.first then mark t s else s) h.savedTraces := by
    split <;> exact hst.saved
  obtain ⟨w, full, hw, hbuf, hsv⟩ := writePackets_holds (t := t) hfuel hsize _ hfit
    (w := ((h.buffers t).mark b.first).start h.savedTraces) hmark hmarked
  have hpackets : (b.packets.map (emitted (c.name (h.openNames t)))).map (·.packet) = b.packets := by
    rw [List.map_map]
    exact List.map_id _
  rw [hpackets] at hw
  exact ⟨w, full, hw, hbuf, hsv⟩

/-- The body of a call, on both sides. -/
theorem afterCall_machine (hfuel : 2 < fuel) (hsize : neededSpace ≤ h.config.bufferSize) (hst : Stores s h)
    {now : UInt64} {c : Call} {info : ThreadInfo} {b : Body} {w : Writing} (hn : c.nameLe strings 150)
    (he : c.enter h.config (h.infos t) = some info) (hb : c.body strings now h.config info = some b)
    (hw : writePackets h.config.bufferSize fuel b.packets (((h.buffers t).mark b.first).start h.savedTraces)
      = some w) :
    ∃ s' full, Stores s' ((h.beforeCall t).afterCall t c b w) ∧
      ((h.machine s n).afterEnter t c info).afterBody t full c b =
        ((h.beforeCall t).afterCall t c b w).machine s' n := by
  have hd : h.config.tracingDisabled = false := Call.enter_disabled he
  obtain ⟨w', full, hw', hbuf, hsv⟩ := writePackets_body hfuel hsize hst t hn hb
  rw [hw] at hw'
  obtain rfl := Option.some.inj hw'
  refine ⟨_, full, ⟨fun u => ?_, hsv⟩, ?_⟩
  · by_cases hut : u = t
    · subst hut
      simpa [HostState.afterCall] using hbuf
    · obtain ⟨hc, hf⟩ := putAll_of_ne hut full (b.packets.map (emitted (c.name (h.openNames t))))
        (if b.first then mark t s else s)
      have hother : ((h.beforeCall t).afterCall t c b w).buffers u = h.buffers u := by
        rw [HostState.beforeCall_eq]
        exact Function.update_of_ne hut _ _
      rw [hother]
      refine (hst.buffer u).congr (hc.trans ?_) (hf.trans ?_)
      · split <;> rfl
      · split
        · exact mark_of_ne s hut
        · rfl
  · have hbefore := h.beforeCall_machine (s := s) n t
    rw [hd, if_neg Bool.false_ne_true] at hbefore
    rw [HostState.beforeCall_eq] at hbefore ⊢
    unfold Machine.afterEnter
    rw [← hbefore]
    simp [Machine.afterBody, HostState.afterCall, HostState.machine]

theorem afterEnter_facts (m : Machine) (t : Tid) (c : Call) (info : ThreadInfo) :
    (m.afterEnter t c info).config = m.config ∧ (m.afterEnter t c info).infos t = info ∧
      (m.afterEnter t c info).pending t = some (c, m.ended) ∧ (m.afterEnter t c info).ended = m.ended := by
  obtain ⟨cs, hcs⟩ := construct_eq (m := m) t
  unfold Machine.afterEnter
  rw [hcs]
  exact ⟨rfl, Function.update_self _ _ _, Function.update_self _ _ _, rfl⟩

/-- A call is the machine's two steps, the tests and the body. -/
theorem call_machine (hfuel : 2 < fuel) (hst : Stores s h) (hr : MachineReach strings ok (h.machine s n))
    {now : UInt64} {c : Call} (hfit : Fits strings h (.call t now c))
    (hok : Permits ok (h.machine s n) (.call t now c)) (hs : h.call strings fuel t now c = some h') :
    ∃ s', Stores s' h' ∧ MachineReach strings ok (h'.machine s' n) := by
  obtain ⟨hx, hcase⟩ := HostState.call_cases hs
  obtain ⟨hok₁, hok₂⟩ := hok
  obtain ⟨hmb₁, hmb₂, hn⟩ := hfit
  have hidle : ¬ ((h.machine s n).exited t || ((h.machine s n).pending t).isSome) = true := by
    simpa [HostState.machine] using hx
  rcases hcase with ⟨he, rfl⟩ | ⟨info, b, w, he, hb, hw, rfl⟩
  · refine ⟨s, ?_, hr.step hok₁ ?_⟩
    · rw [HostState.beforeCall_eq]
      exact ⟨hst.buffer, hst.saved⟩
    · show Machine.enter t c (h.machine s n) = _
      unfold Machine.enter
      rw [if_neg hidle, HostState.beforeCall_machine]
      have he' : c.enter (h.machine s n).config ((h.machine s n).infos t) = none := he
      rw [he']
      rfl
  · obtain ⟨s', full, hst', hm⟩ := afterCall_machine (n := n) hfuel (neededSpace_le_bufferSize hmb₁ hmb₂) hst
      hn he hb hw
    have henter : (h.machine s n).step strings (.enter t c) = some ((h.machine s n).afterEnter t c info) := by
      show Machine.enter t c (h.machine s n) = _
      unfold Machine.enter
      rw [if_neg hidle]
      have he' : c.enter (h.machine s n).config ((h.machine s n).infos t) = some info := he
      rw [he']
    refine ⟨s', hst', (hr.step hok₁ henter).step (hok₂ info full he) (a := .body t now full) ?_⟩
    obtain ⟨hc, hi, hq, -⟩ := afterEnter_facts (h.machine s n) t c info
    show Machine.body strings t now full _ = _
    unfold Machine.body
    rw [hq, ← hm]
    simp only [Option.bind_eq_bind, Option.bind_some, hc, hi]
    rw [show c.body strings now (h.machine s n).config info = some b from hb]
    rfl

/-- **Every event of the program is one or two steps of the tracing machine.** -/
theorem step_machine (hfuel : 2 < fuel) (hst : Stores s h) (hr : MachineReach strings ok (h.machine s n))
    {e : HostEvent} (hfit : Fits strings h e) (hok : Permits ok (h.machine s n) e)
    (hs : h.step strings fuel e = some h') :
    ∃ s' n', Stores s' h' ∧ MachineReach strings ok (h'.machine s' n') := by
  cases e with
  | enableTracing env =>
    obtain rfl := Option.some.inj hs
    refine ⟨s, n, ?_, hr.step hok (a := .enableTracing env) (congrArg some (enableTracing_machine env h))⟩
    unfold HostState.enableTracing
    dsimp only
    split <;> exact ⟨hst.buffer, hst.saved⟩
  | disableTracing order =>
    simp only [HostState.step, HostState.disableTracing] at hs
    by_cases he : h.config.endsSession = true
    · rw [if_pos he, Option.ite_none_right_eq_some] at hs
      obtain ⟨hp, hs⟩ := hs
      obtain ⟨hst', hm⟩ := endSession_machine (n := n) hst order (Option.some.inj hs).symm
      refine ⟨_, n + 1, hst', hr.step hok (a := .disableTracing order) ?_⟩
      show Machine.disableTracing order (h.machine s n) = _
      unfold Machine.disableTracing
      rw [if_pos (show (h.machine s n).config.endsSession = true from he),
        if_pos (show order.isPerm (h.machine s n).contexts = true from hp), hm]
    · rw [if_neg he] at hs
      obtain rfl := Option.some.inj hs
      refine ⟨s, n, ⟨hst.buffer, hst.saved⟩, hr.step hok (a := .disableTracing order) ?_⟩
      show Machine.disableTracing order (h.machine s n) = _
      unfold Machine.disableTracing
      rw [if_neg (show ¬ (h.machine s n).config.endsSession = true from he)]
      rfl
  | setGuestTime t now =>
    obtain rfl := Option.some.inj hs
    exact ⟨s, n, ⟨hst.buffer, hst.saved⟩, hr.step hok (a := .setGuestTime t now) rfl⟩
  | call t now c =>
    obtain ⟨s', hst', hr'⟩ := call_machine hfuel hst hr hfit hok hs
    exact ⟨s', n, hst', hr'⟩
  | exit t =>
    obtain ⟨hst', hm⟩ := exit_machine (n := n) hst hs
    exact ⟨save t s, n, hst', hr.step hok (a := .exit t) hm⟩

/-- Before the first session, with storage of 1 to 4095 MB a thread. -/
def HostInitial (h : HostState) : Prop :=
  ∃ config : VirtualDeviceTraceConfig, config.tracingDisabled = true ∧
    1 ≤ config.perThreadStorageMb ∧ config.perThreadStorageMb ≤ 4095 ∧ h = { config := config }

/-- The states of the program reached by events that are `allowed`. -/
abbrev HostReach (strings : Ptr → Bytes) (fuel : ℕ) (allowed : HostState → HostEvent → Prop) :
    HostState → Prop :=
  Reach HostInitial (fun h e h' => h.step strings fuel e = some h') allowed

/-- **The program with bytes runs as the machine with packets**: in every
state reached, the buffers have the bytes of a store that the machine reaches. -/
theorem reach_machine (hfuel : 2 < fuel) {allowed : HostState → HostEvent → Prop}
    (hallowed : ∀ h s n e, HostReach strings fuel allowed h → MachineReach strings ok (h.machine s n) →
      allowed h e → Fits strings h e ∧ Permits ok (h.machine s n) e)
    (hr : HostReach strings fuel allowed h) :
    ∃ s n, Stores s h ∧ MachineReach strings ok (h.machine s n) := by
  refine Reach.inv_of (P := fun h => ∃ s n, Stores s h ∧ MachineReach strings ok (h.machine s n)) ?_ ?_ hr
  · intro init hinit
    obtain ⟨config, hd, -, -, rfl⟩ := hinit
    exact ⟨{}, 0, ⟨fun t => ⟨rfl, rfl, nofun⟩, rfl⟩, .init ⟨config, hd, rfl⟩⟩
  · rintro h e h' hreach ⟨s, n, hst, hm⟩ he hs
    obtain ⟨hfit, hok⟩ := hallowed h s n e hreach hm he
    exact step_machine hfuel hst hm hfit hok hs

end

end Host
end VPerfetto
