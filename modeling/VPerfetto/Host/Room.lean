/-
# Room for a packet

`beginPacket` looks once whether the buffer has 208 bytes left and takes
another buffer if it has not. That this is enough rests on the size of a new
buffer, `perThreadStorageMb * 1048576` in 32 bits: it is a whole number of MiB
and 0 exactly for the multiples of 4096 (`bufferSize_eq`). With a buffer of
size 0 the writer asks for another one for ever, and none has room.

A context is run here by itself, with all that happens to its buffer
(`ContextReach`); each thread of the program is such a context
(`host_contextReach`).

Key definitions: `HasRoom`, `BeginsPacket`, `PacketRoom`, `ContextEvent`,
`contextStep`, `ContextReach`.
Key theorems: `beginsPacket_iff`, `packetRoom_iff`, `host_contextReach`.
-/
import VPerfetto.Host.HostFile
import VPerfetto.Host.Split

namespace VPerfetto
namespace Host

open Wire Protozero Runs

/-! ### The size of a buffer -/

/-- The product loses the multiples of 4096 MiB. -/
theorem bufferSize_eq (c : VirtualDeviceTraceConfig) :
    c.bufferSize = c.perThreadStorageMb.toNat % 4096 * 1048576 := by
  have hmib : (1048576 : UInt32).toNat = 1048576 := rfl
  calc c.bufferSize = c.perThreadStorageMb.toNat * 1048576 % 2 ^ 32 := by
        unfold VirtualDeviceTraceConfig.bufferSize
        rw [UInt32.toNat_mul, hmib]
    _ = c.perThreadStorageMb.toNat * 1048576 % (4096 * 1048576) := rfl
    _ = c.perThreadStorageMb.toNat % 4096 * 1048576 :=
        Nat.mul_mod_mul_right 1048576 c.perThreadStorageMb.toNat 4096

theorem neededSpace_le_bufferSize_iff (c : VirtualDeviceTraceConfig) :
    neededSpace ≤ c.bufferSize ↔ c.perThreadStorageMb.toNat % 4096 ≠ 0 := by
  rw [bufferSize_eq]
  unfold neededSpace
  omega

theorem bufferSize_eq_zero_iff (c : VirtualDeviceTraceConfig) :
    c.bufferSize = 0 ↔ c.perThreadStorageMb.toNat % 4096 = 0 := by
  rw [bufferSize_eq]
  omega

/-! ### Beginning a packet -/

/-- The buffer has the room that `beginPacket` looks for. -/
def HasRoom (w : Writing) : Prop := w.delegate.1.allocated = true ∧ neededSpace ≤ w.bytesAvailable

instance (w : Writing) : Decidable (HasRoom w) := inferInstanceAs (Decidable (_ ∧ _))

/-- `beginPacket` ends, and on its way it has saved one buffer at most. -/
def BeginsPacket (size : ℕ) (w : Writing) : Prop :=
  ∃ n, ∀ fuel, n ≤ fuel → ∃ w', beginPacket size fuel w = some w' ∧ w'.saved.length ≤ w.saved.length + 1

/-- A new buffer has the room for a packet, and a packet can be begun. -/
structure PacketRoom (c : VirtualDeviceTraceConfig) (w : Writing) : Prop where
  room : neededSpace ≤ (allocTraceBuffer c.bufferSize w).bytesAvailable
  begins : BeginsPacket c.bufferSize w

section

variable {size : ℕ} {w : Writing}

theorem allocTraceBuffer_available (size : ℕ) (w : Writing) : (allocTraceBuffer size w).bytesAvailable = size := rfl

theorem makeRoom_of_hasRoom (h : HasRoom w) : makeRoom size w = w := by
  obtain ⟨ha, hroom⟩ := h
  unfold makeRoom
  simp only [ha, if_true]
  rw [if_neg (Nat.not_lt_of_le hroom)]

/-- Otherwise the packet is begun in a new buffer. -/
theorem makeRoom_of_not_hasRoom (h : ¬ HasRoom w) :
    (makeRoom size w).bytes = [] ∧ (makeRoom size w).cap = size := by
  unfold makeRoom
  dsimp only
  by_cases ha : w.delegate.1.allocated = true
  · have hroom : w.bytesAvailable < neededSpace := Nat.lt_of_not_le fun hle => h ⟨ha, hle⟩
    simp only [ha, if_true]
    rw [if_pos hroom]
    exact ⟨rfl, rfl⟩
  · simp only [ha, Bool.false_eq_true, if_false]
    split
    · exact ⟨rfl, rfl⟩
    · exact ⟨rfl, rfl⟩

/-- A buffer is saved at most once to make room. -/
theorem makeRoom_saved (size : ℕ) (w : Writing) : (makeRoom size w).saved.length ≤ w.saved.length + 1 := by
  obtain ⟨u, halloc, hsaved, hmake⟩ := makeRoom_cases size w
  rw [hmake, ← hsaved]
  split
  · rw [finishAndRefresh_allocated halloc]
    unfold Writing.saved
    simp
  · exact Nat.le_succ _

/-- With the room made, the packet is begun without another buffer. -/
theorem beginPacket_of_room (fuel : ℕ) (h : neededSpace ≤ (makeRoom size w).bytesAvailable) :
    ∃ w', beginPacket size fuel w = some w' ∧ w'.saved.length ≤ w.saved.length + 1 := by
  have hroom : (makeRoom size w).bytes.length + (encodeVarint (tagLen 1)).length + 4 ≤ (makeRoom size w).cap := by
    have htag : (encodeVarint (tagLen 1)).length = 1 := by decide
    unfold StreamWriter.bytesAvailable neededSpace at h
    omega
  exact ⟨_, beginPacket_fits fuel rfl hroom, makeRoom_saved size w⟩

/-! ### A buffer of size 0 -/

/-- Where the room cannot be made, a delegate without room does not help. -/
theorem beginPacketWith_stuck {extend : Writing → Option Writing}
    (hext : ∀ v u, extend v = some u → u.cap ≤ u.bytes.length) (fuel : ℕ) (hw : ¬ HasRoom w) :
    beginPacketWith 0 extend fuel w = none := by
  have hempty : (makeRoom 0 w).bytes = [] ∧ (makeRoom 0 w).cap = 0 := makeRoom_of_not_hasRoom hw
  obtain ⟨-, hcap⟩ := hempty
  have hend : (makeRoom 0 w).resetRoot.cap ≤ (makeRoom 0 w).resetRoot.bytes.length := by
    show (makeRoom 0 w).cap ≤ _
    rw [hcap]
    exact Nat.zero_le _
  have hwrite : writeBytes extend fuel (encodeVarint (tagLen 1)) (makeRoom 0 w).resetRoot = none :=
    writeBytes_stuck extend hext fuel (by decide) hend
  unfold beginPacketWith
  simp only [hwrite, Option.bind_eq_bind, Option.bind_none]

/-- `GetNewBuffer` never gives room: it returns an empty range, or, while a
packet is written, not at all. -/
theorem getNewBuffer_zero : ∀ (fuel : ℕ) (w u : Writing), getNewBuffer 0 fuel w = some u → u.cap ≤ u.bytes.length
  | 0, _, _, h => by cases h
  | fuel + 1, w, u, h => by
    -- whichever state the packet is left in, the new buffer is empty
    have hafter : ∀ v, (if (finishAndRefresh 0 v).delegate.1.writingPacket then
        beginPacketWith 0 (getNewBuffer 0 fuel) fuel (finishAndRefresh 0 v) else some (finishAndRefresh 0 v)) = some u →
        u.cap ≤ u.bytes.length := by
      intro v hv
      have hnoroom : ¬ HasRoom (finishAndRefresh 0 v) := by
        intro hroom
        have hle : neededSpace ≤ 0 := hroom.2
        exact absurd hle (by decide)
      split at hv
      · rw [beginPacketWith_stuck (getNewBuffer_zero fuel) fuel hnoroom] at hv
        cases hv
      · obtain rfl := Option.some.inj hv
        exact Nat.zero_le _
    unfold getNewBuffer at h
    split at h
    · obtain ⟨v, -, hv⟩ := Option.bind_eq_some_iff.mp h
      exact hafter v hv
    · exact hafter w h

/-- **No packet is ever begun** in a buffer of size 0. -/
theorem beginPacket_zero (fuel : ℕ) (hw : ¬ HasRoom w) : beginPacket 0 fuel w = none :=
  beginPacketWith_stuck (getNewBuffer_zero fuel) fuel hw

/-- `beginPacket` ends exactly if a new buffer has a size or the old one has room. -/
theorem beginsPacket_iff (c : VirtualDeviceTraceConfig) (w : Writing) :
    BeginsPacket c.bufferSize w ↔ c.perThreadStorageMb.toNat % 4096 ≠ 0 ∨ HasRoom w := by
  by_cases hmb : c.perThreadStorageMb.toNat % 4096 = 0
  · rw [(bufferSize_eq_zero_iff c).mpr hmb]
    by_cases hroom : HasRoom w
    · have hmake : neededSpace ≤ (makeRoom 0 w).bytesAvailable := by
        rw [makeRoom_of_hasRoom hroom]
        exact hroom.2
      exact iff_of_true ⟨0, fun fuel _ => beginPacket_of_room fuel hmake⟩ (Or.inr hroom)
    · refine iff_of_false (fun hbegins => ?_) (fun h => h.elim (fun hne => hne hmb) hroom)
      obtain ⟨n, hbegins⟩ := hbegins
      obtain ⟨w', hw', -⟩ := hbegins n (Nat.le_refl n)
      rw [beginPacket_zero n hroom] at hw'
      cases hw'
  · have hsize := (neededSpace_le_bufferSize_iff c).mpr hmb
    have havail := makeRoom_available hsize (w := w)
    have hmake : neededSpace ≤ (makeRoom c.bufferSize w).bytesAvailable := by
      unfold StreamWriter.bytesAvailable
      omega
    exact iff_of_true ⟨0, fun fuel _ => beginPacket_of_room fuel hmake⟩ (Or.inl hmb)

end

/-! ### The context by itself -/

/-- A context with the configuration that it reads. -/
structure ContextState where
  config : VirtualDeviceTraceConfig := {}
  writing : Writing := emptyBuffer.start []

/-- All that happens to the buffer of a context. `setTraceConfig` stands for
every change of the configuration, `others` for what other contexts and the
end of a session do to `mSavedTraces`; `finalizePacket` and
`finishAndRefresh` are what `GetNewBuffer` does before it begins a packet. -/
inductive ContextEvent where
  | setTraceConfig (f : VirtualDeviceTraceConfig → VirtualDeviceTraceConfig)
  | others (saved : List SavedTraceInfo)
  | mark (first : Bool)
  | beginPacket
  | write (h : ℕ) (ops : List Op)
  | endPacket
  | finalizePacket
  | finishAndRefresh
  | save (partialReset : Bool)

/-- `saveLocked` and `saveTraceLocked`; unless the reset is partial, the root
message is reset too. -/
def saveLocked (partialReset : Bool) (w : Writing) : Writing :=
  let (b, saved) := w.buffer.save w.saved
  if partialReset then b.start saved else (b.start saved).resetRoot

def contextStep (fuel : ℕ) (s : ContextState) : ContextEvent → Option ContextState
  | .setTraceConfig f => some { s with config := f s.config }
  | .others saved => some { s with writing := s.writing.buffer.start saved }
  | .mark first => some { s with writing := (s.writing.buffer.mark first).start s.writing.saved }
  | .beginPacket => (beginPacket s.config.bufferSize fuel s.writing).map fun w => { s with writing := w }
  | .write h ops =>
    (runOps (getNewBuffer s.config.bufferSize fuel) fuel h ops s.writing).map fun w => { s with writing := w }
  | .endPacket => (endPacket fuel s.writing).map fun w => { s with writing := w }
  | .finalizePacket => (finalize fuel 0 s.writing).map fun r => { s with writing := r.2 }
  | .finishAndRefresh => some { s with writing := finishAndRefresh s.config.bufferSize s.writing }
  | .save partialReset => some { s with writing := saveLocked partialReset s.writing }

/-- The values that `perThreadStorageMb` is given are among those that `ok` allows. -/
def StorageSet (ok : UInt32 → Prop) (s : ContextState) : ContextEvent → Prop
  | .setTraceConfig f => ok (f s.config).perThreadStorageMb
  | _ => True

/-- The states of a context reached from the static one, where
`perThreadStorageMb` is 1, with fuel for each step. -/
abbrev ContextReach (ok : UInt32 → Prop) : ContextState → Prop :=
  Reach (fun s => s = {}) (fun s e s' => ∃ fuel, contextStep fuel s e = some s') (StorageSet ok)

/-- Only `setTraceConfig` changes the configuration. -/
theorem contextStep_config {fuel : ℕ} {s s' : ContextState} {e : ContextEvent} (hs : contextStep fuel s e = some s') :
    (∃ f, e = .setTraceConfig f ∧ s'.config = f s.config) ∨ s'.config = s.config := by
  cases e with
  | setTraceConfig f =>
    obtain rfl := Option.some.inj hs
    exact Or.inl ⟨f, rfl, rfl⟩
  | others | mark | finishAndRefresh | save =>
    obtain rfl := Option.some.inj hs
    exact Or.inr rfl
  | beginPacket | write | endPacket | finalizePacket =>
    obtain ⟨r, -, rfl⟩ := Option.map_eq_some_iff.mp hs
    exact Or.inr rfl

/-- What is asked of the values that are set holds of the value in force. -/
theorem ContextReach.storageMb {ok : UInt32 → Prop} (hone : ok 1) {s : ContextState} (hr : ContextReach ok s) :
    ok s.config.perThreadStorageMb := by
  refine Reach.inv (P := fun s => ok s.config.perThreadStorageMb) ?_ ?_ hr
  · intro s hs
    rw [hs]
    exact hone
  · intro s e s' hi hok hs
    obtain ⟨fuel, hs⟩ := hs
    rcases contextStep_config hs with ⟨f, rfl, hc⟩ | hc
    · rw [hc]
      exact hok
    · rw [hc]
      exact hi

/-- In a given state a context has room exactly if the size of a buffer is not 0. -/
theorem packetRoom_of_state (c : VirtualDeviceTraceConfig) (w : Writing) :
    PacketRoom c w ↔ c.perThreadStorageMb.toNat % 4096 ≠ 0 := by
  refine ⟨fun h => ?_, fun hmb => ?_⟩
  · have hroom := h.room
    rw [allocTraceBuffer_available] at hroom
    exact (neededSpace_le_bufferSize_iff c).mp hroom
  · refine ⟨?_, (beginsPacket_iff c w).mpr (Or.inl hmb)⟩
    rw [allocTraceBuffer_available]
    exact (neededSpace_le_bufferSize_iff c).mpr hmb

/-- **Room for every packet.** In any state, with any configuration, a new
buffer has room for a packet, and a packet can be begun with one refresh at
most, exactly if `perThreadStorageMb` is not a multiple of 4096. So it is
along every run that gives it no such value. -/
theorem packetRoom_iff (s : ContextState) :
    (PacketRoom s.config s.writing ↔ s.config.perThreadStorageMb.toNat % 4096 ≠ 0) ∧
      (ContextReach (fun mb => mb.toNat % 4096 ≠ 0) s → PacketRoom s.config s.writing) := by
  refine ⟨packetRoom_of_state s.config s.writing, fun hr => ?_⟩
  have hmb := ContextReach.storageMb (by decide) hr
  exact (packetRoom_of_state s.config s.writing).mpr hmb

/-- 4097 MiB come out as one, which is enough. -/
theorem packetRoom_wrapped : PacketRoom { perThreadStorageMb := 4097 } (emptyBuffer.start []) := by
  have hstart : ContextReach (fun mb => mb.toNat % 4096 ≠ 0) {} := .init rfl
  have hset : ContextReach (fun mb => mb.toNat % 4096 ≠ 0) { config := { perThreadStorageMb := 4097 } } :=
    hstart.step (a := .setTraceConfig fun c => { c with perThreadStorageMb := 4097 })
      (by decide : (4097 : UInt32).toNat % 4096 ≠ 0) ⟨0, rfl⟩
  exact (packetRoom_iff _).2 hset

/-- With 4096 MiB a thread's first packet is begun for ever. -/
theorem packetRoom_lost : ∃ s, ContextReach (fun mb => 1 ≤ mb) s ∧ s.config.perThreadStorageMb = 4096 ∧
    (allocTraceBuffer s.config.bufferSize s.writing).bytesAvailable = 0 ∧ ¬ PacketRoom s.config s.writing ∧
      ∀ fuel, beginPacket s.config.bufferSize fuel s.writing = none := by
  have hstart : ContextReach (fun mb => 1 ≤ mb) {} := .init rfl
  have hset : ContextReach (fun mb => 1 ≤ mb) { config := { perThreadStorageMb := 4096 } } :=
    hstart.step (a := .setTraceConfig fun c => { c with perThreadStorageMb := 4096 })
      (by decide : (1 : UInt32) ≤ 4096) ⟨0, rfl⟩
  have hsize : VirtualDeviceTraceConfig.bufferSize { perThreadStorageMb := 4096 } = 0 := by decide
  refine ⟨_, hset, rfl, hsize, fun hroom => ?_, fun fuel => ?_⟩
  · exact absurd ((packetRoom_of_state _ _).mp hroom) (by decide)
  · rw [hsize]
    exact beginPacket_zero fuel (by decide)

/-! ### The threads of the program -/

/-- The events of the program, and any change of the configuration. -/
inductive ConfiguredEvent where
  | event (e : HostEvent)
  | setTraceConfig (f : VirtualDeviceTraceConfig → VirtualDeviceTraceConfig)

def configuredStep (strings : Ptr → Bytes) (fuel : ℕ) (h : HostState) : ConfiguredEvent → Option HostState
  | .event e => h.step strings fuel e
  | .setTraceConfig f => some { h with config := f h.config }

def ConfiguredSet (ok : UInt32 → Prop) (h : HostState) : ConfiguredEvent → Prop
  | .event _ => True
  | .setTraceConfig f => ok (f h.config).perThreadStorageMb

abbrev ConfiguredReach (strings : Ptr → Bytes) (fuel : ℕ) (ok : UInt32 → Prop) : HostState → Prop :=
  Reach (fun h => h = { config := {} }) (fun h e h' => configuredStep strings fuel h e = some h') (ConfiguredSet ok)

/-- The context of a thread. -/
def HostState.context (h : HostState) (t : Tid) : ContextState :=
  { config := h.config, writing := (h.buffers t).start h.savedTraces }

section

variable {ok : UInt32 → Prop} {strings : Ptr → Bytes} {fuel : ℕ} {h h' : HostState} {c c' : VirtualDeviceTraceConfig}

/-- What goes on outside of a context. -/
theorem ContextReach.outside (hone : ok 1) {b : TraceBuffer} {saved : List SavedTraceInfo}
    (hr : ContextReach ok ⟨c, b.start saved⟩) (hc : c'.perThreadStorageMb = c.perThreadStorageMb)
    (saved' : List SavedTraceInfo) : ContextReach ok ⟨c', b.start saved'⟩ := by
  have hmb := ContextReach.storageMb hone hr
  have hothers : ContextReach ok ⟨c, b.start saved'⟩ := hr.step (a := .others saved') trivial ⟨0, rfl⟩
  refine hothers.step (a := .setTraceConfig fun _ => c') ?_ ⟨0, rfl⟩
  show ok c'.perThreadStorageMb
  rw [hc]
  exact hmb

/-- Writing a packet is three steps of the context. -/
theorem ContextReach.writePacket {w w' : Writing} {p : Packet} (hr : ContextReach ok ⟨c, w⟩)
    (hs : writePacket c.bufferSize fuel p w = some w') : ContextReach ok ⟨c, w'⟩ := by
  obtain ⟨u, hbegin, hs⟩ := Option.bind_eq_some_iff.mp hs
  obtain ⟨v, hwrite, hend⟩ := Option.bind_eq_some_iff.mp hs
  have hu : ContextReach ok ⟨c, u⟩ := hr.step (a := .beginPacket) trivial ⟨fuel, by simp [contextStep, hbegin]⟩
  have hv : ContextReach ok ⟨c, v⟩ := hu.step (a := .write 0 p.ops) trivial ⟨fuel, by simp [contextStep, hwrite]⟩
  exact hv.step (a := .endPacket) trivial ⟨fuel, by simp [contextStep, hend]⟩

theorem ContextReach.writePackets : ∀ (ps : List Packet) {w w' : Writing}, ContextReach ok ⟨c, w⟩ →
    writePackets c.bufferSize fuel ps w = some w' → ContextReach ok ⟨c, w'⟩
  | [], w, w', hr, hs => by
    obtain rfl := Option.some.inj hs
    exact hr
  | p :: ps, w, w', hr, hs => by
    obtain ⟨u, hp, hps⟩ := Option.bind_eq_some_iff.mp hs
    exact ContextReach.writePackets ps (hr.writePacket hp) hps

/-- Saving one context is a step of it, and goes on outside of the others. -/
theorem contexts_saveContext (hone : ok 1) (u : Tid) (hr : ∀ t, ContextReach ok (h.context t)) (t : Tid) :
    ContextReach ok ((h.saveContext u).context t) := by
  by_cases htu : t = u
  · subst htu
    have hsave : ContextReach ok ⟨h.config, saveLocked false ((h.buffers t).start h.savedTraces)⟩ :=
      (hr t).step (a := .save false) trivial ⟨0, rfl⟩
    have hbuffer : (h.saveContext t).buffers t = ((h.buffers t).save h.savedTraces).1.resetRoot := by
      simp [HostState.saveContext]
    unfold HostState.context
    rw [hbuffer]
    exact hsave
  · have hbuffer : (h.saveContext u).buffers t = h.buffers t := by
      simp [HostState.saveContext, htu]
    unfold HostState.context
    rw [hbuffer]
    exact (hr t).outside hone rfl _

theorem contexts_saveContexts (hone : ok 1) (order : List Tid) : ∀ {h : HostState},
    (∀ t, ContextReach ok (h.context t)) →
    ∀ t, ContextReach ok ((order.foldl (fun h t => h.saveContext t) h).context t) := by
  induction order with
  | nil => exact fun hr => hr
  | cons u order ih => exact fun hr => ih (contexts_saveContext hone u hr)

/-- The end of a session saves every context. -/
theorem contexts_disableTracing (hone : ok 1) {order : List Tid}
    (hs : h.step strings fuel (.disableTracing order) = some h') (hr : ∀ t, ContextReach ok (h.context t)) (t : Tid) :
    ContextReach ok (h'.context t) := by
  have hmb := step_storageMb hs
  simp only [HostState.step, HostState.disableTracing] at hs
  split at hs
  · obtain ⟨-, hs⟩ := Option.ite_none_right_eq_some.mp hs
    obtain rfl := Option.some.inj hs
    have hsaved := contexts_saveContexts hone order hr t
    have hconfig : (order.foldl (fun h t => h.saveContext t) h).config = h.config := by
      rw [saveContexts_eq]
    exact hsaved.outside hone (hmb.trans (by rw [hconfig])) _
  · obtain rfl := Option.some.inj hs
    exact (hr t).outside hone hmb _

/-- A call marks the buffer of its thread and writes its packets there. -/
theorem contexts_call (hone : ok 1) {u : Tid} {now : UInt64} {call : Call}
    (hs : h.step strings fuel (.call u now call) = some h') (hr : ∀ t, ContextReach ok (h.context t)) (t : Tid) :
    ContextReach ok (h'.context t) := by
  have hmb := step_storageMb hs
  obtain ⟨-, ⟨-, rfl⟩ | ⟨info, b, w, -, -, hw, rfl⟩⟩ := HostState.call_cases hs
  · rw [HostState.beforeCall_eq]
    exact hr t
  · rw [HostState.beforeCall_eq] at hmb ⊢
    by_cases htu : t = u
    · subst htu
      have hmark : ContextReach ok ⟨h.config, ((h.buffers t).mark b.first).start h.savedTraces⟩ :=
        (hr t).step (a := .mark b.first) trivial ⟨0, rfl⟩
      have hwritten := ContextReach.writePackets b.packets hmark hw
      have hout := ContextReach.outside (b := w.buffer) hone hwritten hmb w.saved
      simpa [HostState.context, HostState.afterCall] using hout
    · have hout := (hr t).outside hone hmb w.saved
      simpa [HostState.context, HostState.afterCall, htu] using hout

/-- A thread that exits saves its buffer, and writes nothing after that. -/
theorem contexts_exit (hone : ok 1) {u : Tid} (hs : h.step strings fuel (.exit u) = some h')
    (hr : ∀ t, ContextReach ok (h.context t)) (t : Tid) : ContextReach ok (h'.context t) := by
  have hmb := step_storageMb hs
  simp only [HostState.step, HostState.exit, Option.ite_none_left_eq_some] at hs
  obtain rfl := Option.some.inj hs.2
  by_cases htu : t = u
  · subst htu
    have hsave : ContextReach ok ⟨h.config, saveLocked true ((h.buffers t).start h.savedTraces)⟩ :=
      (hr t).step (a := .save true) trivial ⟨0, rfl⟩
    have hbuffer : Function.update h.buffers t ((h.buffers t).save h.savedTraces).1 t
        = ((h.buffers t).save h.savedTraces).1 := Function.update_self _ _ _
    unfold HostState.context
    dsimp only
    rw [hbuffer]
    exact hsave
  · have hout := (hr t).outside hone hmb ((h.buffers u).save h.savedTraces).2
    simpa [HostState.context, htu] using hout

/-- An event of the program takes every context to a state that it reaches. -/
theorem contexts_step (hone : ok 1) {e : HostEvent} (hs : h.step strings fuel e = some h')
    (hr : ∀ t, ContextReach ok (h.context t)) (t : Tid) : ContextReach ok (h'.context t) := by
  have hmb := step_storageMb hs
  cases e with
  | enableTracing env =>
    obtain rfl := Option.some.inj hs
    have hbuffer : (h.enableTracing env).buffers t = h.buffers t := by
      unfold HostState.enableTracing
      dsimp only
      split
      · rfl
      · rfl
    unfold HostState.context
    rw [hbuffer]
    exact (hr t).outside hone hmb _
  | disableTracing order => exact contexts_disableTracing hone hs hr t
  | setGuestTime g now =>
    obtain rfl := Option.some.inj hs
    exact (hr t).outside hone hmb _
  | call u now c => exact contexts_call hone hs hr t
  | exit u => exact contexts_exit hone hs hr t

/-- **Each thread of the program is such a context.** -/
theorem host_contextReach (hone : ok 1) (hr : ConfiguredReach strings fuel ok h) (t : Tid) :
    ContextReach ok (h.context t) := by
  refine Reach.inv (P := fun h => ∀ t, ContextReach ok (h.context t)) ?_ ?_ hr t
  · intro h hh t
    rw [hh]
    exact .init rfl
  · intro h e h' hi hok hs t
    cases e with
    | event e => exact contexts_step hone hs hi t
    | setTraceConfig f =>
      obtain rfl := Option.some.inj hs
      exact (hi t).step (a := .setTraceConfig f) hok ⟨0, rfl⟩

/-- In the whole program a thread can always begin a packet, as long as
`setTraceConfig` sets no multiple of 4096. -/
theorem host_packetRoom (hr : ConfiguredReach strings fuel (fun mb => mb.toNat % 4096 ≠ 0) h) (t : Tid) :
    PacketRoom h.config ((h.buffers t).start h.savedTraces) := by
  have hmb := ContextReach.storageMb (by decide) (host_contextReach (by decide) hr t)
  exact (packetRoom_of_state _ _).mpr hmb

end

end Host
end VPerfetto
