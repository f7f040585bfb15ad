/-
# Ids and what they stand for

The ids of a session: interned categories and names, thread tracks and counter
tracks. Every thread has tables of its own and takes ids from counters that
all threads share; `Defined` says that the log of a session defines each id
once and before its use, and `ThreadKnown` that whatever a thread's tables and
open slices hold has been defined by that thread.

Each part of a call keeps both (`writeCategory_known` and so on), as long as
no counter wraps.

Key definitions: `Ref`, `Defined`, `ThreadKnown`, `BodyKnown`, `NoWrap`.
Key theorems: `Call.body_known`.
-/
import VPerfetto.Lib.Refs
import VPerfetto.Host.Machine

namespace VPerfetto
namespace Host

open Wire Chunks Refs

/-- What an event of a track can refer to. A name stands for a string, a
counter's track for the pointer of its name. -/
inductive Ref where
  | category (iid : UInt32)
  | name (iid : UInt32) (string : Option Bytes)
  | thread (threadId : UInt32)
  | counter (uuid : UInt64) (name : Option Ptr)
deriving DecidableEq, Repr

def Emitted.defs (e : Emitted) : List Ref :=
  match e.packet with
  | .category iid _ => [.category iid]
  | .eventName iid string => [.name iid (some string)]
  | .threadTrack threadId => [.thread threadId]
  | .counterTrack uuid _ _ => [.counter uuid e.name]
  | _ => []

def Emitted.refs (strings : Ptr → Bytes) (e : Emitted) : List Ref :=
  match e.packet with
  | .sliceBegin _ threadId categoryIid nameIid =>
    [.thread threadId, .category categoryIid, .name nameIid (e.name.map strings)]
  | .sliceEnd _ threadId categoryIid nameIid =>
    [.thread threadId, .category categoryIid, .name nameIid (e.name.map strings)]
  | .counter _ uuid _ => [.counter uuid e.name]
  | _ => []

/-- The interning ids a packet defines. -/
def Packet.iids : Packet → List UInt32
  | .category iid _ => [iid]
  | .eventName iid _ => [iid]
  | _ => []

/-- The track uuids a packet introduces. -/
def Packet.uuids : Packet → List UInt64
  | .threadTrack threadId => [threadId.toUInt64]
  | .counterTrack uuid _ _ => [uuid]
  | _ => []

/-- What thread `t` has defined. -/
abbrev Knows (L : List (Tid × Emitted)) (t : Tid) (r : Ref) : Prop := Known Emitted.defs L t r

/-- A log defines each id once, before its use, and below the counters. -/
structure Defined (strings : Ptr → Bytes) (L : List (Tid × Emitted)) (c : VirtualDeviceTraceConfig) : Prop where
  grounded : Grounded Emitted.defs (Emitted.refs strings) L
  iids : (L.flatMap fun x => x.2.packet.iids).Nodup
  iids_lt : ∀ x ∈ L, ∀ iid ∈ x.2.packet.iids, iid < c.currentInterningId
  uuids : (L.flatMap fun x => x.2.packet.uuids).Nodup
  threads_le : ∀ x ∈ L, ∀ id, x.2.packet = .threadTrack id → id ≤ c.currentThreadId
  counters : ∀ x ∈ L, ∀ uuid id string, x.2.packet = .counterTrack uuid id string →
    Knows L x.1 (.thread id) ∧ ∃ k, 0 < k ∧ uuid = counterTrackUuid k id

/-- The cells of the open slices, from the innermost, hold what the names of
the slices are interned as. -/
def OpenSlices (strings : Ptr → Bytes) (L : List (Tid × Emitted)) (t : Tid) (i : ThreadInfo) :
    List Ptr → ℕ → Prop
  | [], 0 => True
  | name :: names, depth + 1 =>
    Knows L t (.category (i.currentCategoryIid depth)) ∧
      Knows L t (.name (i.currentEventNameIid depth) (some (strings name))) ∧
      OpenSlices strings L t i names depth
  | _, _ => False

/-- What a thread's context holds, the thread has defined. -/
structure ThreadKnown (strings : Ptr → Bytes) (L : List (Tid × Emitted)) (t : Tid) (i : ThreadInfo)
    (openNames : List Ptr) : Prop where
  categories : ∀ ptr iid, i.eventCategoryInterningIds.lookup ptr = some iid → Knows L t (.category iid)
  names : ∀ ptr iid, i.eventNameInterningIds.lookup ptr = some iid →
    Knows L t (.name iid (some (strings ptr)))
  tracks : ∀ ptr uuid, i.counterNameToTrackUuids.lookup ptr = some uuid → Knows L t (.counter uuid (some ptr))
  thread : i.needToSetThreadId = false → Knows L t (.thread i.threadId)
  own : ∀ x ∈ L, x.1 = t → ∀ uuid id string, x.2.packet = .counterTrack uuid id string →
    i.needToSetThreadId = false ∧ id = i.threadId ∧
      ∃ k, k < i.currentCounterId ∧ uuid = counterTrackUuid k id
  counterId : 0 < i.currentCounterId
  slices : OpenSlices strings L t i openNames i.stackDepth
  setUp : 0 < i.stackDepth → i.needToSetThreadId = false

section

variable {strings : Ptr → Bytes} {L : List (Tid × Emitted)} {c c' : VirtualDeviceTraceConfig} {t u : Tid}
  {i : ThreadInfo} {names : List Ptr} {e : Emitted}

/-! ### Ids as numbers -/

theorem counterTrackUuid_toNat (k id : UInt32) : (counterTrackUuid k id).toNat = k.toNat * 2 ^ 32 + id.toNat := by
  unfold counterTrackUuid
  have hid := id.toNat_lt
  have hk := k.toNat_lt
  rw [UInt64.toNat_or, UInt64.toNat_shiftLeft, UInt32.toNat_toUInt64, UInt32.toNat_toUInt64,
    Nat.mod_eq_of_lt, show (32 : UInt64).toNat % 64 = 32 from rfl, ← Nat.shiftLeft_add_eq_or_of_lt hid,
    Nat.shiftLeft_eq]
  rw [show (32 : UInt64).toNat % 64 = 32 from rfl, Nat.shiftLeft_eq]
  omega

/-- Counters of different threads, and different counters of a thread, have different uuids. -/
theorem counterTrackUuid_inj {k k' id id' : UInt32} (h : counterTrackUuid k id = counterTrackUuid k' id') :
    k = k' ∧ id = id' := by
  have hn := congrArg UInt64.toNat h
  rw [counterTrackUuid_toNat, counterTrackUuid_toNat] at hn
  have hid := id.toNat_lt
  have hid' := id'.toNat_lt
  rw [← UInt32.toNat_inj, ← UInt32.toNat_inj]
  omega

/-- The uuid of a counter's track is not that of a thread's track. -/
theorem counterTrackUuid_ne {k id id' : UInt32} (hk : 0 < k) : counterTrackUuid k id ≠ id'.toUInt64 := by
  intro h
  have hn := congrArg UInt64.toNat h
  rw [counterTrackUuid_toNat, UInt32.toNat_toUInt64] at hn
  rw [UInt32.lt_iff_toNat_lt] at hk
  have hid' := id'.toNat_lt
  simp only [UInt32.toNat_zero] at hk
  omega

/-! ### One more packet -/

theorem OpenSlices.mono {L' : List (Tid × Emitted)} (hL : ∀ r, Knows L t r → Knows L' t r) :
    ∀ {names : List Ptr} {depth : ℕ}, OpenSlices strings L t i names depth → OpenSlices strings L' t i names depth
  | [], 0, _ => trivial
  | _ :: _, _ + 1, h => ⟨hL _ h.1, hL _ h.2.1, h.2.2.mono hL⟩
  | [], _ + 1, h => h.elim
  | _ :: _, 0, h => h.elim

/-- Cells that no open slice uses do not matter. -/
theorem OpenSlices.congr {i' : ThreadInfo} : ∀ {names : List Ptr} {depth : ℕ},
    OpenSlices strings L t i names depth →
    (∀ d < depth, i'.currentCategoryIid d = i.currentCategoryIid d ∧
      i'.currentEventNameIid d = i.currentEventNameIid d) → OpenSlices strings L t i' names depth
  | [], 0, _, _ => trivial
  | _ :: _, depth + 1, h, hi => by
    obtain ⟨hc, hn⟩ := hi depth (Nat.lt_succ_self depth)
    refine ⟨hc ▸ h.1, hn ▸ h.2.1, h.2.2.congr fun d hd => hi d (Nat.lt_succ_of_lt hd)⟩
  | [], _ + 1, h, _ => h.elim
  | _ :: _, 0, h, _ => h.elim

theorem iids_nodup (p : Packet) : p.iids.Nodup := by
  cases p <;> simp [Packet.iids]

theorem uuids_nodup (p : Packet) : p.uuids.Nodup := by
  cases p <;> simp [Packet.uuids]

/-- A packet whose references its thread knows and whose ids are new. -/
theorem Defined.snoc (h : Defined strings L c) (hrefs : ∀ r ∈ e.refs strings, Knows L t r)
    (hi : c.currentInterningId ≤ c'.currentInterningId) (ht : c.currentThreadId ≤ c'.currentThreadId)
    (hiid : ∀ iid ∈ e.packet.iids, c.currentInterningId ≤ iid ∧ iid < c'.currentInterningId)
    (huuid : ∀ uuid ∈ e.packet.uuids, ∀ x ∈ L, uuid ∉ x.2.packet.uuids)
    (hthread : ∀ id, e.packet = .threadTrack id → id ≤ c'.currentThreadId)
    (hcounter : ∀ uuid id string, e.packet = .counterTrack uuid id string →
      Knows L t (.thread id) ∧ ∃ k, 0 < k ∧ uuid = counterTrackUuid k id) :
    Defined strings (L ++ [(t, e)]) c' where
  grounded := h.grounded.snoc hrefs
  iids := nodup_keys_snoc h.iids (iids_nodup _) fun iid hm x hx hm' =>
    absurd (h.iids_lt x hx iid hm') (UInt32.not_lt.mpr (hiid iid hm).1)
  iids_lt x hx iid hm := by
    rcases List.mem_append.mp hx with hx | hx
    · exact UInt32.lt_of_lt_of_le (h.iids_lt x hx iid hm) hi
    · rw [List.mem_singleton.mp hx] at hm
      exact (hiid iid hm).2
  uuids := nodup_keys_snoc h.uuids (uuids_nodup _) huuid
  threads_le x hx id hp := by
    rcases List.mem_append.mp hx with hx | hx
    · exact UInt32.le_trans (h.threads_le x hx id hp) ht
    · rw [List.mem_singleton.mp hx] at hp
      exact hthread id hp
  counters x hx uuid id string hp := by
    rcases List.mem_append.mp hx with hx | hx
    · obtain ⟨hk, hex⟩ := h.counters x hx uuid id string hp
      exact ⟨hk.append _, hex⟩
    · obtain rfl := List.mem_singleton.mp hx
      obtain ⟨hk, hex⟩ := hcounter uuid id string hp
      exact ⟨hk.append _, hex⟩

/-- A packet that defines nothing. -/
theorem Defined.use (h : Defined strings L c) (hrefs : ∀ r ∈ e.refs strings, Knows L t r)
    (hi : e.packet.iids = []) (hu : e.packet.uuids = []) : Defined strings (L ++ [(t, e)]) c := by
  refine h.snoc hrefs (UInt32.le_refl _) (UInt32.le_refl _) ?_ ?_ (fun id hp => ?_) fun uuid id string hp => ?_
  · simp [hi]
  · simp [hu]
  · rw [hp] at hu
    exact absurd hu (List.cons_ne_nil _ _)
  · rw [hp] at hu
    exact absurd hu (List.cons_ne_nil _ _)

/-- A change of the configuration that leaves the counters of ids. -/
theorem Defined.config (h : Defined strings L c) (hi : c'.currentInterningId = c.currentInterningId)
    (ht : c'.currentThreadId = c.currentThreadId) : Defined strings L c' :=
  ⟨h.grounded, h.iids, by rw [hi]; exact h.iids_lt, h.uuids, by rw [ht]; exact h.threads_le, h.counters⟩

/-- What a thread knows, it knows after more packets. -/
theorem ThreadKnown.append (h : ThreadKnown strings L t i names) {new : List (Tid × Emitted)}
    (hnew : ∀ x ∈ new, x.1 = t → ∀ uuid id string, x.2.packet ≠ .counterTrack uuid id string) :
    ThreadKnown strings (L ++ new) t i names where
  categories ptr iid hl := (h.categories ptr iid hl).append new
  names ptr iid hl := (h.names ptr iid hl).append new
  tracks ptr uuid hl := (h.tracks ptr uuid hl).append new
  thread hn := (h.thread hn).append new
  own x hx hxt uuid id string hp := by
    rcases List.mem_append.mp hx with hx | hx
    · exact h.own x hx hxt uuid id string hp
    · exact absurd hp (hnew x hx hxt uuid id string)
  counterId := h.counterId
  slices := h.slices.mono fun _ hk => hk.append new
  setUp := h.setUp

/-! ### The parts of a call -/

/-- The log with the packets of a body. -/
def bodyLog (L : List (Tid × Emitted)) (t : Tid) (name : Option Ptr) (b : Body) : List (Tid × Emitted) :=
  L ++ (b.packets.map (emitted name)).map (t, ·)

/-- Both hold of what a body has done so far. -/
structure BodyKnown (strings : Ptr → Bytes) (L : List (Tid × Emitted)) (t : Tid) (name : Option Ptr)
    (names : List Ptr) (b : Body) : Prop where
  defined : Defined strings (bodyLog L t name b) b.config
  thread : ThreadKnown strings (bodyLog L t name b) t b.info names

variable {name : Option Ptr} {b b' : Body} {p : Packet}

theorem bodyLog_start (L : List (Tid × Emitted)) (t : Tid) (name : Option Ptr) (c : VirtualDeviceTraceConfig)
    (i : ThreadInfo) : bodyLog L t name { config := c, info := i } = L :=
  List.append_nil L

theorem bodyKnown_start (hd : Defined strings L c) (hth : ThreadKnown strings L t i names) (name : Option Ptr) :
    BodyKnown strings L t name names { config := c, info := i } := by
  refine ⟨?_, ?_⟩ <;> rw [bodyLog_start]
  · exact hd
  · exact hth

theorem bodyLog_emit (L : List (Tid × Emitted)) (t : Tid) (name : Option Ptr) (b : Body) (p : Packet) :
    bodyLog L t name (b.emit p) = bodyLog L t name b ++ [(t, emitted name p)] := by
  simp [bodyLog, Body.emit]

/-- A step from `x` to `x` or `x + 1`, twice, that ends no lower than it began has not wrapped. -/
theorem le_of_steps {x y z : UInt32} (hy : y = x ∨ y = x + 1) (hz : z = y ∨ z = y + 1) (h : x ≤ z) :
    x ≤ y ∧ y ≤ z := by
  have hstep {a b : UInt32} (h : b = a ∨ b = a + 1) : b.toNat = a.toNat ∨ b.toNat = (a.toNat + 1) % 2 ^ 32 := by
    rcases h with rfl | rfl
    · exact Or.inl rfl
    · exact Or.inr (UInt32.toNat_add a 1)
  have hx := x.toNat_lt
  rw [UInt32.le_iff_toNat_le] at h
  rw [UInt32.le_iff_toNat_le, UInt32.le_iff_toNat_le]
  rcases hstep hy with h1 | h1 <;> rcases hstep hz with h2 | h2 <;> omega

theorem lt_of_step {x : UInt32} (h : x ≤ x + 1) : x < x + 1 := by
  have hx := x.toNat_lt
  simp only [UInt32.le_iff_toNat_le, UInt32.lt_iff_toNat_lt, UInt32.toNat_add, UInt32.toNat_one] at h ⊢
  omega

/-- A packet of a body that defines nothing. -/
theorem BodyKnown.use (h : BodyKnown strings L t name names b)
    (hrefs : ∀ r ∈ (emitted name p).refs strings, Knows (bodyLog L t name b) t r) (hi : p.iids = [])
    (hu : p.uuids = []) : BodyKnown strings L t name names (b.emit p) := by
  refine ⟨?_, ?_⟩
  · rw [bodyLog_emit]
    exact h.defined.use hrefs hi hu
  · rw [bodyLog_emit]
    refine h.thread.append fun x hx _ uuid id string hp => ?_
    rw [List.mem_singleton.mp hx] at hp
    have hp' : p = .counterTrack uuid id string := hp
    rw [hp'] at hu
    exact List.cons_ne_nil _ _ hu

/-- A packet that defines the next interning id. -/
theorem BodyKnown.define (h : BodyKnown strings L t name names b) (hp : p.iids = [b.config.currentInterningId])
    (hu : p.uuids = []) (hr : (emitted name p).refs strings = [])
    (hwrap : b.config.currentInterningId ≤ b.config.currentInterningId + 1) :
    BodyKnown strings L t name names ({ b with
      config := { b.config with currentInterningId := b.config.currentInterningId + 1 } }.emit p) := by
  have hnone : ∀ uuid id string, p ≠ .counterTrack uuid id string := by
    rintro uuid id string rfl
    exact List.cons_ne_nil _ _ hu
  refine ⟨?_, ?_⟩
  · rw [bodyLog_emit]
    refine h.defined.snoc (by simp [hr]) hwrap (UInt32.le_refl _) (fun iid hm => ?_) (fun uuid hm => ?_)
      (fun id he => ?_) fun uuid id string he => absurd he (hnone uuid id string)
    · have hm' : iid ∈ p.iids := hm
      rw [hp, List.mem_singleton] at hm'
      rw [hm']
      exact ⟨UInt32.le_refl _, lt_of_step hwrap⟩
    · have hm' : uuid ∈ p.uuids := hm
      rw [hu] at hm'
      exact absurd hm' List.not_mem_nil
    · have he' : p = .threadTrack id := he
      rw [he'] at hu
      exact absurd hu (List.cons_ne_nil _ _)
  · rw [bodyLog_emit]
    refine h.thread.append fun x hx _ uuid id string he => ?_
    rw [List.mem_singleton.mp hx] at he
    exact hnone uuid id string he

/-- A change of the context that leaves what is known of it. -/
theorem BodyKnown.info (h : BodyKnown strings L t name names b) {info : ThreadInfo} {names' : List Ptr}
    (hthread : ThreadKnown strings (bodyLog L t name b) t b.info names →
      ThreadKnown strings (bodyLog L t name b) t info names') :
    BodyKnown strings L t name names' { b with info := info } :=
  ⟨h.defined, hthread h.thread⟩

/-- The category is in the table, or it is interned and written. -/
theorem writeCategory_cases (b : Body) :
    (∃ iid, b.info.eventCategoryInterningIds.lookup kCategoryPtr = some iid ∧
      writeCategory b = { b with info := { b.info with
        currentCategoryIid := Function.update b.info.currentCategoryIid b.info.stackDepth iid } }) ∨
    writeCategory b = { { b with
      config := { b.config with currentInterningId := b.config.currentInterningId + 1 } }.emit
        (.category b.config.currentInterningId kCategory) with
      info := { b.info with
        eventCategoryInterningIds := (kCategoryPtr, b.config.currentInterningId) :: b.info.eventCategoryInterningIds
        currentCategoryIid :=
          Function.update b.info.currentCategoryIid b.info.stackDepth b.config.currentInterningId } } := by
  unfold writeCategory internCategory intern
  cases hl : b.info.eventCategoryInterningIds.lookup kCategoryPtr with
  | some iid => exact Or.inl ⟨iid, rfl, rfl⟩
  | none => exact Or.inr rfl

theorem lookup_cons {ptr ptr' : Ptr} {α : Type} {a a' : α} {table : List (Ptr × α)}
    (h : ((ptr, a) :: table).lookup ptr' = some a') : (ptr' = ptr ∧ a' = a) ∨ table.lookup ptr' = some a' := by
  rw [List.lookup_cons] at h
  split at h
  · rename_i he
    exact Or.inl ⟨by simpa using he, (Option.some.inj h).symm⟩
  · exact Or.inr h

/-- The cell of the current depth is above the open slices. -/
theorem ThreadKnown.setCategory (h : ThreadKnown strings L t i names) (iid : UInt32)
    {table : List (Ptr × UInt32)}
    (htable : ∀ ptr iid, table.lookup ptr = some iid → Knows L t (.category iid)) :
    ThreadKnown strings L t { i with
      eventCategoryInterningIds := table
      currentCategoryIid := Function.update i.currentCategoryIid i.stackDepth iid } names where
  categories := htable
  names := h.names
  tracks := h.tracks
  thread := h.thread
  own := h.own
  counterId := h.counterId
  slices := h.slices.congr fun _ hd => ⟨Function.update_of_ne (Nat.ne_of_lt hd) _ _, rfl⟩
  setUp := h.setUp

theorem ThreadKnown.setName (h : ThreadKnown strings L t i names) (iid : UInt32)
    {table : List (Ptr × UInt32)}
    (htable : ∀ ptr iid, table.lookup ptr = some iid → Knows L t (.name iid (some (strings ptr)))) :
    ThreadKnown strings L t { i with
      eventNameInterningIds := table
      currentEventNameIid := Function.update i.currentEventNameIid i.stackDepth iid } names where
  categories := h.categories
  names := htable
  tracks := h.tracks
  thread := h.thread
  own := h.own
  counterId := h.counterId
  slices := h.slices.congr fun _ hd => ⟨rfl, Function.update_of_ne (Nat.ne_of_lt hd) _ _⟩
  setUp := h.setUp

/-- After `writeCategory` the category of the current depth is known. -/
theorem writeCategory_known (h : BodyKnown strings L t name names b)
    (hwrap : b.config.currentInterningId ≤ (writeCategory b).config.currentInterningId) :
    BodyKnown strings L t name names (writeCategory b) ∧
      Knows (bodyLog L t name (writeCategory b)) t
        (.category ((writeCategory b).info.currentCategoryIid b.info.stackDepth)) := by
  rcases writeCategory_cases b with ⟨iid, hl, he⟩ | he
  · rw [he]
    refine ⟨h.info fun hth => hth.setCategory iid hth.categories, ?_⟩
    simp only [Function.update_self]
    exact h.thread.categories _ _ hl
  · rw [he] at hwrap ⊢
    have hdef := h.define (p := .category b.config.currentInterningId kCategory) rfl rfl rfl hwrap
    have hnew : Knows (bodyLog L t name ({ b with
        config := { b.config with currentInterningId := b.config.currentInterningId + 1 } }.emit
          (.category b.config.currentInterningId kCategory))) t (.category b.config.currentInterningId) := by
      rw [bodyLog_emit]
      exact known_snoc List.mem_cons_self
    refine ⟨hdef.info fun hth => hth.setCategory _ fun ptr iid hl => ?_, ?_⟩
    · rcases lookup_cons hl with ⟨-, rfl⟩ | hl
      · exact hnew
      · exact hth.categories ptr iid hl
    · simp only [Function.update_self]
      exact hnew

/-- After `writeThreadTrack` the thread has a track of its own. -/
theorem writeThreadTrack_known (h : BodyKnown strings L t name names b)
    (hwrap : b.config.currentThreadId ≤ (writeThreadTrack b).config.currentThreadId) :
    BodyKnown strings L t name names (writeThreadTrack b) ∧
      (writeThreadTrack b).info.needToSetThreadId = false := by
  unfold writeThreadTrack at hwrap ⊢
  by_cases hn : b.info.needToSetThreadId = true
  · rw [if_pos hn] at hwrap ⊢
    dsimp only at hwrap ⊢
    have hstep : b.config.currentThreadId ≤ b.config.currentThreadId + 1 := hwrap
    refine ⟨⟨?_, ?_⟩, rfl⟩
    · rw [bodyLog_emit]
      refine h.defined.snoc nofun (UInt32.le_refl _) hstep nofun (fun uuid hm x hx hm' => ?_) (fun id he => ?_) nofun
      · obtain rfl : uuid = (b.config.currentThreadId + 1).toUInt64 := List.mem_singleton.mp hm
        cases hp : x.2.packet with
        | threadTrack id =>
          have hle := h.defined.threads_le x hx id hp
          rw [hp] at hm'
          have hid : (b.config.currentThreadId + 1).toUInt64 = id.toUInt64 := List.mem_singleton.mp hm'
          have hid' : b.config.currentThreadId + 1 = id := by
            rw [← UInt32.toNat_inj, ← UInt32.toNat_toUInt64, hid, UInt32.toNat_toUInt64]
          rw [← hid'] at hle
          exact UInt32.not_le.mpr (lt_of_step hstep) hle
        | counterTrack uuid id string =>
          obtain ⟨-, k, hk, he⟩ := h.defined.counters x hx uuid id string hp
          rw [hp] at hm'
          exact counterTrackUuid_ne hk (he.symm.trans (List.mem_singleton.mp hm').symm)
        | _ =>
          rw [hp] at hm'
          exact List.not_mem_nil hm'
      · obtain rfl := Packet.threadTrack.inj he
        exact UInt32.le_refl _
    · rw [bodyLog_emit]
      have hth : ThreadKnown strings (bodyLog L t name b ++ [(t, emitted name
          (.threadTrack (b.config.currentThreadId + 1)))]) t b.info names := h.thread.append
        fun x hx _ uuid id string he => by
          rw [List.mem_singleton.mp hx] at he
          exact Packet.noConfusion he
      refine ⟨hth.categories, hth.names, hth.tracks, fun _ => known_snoc List.mem_cons_self,
        fun x hx hxt uuid id string he => ?_, hth.counterId, hth.slices.congr fun _ _ => ⟨rfl, rfl⟩, fun _ => rfl⟩
      have hset := (hth.own x hx hxt uuid id string he).1
      exact absurd (hn.symm.trans hset) Bool.noConfusion
  · rw [if_neg hn]
    exact ⟨h, by simpa using hn⟩

theorem writeThreadTrack_eq (L : List (Tid × Emitted)) (t : Tid) (name : Option Ptr) (b : Body) :
    (writeThreadTrack b).info.currentCategoryIid = b.info.currentCategoryIid ∧
      (writeThreadTrack b).info.stackDepth = b.info.stackDepth ∧
      (writeThreadTrack b).config.currentInterningId = b.config.currentInterningId ∧
      ∃ new, bodyLog L t name (writeThreadTrack b) = bodyLog L t name b ++ new := by
  unfold writeThreadTrack
  split
  · exact ⟨rfl, rfl, rfl, _, bodyLog_emit L t name _ _⟩
  · exact ⟨rfl, rfl, rfl, [], (List.append_nil _).symm⟩

theorem writeSequenceId_known {i : ThreadInfo} (h : BodyKnown strings L t name names { config := c, info := i })
    (hb : writeSequenceId { config := c, info := i } = some b) :
    BodyKnown strings L t name names b ∧ b.config.currentInterningId = c.currentInterningId := by
  rcases writeSequenceId_cases hb with ⟨-, rfl⟩ | ⟨-, -, rfl⟩
  · have hconfig : BodyKnown strings L t name names
        { config := { c with packetsWritten := 1, sequenceIdWritten := true }, info := i, first := true } :=
      ⟨h.defined.config rfl rfl, h.thread⟩
    exact ⟨hconfig.use (p := .sequenceStart) nofun rfl rfl, rfl⟩
  · exact ⟨⟨h.defined.config rfl rfl, h.thread⟩, rfl⟩

theorem writeCategory_config (b : Body) :
    (writeCategory b).config.currentThreadId = b.config.currentThreadId ∧
      (writeCategory b).info.stackDepth = b.info.stackDepth ∧
      ((writeCategory b).config.currentInterningId = b.config.currentInterningId ∨
        (writeCategory b).config.currentInterningId = b.config.currentInterningId + 1) := by
  rcases writeCategory_cases b with ⟨iid, -, he⟩ | he <;> rw [he]
  · exact ⟨rfl, rfl, Or.inl rfl⟩
  · exact ⟨rfl, rfl, Or.inr rfl⟩

/-- **After `ensureThreadInfo`** the thread has its track, and the category of
the current depth is known. -/
theorem ensureThreadInfo_known {i : ThreadInfo} (h : BodyKnown strings L t name names { config := c, info := i })
    (hb : ensureThreadInfo { config := c, info := i } = some b)
    (hwrap : c.currentInterningId ≤ b.config.currentInterningId)
    (hthread : c.currentThreadId ≤ b.config.currentThreadId) :
    BodyKnown strings L t name names b ∧ b.info.needToSetThreadId = false ∧
      Knows (bodyLog L t name b) t (.category (b.info.currentCategoryIid b.info.stackDepth)) := by
  obtain ⟨b₀, h0, -, hid, rfl, -⟩ := ensureThreadInfo_cases hb
  obtain ⟨hk₀, hi₀⟩ := writeSequenceId_known h h0
  obtain ⟨hcells, hdepth, hi₂, new, hlog⟩ := writeThreadTrack_eq L t name (writeCategory b₀)
  obtain ⟨hid₁, hdepth₁, -⟩ := writeCategory_config b₀
  obtain ⟨hk₁, hcat⟩ := writeCategory_known hk₀ (by rwa [hi₀, ← hi₂])
  obtain ⟨hk₂, hset⟩ := writeThreadTrack_known hk₁ (by rwa [hid₁, hid])
  refine ⟨hk₂, hset, ?_⟩
  rw [hcells, hdepth, hdepth₁, hlog]
  exact hcat.append new

/-- The name is in the table, or it is interned and written; then the slice begins. -/
theorem writeSliceBegin_cases (strings : Ptr → Bytes) (now : UInt64) (ptr : Ptr) (b : Body) :
    ∃ b₁ iid, ((b.info.eventNameInterningIds.lookup ptr = some iid ∧
        b₁ = { b with info := { b.info with
          currentEventNameIid := Function.update b.info.currentEventNameIid b.info.stackDepth iid } }) ∨
      (iid = b.config.currentInterningId ∧ b₁ = { { b with
        config := { b.config with currentInterningId := b.config.currentInterningId + 1 } }.emit
          (.eventName iid (strings ptr)) with
        info := { b.info with
          eventNameInterningIds := (ptr, iid) :: b.info.eventNameInterningIds
          currentEventNameIid := Function.update b.info.currentEventNameIid b.info.stackDepth iid } })) ∧
      writeSliceBegin strings now ptr b = { b₁.emit (.sliceBegin (b₁.config.getTimestamp now) b₁.info.threadId
          (b₁.info.currentCategoryIid b₁.info.stackDepth) (b₁.info.currentEventNameIid b₁.info.stackDepth)) with
        info := { b₁.info with stackDepth := b₁.info.stackDepth + 1 } } := by
  unfold writeSliceBegin internEvent intern
  cases hl : b.info.eventNameInterningIds.lookup ptr with
  | some iid => exact ⟨_, iid, Or.inl ⟨rfl, rfl⟩, rfl⟩
  | none => exact ⟨_, _, Or.inr ⟨rfl, rfl⟩, rfl⟩

/-- An event of a slice, whose references are known. -/
theorem BodyKnown.slice {ptr : Ptr} (h : BodyKnown strings L t (some ptr) names b) {depth : ℕ}
    (hset : b.info.needToSetThreadId = false)
    (hcat : Knows (bodyLog L t (some ptr) b) t (.category (b.info.currentCategoryIid depth)))
    (hname : Knows (bodyLog L t (some ptr) b) t (.name (b.info.currentEventNameIid depth) (some (strings ptr))))
    (hp : (∃ ts, p = .sliceBegin ts b.info.threadId (b.info.currentCategoryIid depth)
        (b.info.currentEventNameIid depth)) ∨
      ∃ ts, p = .sliceEnd ts b.info.threadId (b.info.currentCategoryIid depth) (b.info.currentEventNameIid depth)) :
    BodyKnown strings L t (some ptr) names (b.emit p) := by
  have hrefs : ∀ r ∈ [Ref.thread b.info.threadId, .category (b.info.currentCategoryIid depth),
      .name (b.info.currentEventNameIid depth) (some (strings ptr))], Knows (bodyLog L t (some ptr) b) t r := by
    simp only [List.mem_cons, List.not_mem_nil, or_false]
    rintro r (rfl | rfl | rfl)
    · exact h.thread.thread hset
    · exact hcat
    · exact hname
  rcases hp with ⟨ts, rfl⟩ | ⟨ts, rfl⟩
  · exact h.use hrefs rfl rfl
  · exact h.use hrefs rfl rfl

/-- `beginTrace` after `ensureThreadInfo`: the new slice is open, with its name interned. -/
theorem writeSliceBegin_known {ptr : Ptr} {now : UInt64} (h : BodyKnown strings L t (some ptr) names b)
    (hset : b.info.needToSetThreadId = false)
    (hcat : Knows (bodyLog L t (some ptr) b) t (.category (b.info.currentCategoryIid b.info.stackDepth)))
    (hwrap : b.config.currentInterningId ≤ (writeSliceBegin strings now ptr b).config.currentInterningId) :
    BodyKnown strings L t (some ptr) (ptr :: names) (writeSliceBegin strings now ptr b) := by
  obtain ⟨b₁, iid, hb₁, he⟩ := writeSliceBegin_cases strings now ptr b
  rw [he] at hwrap ⊢
  obtain ⟨hk, hset₁, hcat₁, hname⟩ : BodyKnown strings L t (some ptr) names b₁ ∧
      b₁.info.needToSetThreadId = false ∧
      Knows (bodyLog L t (some ptr) b₁) t (.category (b₁.info.currentCategoryIid b₁.info.stackDepth)) ∧
      Knows (bodyLog L t (some ptr) b₁) t
        (.name (b₁.info.currentEventNameIid b₁.info.stackDepth) (some (strings ptr))) := by
    rcases hb₁ with ⟨hl, rfl⟩ | ⟨rfl, rfl⟩
    · refine ⟨h.info fun hth => hth.setName iid hth.names, hset, hcat, ?_⟩
      simp only [Function.update_self]
      exact h.thread.names ptr iid hl
    · have hdef := h.define (p := .eventName b.config.currentInterningId (strings ptr)) rfl rfl rfl hwrap
      have hlog := bodyLog_emit L t (some ptr) { b with
        config := { b.config with currentInterningId := b.config.currentInterningId + 1 } }
        (.eventName b.config.currentInterningId (strings ptr))
      have hnew : Knows (bodyLog L t (some ptr) b ++
          [(t, emitted (some ptr) (.eventName b.config.currentInterningId (strings ptr)))]) t
          (.name b.config.currentInterningId (some (strings ptr))) := known_snoc List.mem_cons_self
      refine ⟨hdef.info fun hth => hth.setName _ fun ptr' iid' hl => ?_, hset, ?_, ?_⟩
      · rcases lookup_cons hl with ⟨rfl, rfl⟩ | hl
        · rw [hlog]
          exact hnew
        · exact hth.names ptr' iid' hl
      · have hold := hcat.append [(t, emitted (some ptr) (.eventName b.config.currentInterningId (strings ptr)))]
        exact hlog ▸ hold
      · simp only [Function.update_self]
        exact hlog ▸ hnew
  have hslice := hk.slice hset₁ hcat₁ hname (p := .sliceBegin (b₁.config.getTimestamp now) b₁.info.threadId
    (b₁.info.currentCategoryIid b₁.info.stackDepth) (b₁.info.currentEventNameIid b₁.info.stackDepth))
    (Or.inl ⟨_, rfl⟩)
  refine hslice.info fun hth => ⟨hth.categories, hth.names, hth.tracks, hth.thread, hth.own, hth.counterId,
    ⟨?_, ?_, hth.slices.congr fun _ _ => ⟨rfl, rfl⟩⟩, fun _ => hset₁⟩
  · rw [bodyLog_emit]
    exact hcat₁.append _
  · rw [bodyLog_emit]
    exact hname.append _

/-- `endTrace`: the event is about the name of the slice it closes. -/
theorem endTrace_known {ptr : Ptr} {now : UInt64} {depth : ℕ} (hd : Defined strings L c)
    (hth : ThreadKnown strings L t i (ptr :: names)) (hdepth : i.stackDepth = depth + 1) :
    BodyKnown strings L t (some ptr) names
      (writeSliceEnd now { config := c, info := { i with stackDepth := depth } }) := by
  have hset : i.needToSetThreadId = false := hth.setUp (by omega)
  obtain ⟨hcat, hname, hrest⟩ : OpenSlices strings L t i (ptr :: names) (depth + 1) := hdepth ▸ hth.slices
  have hclosed : ThreadKnown strings L t { i with stackDepth := depth } names :=
    ⟨hth.categories, hth.names, hth.tracks, hth.thread, hth.own, hth.counterId,
      hrest.congr fun _ _ => ⟨rfl, rfl⟩, fun _ => hset⟩
  refine (bodyKnown_start hd hclosed (some ptr)).slice hset ?_ ?_ (Or.inr ⟨_, rfl⟩)
  · rw [bodyLog_start]
    exact hcat
  · rw [bodyLog_start]
    exact hname

/-- The counter has a track, or it gets one; then its value is written. -/
theorem writeCounter_cases (strings : Ptr → Bytes) (now : UInt64) (ptr : Ptr) (val : Int64) (b : Body) :
    ∃ b₁ uuid, ((b.info.counterNameToTrackUuids.lookup ptr = some uuid ∧ b₁ = b) ∨
      (uuid = counterTrackUuid b.info.currentCounterId b.info.threadId ∧
        b₁ = { b with info := { b.info with
          counterNameToTrackUuids := (ptr, uuid) :: b.info.counterNameToTrackUuids
          currentCounterId := b.info.currentCounterId + 1 } }.emit
            (.counterTrack uuid b.info.threadId (strings ptr)))) ∧
      writeCounter strings now ptr val b = b₁.emit (.counter (b₁.config.getTimestamp now) uuid val) := by
  unfold writeCounter getOrCreateCounterTrackUuid
  cases hl : b.info.counterNameToTrackUuids.lookup ptr with
  | some uuid => exact ⟨b, uuid, Or.inl ⟨rfl, rfl⟩, rfl⟩
  | none => exact ⟨_, _, Or.inr ⟨rfl, rfl⟩, rfl⟩

theorem uuid_of_defs {id : UInt32} (h : Ref.thread id ∈ e.defs) : id.toUInt64 ∈ e.packet.uuids := by
  unfold Emitted.defs at h
  split at h
  case h_3 threadId hp =>
    obtain rfl := Ref.thread.inj (List.mem_singleton.mp h)
    rw [hp]
    exact List.mem_cons_self
  all_goals simp at h

/-- The next uuid of a counter is new: the thread's track is its own, and so is
the number of the counter. -/
theorem counterTrackUuid_fresh {ptr : Ptr} (h : BodyKnown strings L t (some ptr) names b)
    (hset : b.info.needToSetThreadId = false) {x : Tid × Emitted} (hx : x ∈ bodyLog L t (some ptr) b) :
    counterTrackUuid b.info.currentCounterId b.info.threadId ∉ x.2.packet.uuids := by
  intro hm
  cases hp : x.2.packet with
  | threadTrack id =>
    rw [hp] at hm
    exact counterTrackUuid_ne h.thread.counterId (List.mem_singleton.mp hm)
  | counterTrack uuid id string =>
    rw [hp] at hm
    obtain ⟨hk, k, -, he⟩ := h.defined.counters x hx uuid id string hp
    obtain ⟨hki, hid⟩ := counterTrackUuid_inj ((List.mem_singleton.mp hm).trans he)
    -- its thread id is this thread's, so it is among the counters of this thread
    obtain ⟨y, hy, hyt, hyd⟩ := h.thread.thread hset
    obtain ⟨z, hz, hzx, hzd⟩ := hk
    have hyz : y = z := by
      refine eq_of_mem_keys h.defined.uuids hy hz (k := id.toUInt64) ?_ ?_
      · exact uuid_of_defs (hid ▸ hyd)
      · exact uuid_of_defs hzd
    have hxt : x.1 = t := by rw [← hzx, ← hyz, hyt]
    obtain ⟨-, -, k', hlt, he'⟩ := h.thread.own x hx hxt uuid id string hp
    obtain ⟨rfl, -⟩ := counterTrackUuid_inj (he.symm.trans he')
    rw [hki] at hlt
    exact UInt32.lt_irrefl _ hlt
  | _ =>
    rw [hp] at hm
    exact List.not_mem_nil hm

/-- A new track of a counter keeps everything known. -/
theorem counterTrack_known {ptr : Ptr} (h : BodyKnown strings L t (some ptr) names b)
    (hset : b.info.needToSetThreadId = false) (hwrap : b.info.currentCounterId ≤ b.info.currentCounterId + 1) :
    BodyKnown strings L t (some ptr) names ({ b with info := { b.info with
      counterNameToTrackUuids :=
        (ptr, counterTrackUuid b.info.currentCounterId b.info.threadId) :: b.info.counterNameToTrackUuids
      currentCounterId := b.info.currentCounterId + 1 } }.emit
        (.counterTrack (counterTrackUuid b.info.currentCounterId b.info.threadId) b.info.threadId
          (strings ptr))) := by
  have hown := h.thread.thread hset
  refine ⟨?_, ?_⟩
  · rw [bodyLog_emit]
    refine h.defined.snoc nofun (UInt32.le_refl _) (UInt32.le_refl _) nofun (fun uuid hm x hx hm' => ?_) nofun
      fun uuid id string he => ?_
    · obtain rfl := List.mem_singleton.mp hm
      exact counterTrackUuid_fresh h hset hx hm'
    · obtain ⟨rfl, rfl, -⟩ := Packet.counterTrack.inj he
      exact ⟨hown, _, h.thread.counterId, rfl⟩
  · rw [bodyLog_emit]
    have hlt := lt_of_step hwrap
    refine ⟨fun ptr' iid hl => (h.thread.categories ptr' iid hl).append _,
      fun ptr' iid hl => (h.thread.names ptr' iid hl).append _, fun ptr' uuid hl => ?_, fun _ => hown.append _,
      fun x hx hxt uuid id string hp => ?_, UInt32.lt_trans h.thread.counterId hlt,
      (h.thread.slices.mono fun _ hk => hk.append _).congr fun _ _ => ⟨rfl, rfl⟩, fun _ => hset⟩
    · rcases lookup_cons hl with ⟨rfl, rfl⟩ | hl
      · exact known_snoc List.mem_cons_self
      · exact (h.thread.tracks ptr' uuid hl).append _
    · rcases List.mem_append.mp hx with hx | hx
      · obtain ⟨-, hid, k, hk, he⟩ := h.thread.own x hx hxt uuid id string hp
        exact ⟨hset, hid, k, UInt32.lt_trans hk hlt, he⟩
      · rw [List.mem_singleton.mp hx] at hp
        obtain ⟨rfl, rfl, -⟩ := Packet.counterTrack.inj hp
        exact ⟨hset, rfl, _, hlt, rfl⟩

/-- `traceCounter` after `ensureThreadInfo`. -/
theorem writeCounter_known {ptr : Ptr} {now : UInt64} {val : Int64} (h : BodyKnown strings L t (some ptr) names b)
    (hset : b.info.needToSetThreadId = false)
    (hwrap : b.info.currentCounterId ≤ (writeCounter strings now ptr val b).info.currentCounterId) :
    BodyKnown strings L t (some ptr) names (writeCounter strings now ptr val b) := by
  obtain ⟨b₁, uuid, hb₁, he⟩ := writeCounter_cases strings now ptr val b
  rw [he] at hwrap ⊢
  have hk : BodyKnown strings L t (some ptr) names b₁ ∧
      Knows (bodyLog L t (some ptr) b₁) t (.counter uuid (some ptr)) := by
    rcases hb₁ with ⟨hl, rfl⟩ | ⟨rfl, rfl⟩
    · exact ⟨h, h.thread.tracks ptr uuid hl⟩
    · refine ⟨counterTrack_known h hset hwrap, ?_⟩
      rw [bodyLog_emit]
      exact known_snoc List.mem_cons_self
  refine hk.1.use (fun r hr => ?_) rfl rfl
  obtain rfl : r = .counter uuid (some ptr) := List.mem_singleton.mp hr
  exact hk.2

/-! ### A whole call -/

/-- No counter is smaller after the body than before it. -/
structure NoWrap (c : VirtualDeviceTraceConfig) (i : ThreadInfo) (b : Body) : Prop where
  packetsWritten : c.packetsWritten ≤ b.config.packetsWritten
  interningId : c.currentInterningId ≤ b.config.currentInterningId
  threadId : c.currentThreadId ≤ b.config.currentThreadId
  counterId : i.currentCounterId ≤ b.info.currentCounterId

theorem ensureThreadInfo_interningId {i : ThreadInfo} (hb : ensureThreadInfo { config := c, info := i } = some b) :
    b.config.currentInterningId = c.currentInterningId ∨
      b.config.currentInterningId = c.currentInterningId + 1 := by
  obtain ⟨b₀, h0, -, -, rfl, -⟩ := ensureThreadInfo_cases hb
  have hi₀ : b₀.config.currentInterningId = c.currentInterningId := by
    rcases writeSequenceId_cases h0 with ⟨-, rfl⟩ | ⟨-, -, rfl⟩ <;> rfl
  obtain ⟨-, -, hi₂, -⟩ := writeThreadTrack_eq [] 0 none (writeCategory b₀)
  obtain ⟨-, -, hi₁⟩ := writeCategory_config b₀
  rw [hi₂, ← hi₀]
  exact hi₁

theorem writeSliceBegin_config (strings : Ptr → Bytes) (now : UInt64) (ptr : Ptr) (b : Body) :
    (writeSliceBegin strings now ptr b).config.currentThreadId = b.config.currentThreadId ∧
      ((writeSliceBegin strings now ptr b).config.currentInterningId = b.config.currentInterningId ∨
        (writeSliceBegin strings now ptr b).config.currentInterningId = b.config.currentInterningId + 1) := by
  obtain ⟨b₁, iid, hb₁, he⟩ := writeSliceBegin_cases strings now ptr b
  rw [he]
  rcases hb₁ with ⟨-, rfl⟩ | ⟨-, rfl⟩
  · exact ⟨rfl, Or.inl rfl⟩
  · exact ⟨rfl, Or.inr rfl⟩

theorem writeCounter_config (strings : Ptr → Bytes) (now : UInt64) (ptr : Ptr) (val : Int64) (b : Body) :
    (writeCounter strings now ptr val b).config = b.config := by
  obtain ⟨b₁, uuid, hb₁, he⟩ := writeCounter_cases strings now ptr val b
  rw [he]
  rcases hb₁ with ⟨-, rfl⟩ | ⟨-, rfl⟩ <;> rfl

theorem ensureThreadInfo_counterId {i : ThreadInfo} (hb : ensureThreadInfo { config := c, info := i } = some b) :
    b.info.currentCounterId = i.currentCounterId := by
  obtain ⟨b₀, -, rfl, -, rfl, -⟩ := ensureThreadInfo_cases hb
  have hcat : (writeCategory b₀).info.currentCounterId = b₀.info.currentCounterId := by
    rcases writeCategory_cases b₀ with ⟨iid, -, he⟩ | he <;> rw [he]
  unfold writeThreadTrack
  split
  · exact hcat
  · exact hcat

/-- **A call keeps what is known**, unless a counter wraps: the log with its
packets defines every id once and before its use. -/
theorem Call.body_known {call : Call} {now : UInt64} {info : ThreadInfo} (hd : Defined strings L c)
    (hth : ThreadKnown strings L t i names) (he : call.enter c i = some info)
    (hb : call.body strings now c info = some b) (hwrap : NoWrap c info b) :
    BodyKnown strings L t (call.name names) (call.openAfter names) b := by
  cases call with
  | beginTrace ptr =>
    obtain ⟨-, rfl⟩ | ⟨hend, -⟩ := Call.enter_info he
    · simp only [Call.body, Option.bind_eq_bind, Option.bind_eq_some_iff, Option.pure_def, Option.some.injEq] at hb
      obtain ⟨b₁, h1, rfl⟩ := hb
      obtain ⟨hid, hstep⟩ := writeSliceBegin_config strings now ptr b₁
      obtain ⟨hle₁, hle₂⟩ := le_of_steps (ensureThreadInfo_interningId h1) hstep hwrap.interningId
      obtain ⟨hk, hset, hcat⟩ := ensureThreadInfo_known (bodyKnown_start hd hth (some ptr)) h1 hle₁
        (hid ▸ hwrap.threadId)
      exact writeSliceBegin_known hk hset hcat hle₂
    · exact Call.noConfusion hend
  | endTrace =>
    obtain ⟨hne, -⟩ | ⟨-, hpos, rfl⟩ := Call.enter_info he
    · exact absurd rfl hne
    · obtain rfl := Option.some.inj hb
      obtain ⟨depth, hdepth⟩ : ∃ depth, i.stackDepth = depth + 1 := ⟨i.stackDepth - 1, by omega⟩
      cases names with
      | nil =>
        have hnone : OpenSlices strings L t i [] (depth + 1) := hdepth ▸ hth.slices
        exact hnone.elim
      | cons ptr names =>
        rw [hdepth, Nat.add_sub_cancel]
        exact endTrace_known hd hth hdepth
  | traceCounter ptr val =>
    obtain ⟨-, rfl⟩ | ⟨hend, -⟩ := Call.enter_info he
    · simp only [Call.body, Option.bind_eq_bind, Option.bind_eq_some_iff, Option.pure_def, Option.some.injEq] at hb
      obtain ⟨b₁, h1, rfl⟩ := hb
      have hconfig := writeCounter_config strings now ptr val b₁
      obtain ⟨hk, hset, -⟩ := ensureThreadInfo_known (bodyKnown_start hd hth (some ptr)) h1
        (hconfig ▸ hwrap.interningId) (hconfig ▸ hwrap.threadId)
      exact writeCounter_known hk hset (ensureThreadInfo_counterId h1 ▸ hwrap.counterId)
    · exact Call.noConfusion hend

end

end Host
end VPerfetto
