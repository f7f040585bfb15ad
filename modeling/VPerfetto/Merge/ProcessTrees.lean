/-
# The process tree through a merge

A merge moves the pids of an addon's processes and the tgids of its threads
by the main trace's maximal pid, and leaves `ppid` as it is
(`processes_rewriteAddon`). Threads stay with their processes; a process loses
its parent, may be given another, and may become the child of a process of the
main trace. `treeKept_iff` says when none of this happens.

An absent field reads as 0, as the accessors of the messages do.

Key definitions: `processes`, `threads`, `TreeKept`, `ParentsInPlace`.
Key theorems: `processes_rewriteAddon`, `treeKept_iff`.
-/
import VPerfetto.Merge.Rewrite

namespace VPerfetto
namespace Merge

variable {ρ : Type}

/-- `p.pid()`. -/
def Process.getPid (p : Process ρ) : Int32 := p.pid.getD 0

/-- `p.ppid()`. -/
def Process.getPpid (p : Process ρ) : Int32 := p.ppid.getD 0

/-- `t.tgid()`. -/
def Thread.getTgid (t : Thread ρ) : Int32 := t.tgid.getD 0

def PacketData.trees : PacketData ρ → List (ProcessTree ρ)
  | .processTree pt => [pt]
  | _ => []

/-- The `ProcessTree.Process` entries of a trace, in order. -/
def processes (t : Trace ρ) : List (Process ρ) :=
  (t.flatMap fun p => p.data.trees).flatMap fun pt => pt.processes

/-- The `ProcessTree.Thread` entries of a trace, in order. -/
def threads (t : Trace ρ) : List (Thread ρ) :=
  (t.flatMap fun p => p.data.trees).flatMap fun pt => pt.threads

/-- `p` is a child of `q`. -/
def Process.ChildOf (p q : Process ρ) : Prop := p.getPpid = q.getPid ∧ q.getPid ≠ 0

/-- Parents and thread groups are what they were, and no process of the addon
becomes a child of one of the main trace. -/
structure TreeKept (main addon after : Trace ρ) : Prop where
  processes_length : (processes after).length = (processes addon).length
  threads_length : (threads after).length = (threads addon).length
  parent : ∀ p ∈ (processes addon).zip (processes after), ∀ q ∈ (processes addon).zip (processes after),
    p.2.ChildOf q.2 ↔ p.1.ChildOf q.1
  group : ∀ t ∈ (threads addon).zip (threads after), ∀ q ∈ (processes addon).zip (processes after),
    t.2.getTgid = q.2.getPid ↔ t.1.getTgid = q.1.getPid
  foreign : ∀ p ∈ processes after, p.getPpid ≠ 0 → ∀ q ∈ processes main, p.getPpid ≠ q.getPid

/-- No process of the addon has a `ppid` that the merge gives a new meaning:
one that is a pid of the addon, before or after it moves by `maxPid`, or a pid
of the main trace. -/
structure ParentsInPlace (maxPid : ℕ) (main addon : Trace ρ) : Prop where
  own : maxPid = 0 ∨ ∀ p ∈ processes addon, ∀ q ∈ processes addon, q.getPid ≠ 0 →
    p.getPpid ≠ q.getPid ∧ p.getPpid.toUInt32.toNat ≠ q.getPid.toUInt32.toNat + maxPid
  foreign : ∀ p ∈ processes addon, p.getPpid ≠ 0 → ∀ q ∈ processes main, p.getPpid ≠ q.getPid

/-! ### The entries after a merge -/

def Process.rewrite (maxMain : MaxIds) (p : Process ρ) : Process ρ :=
  { p with pid := p.pid.map (offsets maxMain).pid }

def Thread.rewrite (maxMain : MaxIds) (t : Thread ρ) : Thread ρ :=
  { t with tid := t.tid.map (offsets maxMain).tid, tgid := t.tgid.map (offsets maxMain).pid }

theorem trees_rewriteAddon (gen : ℕ → UInt64) (maxMain : MaxIds) (diff : Int64) (addon : Trace ρ) :
    ((rewriteAddon gen maxMain diff addon).flatMap fun p => p.data.trees) =
      (addon.flatMap fun p => p.data.trees).map fun pt => pt.mapIds (offsets maxMain) := by
  rw [rewriteAddon_packets, List.flatMap_map, List.map_flatMap]
  apply List.flatMap_congr
  intro p _
  rw [rewritePacket_data]
  cases p.data <;> rfl

theorem processes_rewriteAddon (gen : ℕ → UInt64) (maxMain : MaxIds) (diff : Int64) (addon : Trace ρ) :
    processes (rewriteAddon gen maxMain diff addon) = (processes addon).map (Process.rewrite maxMain) := by
  rw [processes, trees_rewriteAddon, List.flatMap_map, processes, List.map_flatMap]
  rfl

theorem threads_rewriteAddon (gen : ℕ → UInt64) (maxMain : MaxIds) (diff : Int64) (addon : Trace ρ) :
    threads (rewriteAddon gen maxMain diff addon) = (threads addon).map (Thread.rewrite maxMain) := by
  rw [threads, trees_rewriteAddon, List.flatMap_map, threads, List.map_flatMap]
  rfl

theorem offsets_pid_zero (maxMain : MaxIds) : (offsets maxMain).pid 0 = 0 := rfl

@[simp] theorem getPid_rewrite (maxMain : MaxIds) (p : Process ρ) :
    (p.rewrite maxMain).getPid = (offsets maxMain).pid p.getPid := by
  cases h : p.pid <;> simp [Process.rewrite, Process.getPid, h, offsets_pid_zero]

@[simp] theorem getPpid_rewrite (maxMain : MaxIds) (p : Process ρ) :
    (p.rewrite maxMain).getPpid = p.getPpid := rfl

@[simp] theorem getTgid_rewrite (maxMain : MaxIds) (t : Thread ρ) :
    (t.rewrite maxMain).getTgid = (offsets maxMain).pid t.getTgid := by
  cases h : t.tgid <;> simp [Thread.rewrite, Thread.getTgid, h, offsets_pid_zero]

/-! ### When the tree survives -/

theorem toUInt32_inj {a b : Int32} (h : a.toUInt32.toNat = b.toUInt32.toNat) : a = b := by
  have := congrArg UInt32.toInt32 (UInt32.toNat_inj.mp h)
  simpa only [Int32.toInt32_toUInt32] using this

/-- A pid that is not 0 and does not overflow moves by the maximum. -/
theorem offsets_pid_toNat {maxMain : MaxIds} {pid : Int32} (hne : pid ≠ 0)
    (h : maxMain.pid.toNat + pid.toUInt32.toNat < 2 ^ 32) :
    ((offsets maxMain).pid pid).toUInt32.toNat = pid.toUInt32.toNat + maxMain.pid.toNat := by
  simp only [offsets, hne, if_false, UInt32.toUInt32_toInt32]
  exact add_toNat (by omega)

theorem offsets_pid_inj {maxMain : MaxIds} {a b : Int32}
    (ha : maxMain.pid.toNat + a.toUInt32.toNat + 1 < 2 ^ 32)
    (hb : maxMain.pid.toNat + b.toUInt32.toNat + 1 < 2 ^ 32) :
    (offsets maxMain).pid a = (offsets maxMain).pid b ↔ a = b := by
  constructor
  · intro h
    have hv := congrArg Int32.toUInt32 h
    rw [show ((offsets maxMain).pid a).toUInt32 = _ from map_value maxMain (.pid a),
      show ((offsets maxMain).pid b).toUInt32 = _ from map_value maxMain (.pid b)] at hv
    exact toUInt32_inj (congrArg UInt32.toNat (offset_injOn ha hb hv))
  · intro h
    rw [h]

theorem offsets_pid_eq_zero {maxMain : MaxIds} {pid : Int32}
    (h : maxMain.pid.toNat + pid.toUInt32.toNat + 1 < 2 ^ 32) :
    (offsets maxMain).pid pid = 0 ↔ pid = 0 := by
  have h0 : maxMain.pid.toNat + (0 : Int32).toUInt32.toNat + 1 < 2 ^ 32 :=
    Nat.lt_of_le_of_lt (Nat.add_le_add_right (Nat.add_le_add_left (Nat.zero_le _) _) _) h
  have hinj := offsets_pid_inj h h0
  rwa [offsets_pid_zero] at hinj

/-- A parent stays a parent exactly when nothing moves, or the two are not
related before or after the move. -/
theorem childOf_rewrite {maxMain : MaxIds} {p q : Process ρ}
    (hq : maxMain.pid.toNat + q.getPid.toUInt32.toNat + 1 < 2 ^ 32) :
    ((p.rewrite maxMain).ChildOf (q.rewrite maxMain) ↔ p.ChildOf q) ↔
      (maxMain.pid.toNat = 0 ∨ (q.getPid ≠ 0 → p.getPpid ≠ q.getPid ∧
        p.getPpid.toUInt32.toNat ≠ q.getPid.toUInt32.toNat + maxMain.pid.toNat)) := by
  unfold Process.ChildOf
  rw [getPpid_rewrite, getPid_rewrite]
  by_cases hz : q.getPid = 0
  · simp [hz, offsets_pid_zero]
  · have hmove := offsets_pid_toNat hz (by omega : maxMain.pid.toNat + q.getPid.toUInt32.toNat < 2 ^ 32)
    have hz' : (offsets maxMain).pid q.getPid ≠ 0 := fun h0 => hz ((offsets_pid_eq_zero hq).mp h0)
    have hafter : p.getPpid = (offsets maxMain).pid q.getPid ↔
        p.getPpid.toUInt32.toNat = q.getPid.toUInt32.toNat + maxMain.pid.toNat := by
      rw [← hmove]
      exact ⟨fun h => by rw [h], toUInt32_inj⟩
    have hbefore : p.getPpid = q.getPid ↔ p.getPpid.toUInt32.toNat = q.getPid.toUInt32.toNat :=
      ⟨fun h => by rw [h], toUInt32_inj⟩
    simp only [hafter, hbefore, hz, hz', ne_eq, not_false_eq_true, and_true, forall_const]
    omega

/-- **When the process tree survives.** Without overflow, parents, thread
groups and the main trace's processes are kept apart and together if and only
if no process of the addon has a `ppid` that gets a new meaning. -/
theorem treeKept_iff (P : Protobuf ρ) (gen : ℕ → UInt64) (main addonTrace : Bytes) (diff : Int64)
    {addon : Trace ρ} (hA : P.parseFromString addonTrace = some addon)
    (hpids : ∀ p ∈ processes addon, maxId .pid (mainPackets P main) + p.getPid.toUInt32.toNat < 2 ^ 31)
    (htgids : ∀ t ∈ threads addon, maxId .pid (mainPackets P main) + t.getTgid.toUInt32.toNat < 2 ^ 31) :
    constructCombinedTrace P gen main addonTrace diff =
        main ++ P.serializeToString (rewriteAddon gen (sCalcMaxIds P gen main) diff addon) ∧
      (TreeKept (mainPackets P main) addon (rewriteAddon gen (sCalcMaxIds P gen main) diff addon) ↔
        ParentsInPlace (maxId .pid (mainPackets P main)) (mainPackets P main) addon) := by
  refine ⟨constructCombinedTrace_eq P gen main diff hA, ?_⟩
  set maxMain := sCalcMaxIds P gen main with hmm
  have hmax : maxMain.pid.toNat = maxId .pid (mainPackets P main) := maxMain_get P gen main .pid
  have hbound : ∀ p ∈ processes addon, maxMain.pid.toNat + p.getPid.toUInt32.toNat + 1 < 2 ^ 32 := by
    intro p hp
    have := hpids p hp
    omega
  constructor
  · intro h
    have hparent := h.parent
    have hforeign := h.foreign
    rw [processes_rewriteAddon] at hparent hforeign
    constructor
    · by_cases hz : maxId .pid (mainPackets P main) = 0
      · exact Or.inl hz
      · refine Or.inr fun p hp q hq => ?_
        have hpq := hparent _ (mem_zip_map.mpr ⟨p, hp, rfl⟩) _ (mem_zip_map.mpr ⟨q, hq, rfl⟩)
        have hor := (childOf_rewrite (hbound q hq)).mp hpq
        rw [hmax] at hor
        exact hor.resolve_left hz
    · intro p hp
      exact hforeign (p.rewrite maxMain) (List.mem_map_of_mem hp)
  · intro h
    constructor
    · rw [processes_rewriteAddon, List.length_map]
    · rw [threads_rewriteAddon, List.length_map]
    · intro x hx y hy
      rw [processes_rewriteAddon] at hx hy
      obtain ⟨p, hp, rfl⟩ := mem_zip_map.mp hx
      obtain ⟨q, hq, rfl⟩ := mem_zip_map.mp hy
      refine (childOf_rewrite (hbound q hq)).mpr ?_
      rw [hmax]
      exact h.own.imp_right fun hall => hall p hp q hq
    · intro x hx y hy
      rw [threads_rewriteAddon] at hx
      rw [processes_rewriteAddon] at hy
      obtain ⟨t, ht, rfl⟩ := mem_zip_map.mp hx
      obtain ⟨q, hq, rfl⟩ := mem_zip_map.mp hy
      have htb := htgids t ht
      rw [getTgid_rewrite, getPid_rewrite]
      exact offsets_pid_inj (by omega) (hbound q hq)
    · intro x hx
      rw [processes_rewriteAddon] at hx
      obtain ⟨p, hp, rfl⟩ := List.mem_map.mp hx
      exact h.foreign p hp

/-- A packet with a process tree: pids and ppids, tids and tgids. -/
def treePacket (ps ts : List (Int32 × Int32)) : TracePacket Unit :=
  ⟨none, none, none, none, .processTree
    ⟨ps.map fun p => ⟨some p.1, some p.2, ()⟩, ts.map fun t => ⟨some t.1, some t.2, ()⟩, ()⟩, ()⟩

/-- The main trace has process 7, the addon process 5 without a parent, and
its thread 6. -/
theorem treeKept_orphan :
    TreeKept (mainPackets wire [10, 6, 18, 4, 10, 2, 8, 7]) [treePacket [(5, 0)] [(6, 5)]]
      (rewriteAddon (fun _ => 9) (sCalcMaxIds wire (fun _ => 9) [10, 6, 18, 4, 10, 2, 8, 7]) 0
        [treePacket [(5, 0)] [(6, 5)]]) := by
  have hA : wire.parseFromString [10, 14, 18, 12, 10, 4, 8, 5, 16, 0, 18, 4, 8, 6, 24, 5] =
      some [treePacket [(5, 0)] [(6, 5)]] := by decide +kernel
  have hps : processes [treePacket [(5, 0)] [(6, 5)]] = [⟨some 5, some 0, ()⟩] := by decide +kernel
  have hts : threads [treePacket [(5, 0)] [(6, 5)]] = [⟨some 6, some 5, ()⟩] := by decide +kernel
  obtain ⟨-, h⟩ := treeKept_iff wire (fun _ => 9) [10, 6, 18, 4, 10, 2, 8, 7] _ 0 hA
    (fun p hp => by rw [hps, List.mem_singleton] at hp; rw [hp]; decide +kernel)
    (fun t ht => by rw [hts, List.mem_singleton] at ht; rw [ht]; decide +kernel)
  refine h.mpr ⟨Or.inr fun p hp q hq _ => ?_, fun p hp h0 => ?_⟩
  · rw [hps, List.mem_singleton] at hp hq
    rw [hp, hq]
    decide +kernel
  · rw [hps, List.mem_singleton] at hp
    exact absurd (by rw [hp]; rfl) h0

/-- A main trace with process 2, and an addon with process 2 and its parent 1:
process 4 of the combined trace is no child of process 3 any more. -/
theorem parent_lost : ∃ (gen : ℕ → UInt64) (main addonTrace : Bytes) (addon : Trace Unit),
    wire.parseFromString addonTrace = some addon ∧
      maxId .pid (mainPackets wire main) + maxId .pid addon < 2 ^ 31 ∧
      ¬ TreeKept (mainPackets wire main) addon (rewriteAddon gen (sCalcMaxIds wire gen main) 0 addon) := by
  refine ⟨fun _ => 9, [10, 6, 18, 4, 10, 2, 8, 2],
    [10, 14, 18, 12, 10, 4, 8, 1, 16, 0, 10, 4, 8, 2, 16, 1], [treePacket [(1, 0), (2, 1)] []],
    by decide +kernel, by decide +kernel, fun h => ?_⟩
  have hchild := h.parent (⟨some 2, some 1, ()⟩, ⟨some 4, some 1, ()⟩) (by decide +kernel)
    (⟨some 1, some 0, ()⟩, ⟨some 3, some 0, ()⟩) (by decide +kernel)
  have hbefore : Process.ChildOf (⟨some 2, some 1, ()⟩ : Process Unit) ⟨some 1, some 0, ()⟩ :=
    ⟨rfl, by decide⟩
  exact absurd (hchild.mpr hbefore).1 (by decide)

end Merge
end VPerfetto
