/-
# Interning at the granularity of the code

`internCategory` and `internEvent` read `currentInterningId`, store the value
in the thread's own table and then add 1 to the counter, as three steps. The
add is atomic, but its result is not what is stored (as it is for thread ids):
between the read and the add of one thread another thread can read the same
value.

`uniqueIids` says that ids are unique as long as no two threads are between
their read and their add; `sharedIid` is a run in which two are.

Key definitions: `Interning`, `Interning.step`, `UniqueIids`, `ReadsAlone`.
-/
import VPerfetto.Lib.Runs
import VPerfetto.Host.Context

namespace VPerfetto
namespace Host

open Runs

/-- `mEventCategoryInterningIds` or `mEventNameInterningIds`. -/
inductive Table where
  | category
  | event
deriving DecidableEq, Repr

/-- Where a thread is in the function, with its local variables. -/
inductive Phase where
  | idle
  | missed (table : Table) (str : Ptr)
  | read (table : Table) (str : Ptr) (res : UInt32)
  | stored (table : Table) (str : Ptr) (res : UInt32)
deriving DecidableEq, Repr

/-- Between the read of the counter and the add. -/
def Phase.between : Phase → Bool
  | .read .. | .stored .. => true
  | _ => false

/-- The counter, the threads' tables and where each thread is. -/
structure Interning where
  currentInterningId : UInt32 := 1
  tables : ℕ → Table → List (Ptr × UInt32) := fun _ _ => []
  phase : ℕ → Phase := fun _ => .idle

inductive InternStep where
  | find (t : ℕ) (table : Table) (str : Ptr)
  | read (t : ℕ)
  | store (t : ℕ)
  | add (t : ℕ)
deriving DecidableEq, Repr

namespace Interning

def setPhase (s : Interning) (t : ℕ) (p : Phase) : Interning :=
  { s with phase := Function.update s.phase t p }

def step (s : Interning) : InternStep → Option Interning
  | .find t table str =>
    match s.phase t with
    | .idle =>
      -- a string that is found is returned, and nothing changes
      if ((s.tables t table).lookup str).isSome then some s else some (s.setPhase t (.missed table str))
    | _ => none
  | .read t =>
    match s.phase t with
    | .missed table str => some (s.setPhase t (.read table str s.currentInterningId))
    | _ => none
  | .store t =>
    match s.phase t with
    | .read table str res => some { s.setPhase t (.stored table str res) with
        tables := Function.update s.tables t
          (Function.update (s.tables t) table ((str, res) :: s.tables t table)) }
    | _ => none
  | .add t =>
    match s.phase t with
    | .stored _ _ _ => some { s.setPhase t .idle with currentInterningId := s.currentInterningId + 1 }
    | _ => none

/-- The four steps of one call with nothing in between are the function `intern`. -/
theorem run_intern {s : Interning} {t : ℕ} (table : Table) (str : Ptr) (hi : s.phase t = .idle)
    (hmiss : (s.tables t table).lookup str = none) :
    ∃ s', run step s [.find t table str, .read t, .store t, .add t] = some s' ∧
      intern (s.tables t table) s.currentInterningId str =
        (s.currentInterningId, true, s'.tables t table, s'.currentInterningId) := by
  have hrun : run step s [.find t table str, .read t, .store t, .add t] = some
      { currentInterningId := s.currentInterningId + 1
        tables := Function.update s.tables t (Function.update (s.tables t) table
          ((str, s.currentInterningId) :: s.tables t table))
        phase := Function.update s.phase t .idle } := by
    simp [run, step, setPhase, hi, hmiss]
  exact ⟨_, hrun, by simp [intern, hmiss]⟩

end Interning

/-- Entries of different threads or for different strings have different ids. -/
def UniqueIids (s : Interning) : Prop :=
  ∀ t table str t' table' str' iid, (str, iid) ∈ s.tables t table → (str', iid) ∈ s.tables t' table' →
    t = t' ∧ str = str'

/-- The counter is read while no other thread is between its read and its add,
and the add does not wrap. -/
def ReadsAlone (s : Interning) : InternStep → Prop
  | .read t => ∀ u, u ≠ t → (s.phase u).between = false
  | .add _ => s.currentInterningId.toNat + 1 < 2 ^ 32
  | _ => True

/-- At most one thread is between its read and its add; it holds the value of
the counter, and all entries but the one it may have stored are below it. -/
structure InternInv (s : Interning) : Prop where
  alone : ∀ t u, (s.phase t).between = true → (s.phase u).between = true → t = u
  read : ∀ t table str res, s.phase t = .read table str res → res = s.currentInterningId
  entries : ∀ t table str iid, (str, iid) ∈ s.tables t table →
    iid.toNat < s.currentInterningId.toNat ∨
      (iid = s.currentInterningId ∧ ∃ res, s.phase t = .stored table str res)
  unique : ∀ t table str t' table' str' iid, (str, iid) ∈ s.tables t table →
    (str', iid) ∈ s.tables t' table' → t = t' ∧ table = table' ∧ str = str'

section

variable {s s' : Interning}

/-- Moving a thread between phases outside its read and its add. -/
theorem InternInv.setPhase (h : InternInv s) {t : ℕ} {p : Phase} (hs : (s.phase t).between = false)
    (hp : p.between = true → ∀ u, u ≠ t → (s.phase u).between = false)
    (hread : ∀ table str res, p = .read table str res → res = s.currentInterningId) :
    InternInv (s.setPhase t p) := by
  unfold Interning.setPhase
  refine ⟨fun u v hu hv => ?_, fun u table str res hu => ?_, fun u table str iid hm => ?_, h.unique⟩
  · by_cases hut : u = t <;> by_cases hvt : v = t
    · rw [hut, hvt]
    · subst hut
      simp only [Function.update_self, Function.update_of_ne hvt] at hu hv
      rw [hp hu v hvt] at hv
      exact absurd hv Bool.false_ne_true
    · subst hvt
      simp only [Function.update_self, Function.update_of_ne hut] at hu hv
      rw [hp hv u hut] at hu
      exact absurd hu Bool.false_ne_true
    · simp only [Function.update_of_ne hut, Function.update_of_ne hvt] at hu hv
      exact h.alone u v hu hv
  · by_cases hut : u = t
    · subst hut
      simp only [Function.update_self] at hu
      exact hread table str res hu
    · simp only [Function.update_of_ne hut] at hu
      exact h.read u table str res hu
  · rcases h.entries u table str iid hm with hlt | ⟨he, res, hu⟩
    · exact Or.inl hlt
    · have hut : u ≠ t := by
        rintro rfl
        rw [hu] at hs
        exact absurd hs.symm Bool.false_ne_true
      refine Or.inr ⟨he, res, ?_⟩
      simp only [Function.update_of_ne hut]
      exact hu

theorem mem_stored {tables : ℕ → Table → List (Ptr × UInt32)} {t u : ℕ} {table table' : Table}
    {e x : Ptr × UInt32} :
    x ∈ Function.update tables t (Function.update (tables t) table (e :: tables t table)) u table' ↔
      x ∈ tables u table' ∨ (u = t ∧ table' = table ∧ x = e) := by
  by_cases hut : u = t
  · subst hut
    by_cases hb : table' = table
    · subst hb
      simp [or_comm]
    · simp [hb]
  · simp [hut]

/-- Storing: the thread alone holds the counter's value, so no entry has it yet. -/
theorem InternInv.store (h : InternInv s) {t : ℕ} {table : Table} {str : Ptr} {res : UInt32}
    (hp : s.phase t = .read table str res) :
    InternInv { s.setPhase t (.stored table str res) with
      tables := Function.update s.tables t
        (Function.update (s.tables t) table ((str, res) :: s.tables t table)) } := by
  have hres := h.read t table str res hp
  have hbt : (s.phase t).between = true := by
    rw [hp]
    rfl
  have hfresh : ∀ u tb k iid, (k, iid) ∈ s.tables u tb → iid ≠ res := by
    intro u tb k iid hm he
    rcases h.entries u tb k iid hm with hlt | ⟨-, res', hu⟩
    · rw [he, hres] at hlt
      exact Nat.lt_irrefl _ hlt
    · have hut : u = t := h.alone u t (by rw [hu]; rfl) hbt
      rw [hut, hp] at hu
      cases hu
  have hbetween : ∀ u, (Function.update s.phase t (.stored table str res) u).between = true →
      (s.phase u).between = true := by
    intro u hu
    by_cases hut : u = t
    · rw [hut]
      exact hbt
    · rwa [Function.update_of_ne hut] at hu
  refine ⟨fun u v hu hv => h.alone u v (hbetween u hu) (hbetween v hv), fun u tb k r hu => ?_,
    fun u tb k iid hm => ?_, fun u tb k u' tb' k' iid hm hm' => ?_⟩
  · by_cases hut : u = t
    · subst hut
      simp [Interning.setPhase] at hu
    · simp only [Interning.setPhase, Function.update_of_ne hut] at hu
      exact h.read u tb k r hu
  · rcases mem_stored.mp hm with hm | ⟨rfl, rfl, he⟩
    · rcases h.entries u tb k iid hm with hlt | ⟨he, -, -⟩
      · exact Or.inl hlt
      · exact absurd (he.trans hres.symm) (hfresh u tb k iid hm)
    · rw [Prod.mk.injEq] at he
      obtain ⟨rfl, rfl⟩ := he
      exact Or.inr ⟨hres, iid, by simp [Interning.setPhase]⟩
  · rcases mem_stored.mp hm with hold | ⟨rfl, rfl, he⟩ <;>
      rcases mem_stored.mp hm' with hold' | ⟨rfl, rfl, he'⟩
    · exact h.unique u tb k u' tb' k' iid hold hold'
    · exact absurd (Prod.mk.inj he').2 (hfresh u tb k iid hold)
    · exact absurd (Prod.mk.inj he).2 (hfresh u' tb' k' iid hold')
    · exact ⟨rfl, rfl, (Prod.mk.inj he).1.trans (Prod.mk.inj he').1.symm⟩

/-- Adding: every entry is below the new value, and no thread holds the old one. -/
theorem InternInv.add (h : InternInv s) {t : ℕ} {table : Table} {str : Ptr} {res : UInt32}
    (hp : s.phase t = .stored table str res) (hwrap : s.currentInterningId.toNat + 1 < 2 ^ 32) :
    InternInv { s.setPhase t .idle with currentInterningId := s.currentInterningId + 1 } := by
  have hbt : (s.phase t).between = true := by
    rw [hp]
    rfl
  have hnone : ∀ u, (Function.update s.phase t .idle u).between = false := by
    intro u
    by_cases hut : u = t
    · rw [hut, Function.update_self]
      rfl
    · rw [Function.update_of_ne hut]
      by_contra hb
      exact hut (h.alone u t (by simpa using hb) hbt)
  have hsucc : (s.currentInterningId + 1).toNat = s.currentInterningId.toNat + 1 := by
    rw [UInt32.toNat_add]
    simp only [UInt32.toNat_one]
    omega
  refine ⟨fun u v hu _ => ?_, fun u tb k r hu => ?_, fun u tb k iid hm => Or.inl ?_, h.unique⟩
  · exact absurd (hu.symm.trans (hnone u)) (by decide)
  · have hb := hnone u
    have hu' : Function.update s.phase t .idle u = .read tb k r := hu
    rw [hu'] at hb
    exact absurd hb.symm Bool.false_ne_true
  · show iid.toNat < (s.currentInterningId + 1).toNat
    rw [hsucc]
    rcases h.entries u tb k iid hm with hlt | ⟨rfl, -⟩
    · omega
    · omega

/-- A step of one thread, the counter read by one thread at a time. -/
theorem internInv_step {e : InternStep} (h : InternInv s) (hok : ReadsAlone s e) (hs : s.step e = some s') :
    InternInv s' := by
  cases e with
  | find t table str =>
    simp only [Interning.step] at hs
    split at hs
    · rename_i hi
      split at hs
      · obtain rfl := Option.some.inj hs
        exact h
      · obtain rfl := Option.some.inj hs
        exact h.setPhase (by rw [hi]; rfl) nofun nofun
    · exact absurd hs.symm (Option.some_ne_none _)
  | read t =>
    simp only [Interning.step] at hs
    split at hs
    · rename_i table str hi
      obtain rfl := Option.some.inj hs
      refine h.setPhase (by rw [hi]; rfl) (fun _ => hok) fun table' str' res hr => ?_
      injection hr with _ _ hres
      exact hres.symm
    · exact absurd hs.symm (Option.some_ne_none _)
  | store t =>
    simp only [Interning.step] at hs
    split at hs
    · rename_i table str res hp
      obtain rfl := Option.some.inj hs
      exact h.store hp
    · exact absurd hs.symm (Option.some_ne_none _)
  | add t =>
    simp only [Interning.step] at hs
    split at hs
    · rename_i table str res hp
      obtain rfl := Option.some.inj hs
      exact h.add hp hok
    · exact absurd hs.symm (Option.some_ne_none _)

/-- **Interned ids are unique** in every run that reads the counter for one
thread at a time. -/
theorem uniqueIids (h : Reach (· = {}) (fun s e s' => Interning.step s e = some s') ReadsAlone s) :
    UniqueIids s := by
  have hinv : InternInv s := by
    refine Reach.inv (P := InternInv) ?_ (fun _ _ _ hi hok hs => internInv_step hi hok hs) h
    rintro _ rfl
    exact ⟨nofun, nofun, nofun, nofun⟩
  intro t table str t' table' str' iid hm hm'
  obtain ⟨ht, -, hstr⟩ := hinv.unique t table str t' table' str' iid hm hm'
  exact ⟨ht, hstr⟩

/-- Two threads one after the other. -/
theorem uniqueIids_sequential :
    ∃ s, run Interning.step {} [.find 0 .event 7, .read 0, .store 0, .add 0, .find 1 .event 7, .read 1, .store 1, .add 1]
        = some s ∧ s.tables 0 .event = [(7, 1)] ∧ s.tables 1 .event = [(7, 2)] ∧ UniqueIids s := by
  refine ⟨_, rfl, rfl, rfl, uniqueIids ?_⟩
  have h0 : Reach (· = {}) (fun s e s' => Interning.step s e = some s') ReadsAlone {} := .init rfl
  have h1 := h0.step (a := .find 0 .event 7) (by exact trivial) rfl
  have h2 := h1.step (a := .read 0) (by intro u hu; simp [Interning.setPhase, hu, Phase.between]) rfl
  have h3 := h2.step (a := .store 0) (by exact trivial) rfl
  have h4 := h3.step (a := .add 0) (by show (1 : UInt32).toNat + 1 < 2 ^ 32; decide) rfl
  have h5 := h4.step (a := .find 1 .event 7) (by exact trivial) rfl
  have h6 := h5.step (a := .read 1) (by
    intro u hu
    by_cases h0 : u = 0
    · subst h0
      rfl
    · simp [Interning.setPhase, hu, Phase.between]) rfl
  have h7 := h6.step (a := .store 1) (by exact trivial) rfl
  exact h7.step (a := .add 1) (by show (2 : UInt32).toNat + 1 < 2 ^ 32; decide) rfl

/-- Two threads read the counter before either adds to it: one id for two entries. -/
theorem sharedIid :
    ∃ s, Reach (· = {}) (fun s e s' => Interning.step s e = some s') (fun _ _ => True) s ∧ ¬ UniqueIids s := by
  have h0 : Reach (· = {}) (fun s e s' => Interning.step s e = some s') (fun _ _ => True) {} := .init rfl
  have h1 := Reach.run [.find 0 .event 7, .find 1 .event 8, .read 0, .read 1, .store 0, .store 1, .add 0, .add 1]
    (fun _ _ => trivial) h0 rfl
  refine ⟨_, h1, fun hunique => ?_⟩
  have h01 := hunique 0 .event 7 1 .event 8 1 (List.mem_singleton.mpr rfl) (List.mem_singleton.mpr rfl)
  exact absurd h01.1 (by decide)

end

end Host
end VPerfetto
