/-
# Things that are in one place at a time

Locks held by threads, or blocks of memory in the hands of this or that: each
place has a list of things, a table says for each thing where it is, and
`Owned` says that the two agree. So nothing is in two places or in one place
twice (`Owned.exclusive`), and what a step does to the places is to put a thing
somewhere (`Owned.insert`), to take it away (`Owned.erase`), or both (`Owned.move`).

Key definition: `Owned`.
Key theorems: `Owned.exclusive`, `Owned.insert`, `Owned.erase`, `Owned.move`, `Owned.move_some`.
-/
import Mathlib.Data.List.Perm.Basic
import Mathlib.Logic.Function.Basic

namespace Ownership

variable {ι π : Type} [DecidableEq ι] [DecidableEq π]

/-- The table says where each thing is, and no place has it twice. -/
structure Owned (place : ι → Option π) (holds : π → List ι) : Prop where
  mem_iff : ∀ x p, place x = some p ↔ x ∈ holds p
  nodup : ∀ p, (holds p).Nodup

section

variable {place : ι → Option π} {holds holds' : π → List ι} {x : ι} {p q : π}

omit [DecidableEq ι] [DecidableEq π] in
/-- **One place at a time.** -/
theorem Owned.exclusive (h : Owned place holds) (hp : x ∈ holds p) (hq : x ∈ holds q) : p = q :=
  Option.some.inj (((h.mem_iff x p).mpr hp).symm.trans ((h.mem_iff x q).mpr hq))

omit [DecidableEq ι] [DecidableEq π] in
theorem Owned.not_mem_of_none (h : Owned place holds) (hx : place x = none) (p : π) : x ∉ holds p := by
  rw [← h.mem_iff, hx]
  exact (Option.some_ne_none p).symm

omit [DecidableEq ι] [DecidableEq π] in
/-- The order in a place does not matter. -/
theorem Owned.perm (h : Owned place holds) (hp : ∀ p, (holds' p).Perm (holds p)) : Owned place holds' :=
  ⟨fun x p => (h.mem_iff x p).trans (hp p).mem_iff.symm, fun p => (hp p).nodup_iff.mpr (h.nodup p)⟩

omit [DecidableEq π] in
/-- A thing that was nowhere is put somewhere. -/
theorem Owned.insert (h : Owned place holds) (hx : place x = none) (hp : (holds' p).Perm (x :: holds p))
    (hrest : ∀ q, q ≠ p → holds' q = holds q) : Owned (Function.update place x (some p)) holds' := by
  refine ⟨fun y q => ?_, fun q => ?_⟩
  · rcases eq_or_ne q p with rfl | hq
    · rw [hp.mem_iff, List.mem_cons, ← h.mem_iff]
      rcases eq_or_ne y x with rfl | hy
      · simp
      · simp [hy]
    · rw [hrest q hq, ← h.mem_iff]
      rcases eq_or_ne y x with rfl | hy
      · simp [hx, Ne.symm hq]
      · simp [hy]
  · rcases eq_or_ne q p with rfl | hq
    · rw [hp.nodup_iff, List.nodup_cons]
      exact ⟨h.not_mem_of_none hx q, h.nodup q⟩
    · rw [hrest q hq]
      exact h.nodup q

omit [DecidableEq π] in
/-- A thing is taken away. -/
theorem Owned.erase (h : Owned place holds) (hp : (holds p).Perm (x :: holds' p))
    (hrest : ∀ q, q ≠ p → holds' q = holds q) : Owned (Function.update place x none) holds' := by
  have hnodup := h.nodup p
  rw [hp.nodup_iff, List.nodup_cons] at hnodup
  have hx : place x = some p := by
    rw [h.mem_iff, hp.mem_iff]
    exact List.mem_cons_self
  refine ⟨fun y q => ?_, fun q => ?_⟩
  · rcases eq_or_ne y x with rfl | hy
    · rw [Function.update_self]
      refine iff_of_false (Option.some_ne_none q).symm fun hmem => ?_
      rcases eq_or_ne q p with rfl | hq
      · exact hnodup.1 hmem
      · rw [hrest q hq, ← h.mem_iff, hx] at hmem
        exact hq (Option.some.inj hmem).symm
    · rw [Function.update_of_ne hy, h.mem_iff]
      rcases eq_or_ne q p with rfl | hq
      · rw [hp.mem_iff, List.mem_cons]
        exact or_iff_right hy
      · rw [hrest q hq]
  · rcases eq_or_ne q p with rfl | hq
    · exact hnodup.2
    · rw [hrest q hq]
      exact h.nodup q

/-- A thing goes from one place to another. -/
theorem Owned.move (h : Owned place holds) (hpq : p ≠ q) (hp : (holds p).Perm (x :: holds' p))
    (hq : (holds' q).Perm (x :: holds q)) (hrest : ∀ r, r ≠ p → r ≠ q → holds' r = holds r) :
    Owned (Function.update place x (some q)) holds' := by
  have hp' : Function.update holds p (holds' p) p = holds' p := Function.update_self p (holds' p) holds
  have haway : Owned (Function.update place x none) (Function.update holds p (holds' p)) := by
    refine h.erase (p := p) (hp'.symm ▸ hp) fun r hr => Function.update_of_ne hr _ _
  have hq' : (holds' q).Perm (x :: Function.update holds p (holds' p) q) := by
    rw [Function.update_of_ne (Ne.symm hpq)]
    exact hq
  have hback := haway.insert (Function.update_self x none place) hq' fun r hr => ?_
  · rwa [Function.update_idem] at hback
  · rcases eq_or_ne r p with rfl | hrp
    · exact hp'.symm
    · rw [Function.update_of_ne hrp]
      exact hrest r hrp hr

/-- What goes from one place to another, if anything, leaves the same things somewhere. -/
theorem Owned.move_some {all : ι → Prop} (h : ∃ place, Owned place holds ∧ ∀ x, (place x).isSome = true ↔ all x)
    (hpq : p ≠ q) (data : Option ι) (hp : (holds p).Perm (data.toList ++ holds' p))
    (hq : (holds' q).Perm (data.toList ++ holds q)) (hrest : ∀ r, r ≠ p → r ≠ q → holds' r = holds r) :
    ∃ place, Owned place holds' ∧ ∀ x, (place x).isSome = true ↔ all x := by
  obtain ⟨place, howned, hall⟩ := h
  cases data with
  | none =>
    refine ⟨place, howned.perm fun r => ?_, hall⟩
    rcases eq_or_ne r p with rfl | hrp
    · exact hp.symm
    · rcases eq_or_ne r q with rfl | hrq
      · exact hq
      · exact List.Perm.of_eq (hrest r hrp hrq)
  | some x =>
    refine ⟨_, howned.move hpq hp hq hrest, fun y => ?_⟩
    rcases eq_or_ne y x with rfl | hy
    · have hplace : place y = some p := by
        rw [howned.mem_iff, hp.mem_iff]
        exact List.mem_cons_self
      rw [Function.update_self, ← hall, hplace]
      simp
    · rw [Function.update_of_ne hy]
      exact hall y

end

end Ownership
