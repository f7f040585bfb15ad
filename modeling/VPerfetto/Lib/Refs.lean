/-
# References and definitions

Records of several owners that define things and refer to things. A list of
records is grounded if whatever a record refers to has been defined before it
by its own owner. Being grounded depends on each owner's records alone, so it
survives any reordering that keeps each owner's order.

Key definitions: `Known`, `Grounded`.
Key theorems: `Grounded.snoc`, `Grounded.of_ofOwner`, `eq_of_mem_keys`.
-/
import Mathlib.Data.List.Nodup
import Mathlib.Data.List.Pairwise
import VPerfetto.Lib.Chunks

namespace Refs

open Chunks

section

variable {ι α ρ κ : Type} {defs refs : α → List ρ} {l m : List (ι × α)} {i : ι} {r : ρ}

/-- Owner `i` has defined `r`. -/
def Known (defs : α → List ρ) (l : List (ι × α)) (i : ι) (r : ρ) : Prop :=
  ∃ y ∈ l, y.1 = i ∧ r ∈ defs y.2

/-- Whatever a record refers to is defined before it, by its owner. -/
def Grounded (defs refs : α → List ρ) (l : List (ι × α)) : Prop :=
  ∀ pre x post, l = pre ++ x :: post → ∀ r ∈ refs x.2, Known defs pre x.1 r

theorem Known.append (h : Known defs l i r) (m : List (ι × α)) : Known defs (l ++ m) i r := by
  obtain ⟨y, hy, hi, hr⟩ := h
  exact ⟨y, List.mem_append_left m hy, hi, hr⟩

theorem known_snoc {a : α} (hr : r ∈ defs a) : Known defs (l ++ [(i, a)]) i r :=
  ⟨(i, a), by simp, rfl, hr⟩

theorem grounded_nil : Grounded defs refs ([] : List (ι × α)) :=
  fun _ _ _ h => absurd h.symm (by simp)

/-- One more record, whose references are known. -/
theorem Grounded.snoc (h : Grounded defs refs l) {x : ι × α} (hx : ∀ r ∈ refs x.2, Known defs l x.1 r) :
    Grounded defs refs (l ++ [x]) := by
  intro pre y post hl r hr
  rcases List.eq_nil_or_concat post with rfl | ⟨post', z, rfl⟩
  · obtain ⟨rfl, rfl⟩ := List.append_singleton_inj.mp hl
    exact hx r hr
  · rw [List.concat_eq_append, ← List.cons_append, ← List.append_assoc] at hl
    obtain ⟨rfl, -⟩ := List.append_singleton_inj.mp hl
    exact h pre y post' rfl r hr

/-- The place of a record among its owner's records is its place in the list. -/
theorem exists_split_of_ofOwner [DecidableEq ι] {x : ι × α} {pre post : List (ι × α)}
    (h : ofOwner i l = pre ++ x :: post) :
    ∃ pre' post', l = pre' ++ x :: post' ∧ ofOwner i pre' = pre := by
  obtain ⟨l₁, l₂, rfl, h1, h2⟩ := List.filter_eq_append_iff.mp h
  obtain ⟨k₁, k₂, rfl, hk, -, -⟩ := List.filter_eq_cons_iff.mp h2
  refine ⟨l₁ ++ k₁, k₂, by simp, ?_⟩
  unfold ofOwner
  rw [List.filter_append, h1, List.filter_eq_nil_iff.mpr hk, List.append_nil]

/-- **Reordering the owners does not matter.** -/
theorem Grounded.of_ofOwner [DecidableEq ι] (h : Grounded defs refs l)
    (hown : ∀ i, ofOwner i m = ofOwner i l) : Grounded defs refs m := by
  rintro pre x post rfl r hr
  have hx := hown x.1
  rw [ofOwner_append, show ofOwner x.1 (x :: post) = x :: ofOwner x.1 post by simp [ofOwner]] at hx
  obtain ⟨pre', post', rfl, hpre⟩ := exists_split_of_ofOwner hx.symm
  obtain ⟨y, hy, hi, hd⟩ := h pre' x post' rfl r hr
  have hmem : y ∈ ofOwner x.1 pre' := List.mem_filter.mpr ⟨hy, by simpa using hi⟩
  rw [hpre] at hmem
  exact ⟨y, (List.mem_filter.mp hmem).1, hi, hd⟩

/-- A key that is given once belongs to one record. -/
theorem eq_of_mem_keys {β : Type} {keys : β → List κ} {l : List β} (h : (l.flatMap keys).Nodup) {x y : β}
    (hx : x ∈ l) (hy : y ∈ l) {k : κ} (hkx : k ∈ keys x) (hky : k ∈ keys y) : x = y := by
  by_contra hne
  obtain ⟨-, hdisjoint⟩ := List.nodup_flatMap.mp h
  have hsymm : Std.Symm (Function.onFun List.Disjoint keys) := ⟨fun _ _ hd _ hx hy => hd hy hx⟩
  exact hdisjoint.forall hx hy hne hkx hky

/-- One more record, whose keys are new. -/
theorem nodup_keys_snoc {β : Type} {keys : β → List κ} {l : List β} (h : (l.flatMap keys).Nodup) {x : β}
    (hx : (keys x).Nodup) (hnew : ∀ k ∈ keys x, ∀ y ∈ l, k ∉ keys y) : ((l ++ [x]).flatMap keys).Nodup := by
  rw [List.flatMap_append, List.flatMap_singleton, List.nodup_append]
  refine ⟨h, hx, ?_⟩
  rintro k hk _ hk' rfl
  obtain ⟨y, hy, hky⟩ := List.mem_flatMap.mp hk
  exact hnew k hk' y hy hky

end

end Refs
