/-
# Spans

What is drawn of a track: a mark opens a span or closes the one opened last,
which has to have its name. If no mark is earlier than the one before it, the
spans drawn nest: each is over when it ends, and of two of them the one ends
before the other begins or lies in it.

Key definitions: `Mark`, `Span`, `Drawing.add`, `draw`, `Nested`.
Key theorem: `Nested.add`.
-/
import Mathlib.Order.Basic
import VPerfetto.Lib.Runs

namespace Spans

open Runs

/-- A span opens or closes. -/
inductive Mark (τ ν : Type) where
  | opens (time : τ) (name : ν)
  | closes (time : τ) (name : ν)
deriving DecidableEq, Repr

def Mark.time {τ ν : Type} : Mark τ ν → τ
  | .opens time _ => time
  | .closes time _ => time

structure Span (τ ν : Type) where
  name : ν
  start : τ
  stop : τ
deriving DecidableEq, Repr

/-- The spans in the order in which they were closed, and the names and times
of those that are open, from the innermost. -/
structure Drawing (τ ν : Type) where
  spans : List (Span τ ν) := []
  opened : List (ν × τ) := []
deriving DecidableEq, Repr

section

variable {τ ν : Type} [DecidableEq ν]

def Drawing.add (d : Drawing τ ν) : Mark τ ν → Option (Drawing τ ν)
  | .opens time name => some { d with opened := (name, time) :: d.opened }
  | .closes time name =>
    match d.opened with
    | [] => none
    | (opened, start) :: rest =>
      if opened = name then some { spans := d.spans ++ [⟨name, start, time⟩], opened := rest } else none

/-- Nothing is drawn of marks that do not match. -/
def draw (marks : List (Mark τ ν)) : Option (Drawing τ ν) := run Drawing.add {} marks

theorem draw_append {marks : List (Mark τ ν)} {m : Mark τ ν} {d : Drawing τ ν} (h : draw marks = some d) :
    draw (marks ++ [m]) = d.add m := by
  unfold draw at h ⊢
  rw [run_append, h]
  exact Option.bind_fun_some (d.add m)

end

section

variable {τ ν : Type} [Preorder τ]

/-- Spans that are over when they end, one in another or beside it. -/
structure Nested (d : Drawing τ ν) : Prop where
  start_le : ∀ a ∈ d.spans, a.start ≤ a.stop
  opened : d.opened.Pairwise fun inner outer => outer.2 ≤ inner.2
  spans : d.spans.Pairwise fun a b => a.stop ≤ b.stop ∧ (a.stop ≤ b.start ∨ b.start ≤ a.start)
  between : ∀ a ∈ d.spans, ∀ b ∈ d.opened, a.stop ≤ b.2 ∨ b.2 ≤ a.start

/-- Nothing has been drawn after this time. -/
structure Until (now : τ) (d : Drawing τ ν) : Prop where
  stop_le : ∀ a ∈ d.spans, a.stop ≤ now
  opened_le : ∀ b ∈ d.opened, b.2 ≤ now

theorem nested_empty : Nested ({} : Drawing τ ν) := ⟨nofun, .nil, .nil, nofun⟩

theorem until_empty (now : τ) : Until now ({} : Drawing τ ν) := ⟨nofun, nofun⟩

theorem Until.mono {d : Drawing τ ν} {now later : τ} (h : Until now d) (hle : now ≤ later) : Until later d :=
  ⟨fun a ha => (h.stop_le a ha).trans hle, fun b hb => (h.opened_le b hb).trans hle⟩

variable [DecidableEq ν]

/-- **Marks in the order of time keep spans nested.** -/
theorem Nested.add {d d' : Drawing τ ν} {m : Mark τ ν} (h : Nested d) (hu : Until m.time d) (hm : d.add m = some d') :
    Nested d' ∧ Until m.time d' := by
  cases m with
  | opens time name =>
    obtain rfl := Option.some.inj hm
    refine ⟨⟨h.start_le, ?_, h.spans, fun a ha b hb => ?_⟩, ⟨hu.stop_le, fun b hb => ?_⟩⟩
    · exact List.pairwise_cons.mpr ⟨fun b hb => hu.opened_le b hb, h.opened⟩
    · rcases List.mem_cons.mp hb with rfl | hb
      · exact Or.inl (hu.stop_le a ha)
      · exact h.between a ha b hb
    · rcases List.mem_cons.mp hb with rfl | hb
      · exact le_refl _
      · exact hu.opened_le b hb
  | closes time name =>
    simp only [Drawing.add] at hm
    split at hm
    · exact absurd hm.symm (Option.some_ne_none _)
    · rename_i name' start rest hopened
      obtain ⟨rfl, hm⟩ := Option.ite_none_right_eq_some.mp hm
      obtain rfl := Option.some.inj hm
      have hinner : (name', start) ∈ d.opened := by
        rw [hopened]
        exact List.mem_cons_self
      have hrest : ∀ b ∈ rest, b ∈ d.opened := by
        intro b hb
        rw [hopened]
        exact List.mem_cons_of_mem _ hb
      have hsorted := h.opened
      rw [hopened, List.pairwise_cons] at hsorted
      have hstart : start ≤ time := hu.opened_le _ hinner
      refine ⟨⟨fun a ha => ?_, hsorted.2, ?_, fun a ha b hb => ?_⟩, ⟨fun a ha => ?_, fun b hb => ?_⟩⟩
      · rcases List.mem_append.mp ha with ha | ha
        · exact h.start_le a ha
        · obtain rfl := List.mem_singleton.mp ha
          exact hstart
      · refine List.pairwise_append.mpr ⟨h.spans, List.pairwise_singleton _ _, fun a ha b hb => ?_⟩
        obtain rfl := List.mem_singleton.mp hb
        exact ⟨hu.stop_le a ha, h.between a ha _ hinner⟩
      · rcases List.mem_append.mp ha with ha | ha
        · exact h.between a ha b (hrest b hb)
        · obtain rfl := List.mem_singleton.mp ha
          exact Or.inr (hsorted.1 b hb)
      · rcases List.mem_append.mp ha with ha | ha
        · exact hu.stop_le a ha
        · obtain rfl := List.mem_singleton.mp ha
          exact le_refl _
      · exact hu.opened_le b (hrest b hb)

end

end Spans
