/-
# Reading with tables

A reader of records keeps a state, to which every record adds what it defines,
and makes of a record what its state says. If at every record the state tells
what the record is, the whole list is read (`readAll_eq`). The states here are
tables to which entries are added in front; a key with one value in the table
is found (`lookup_of_unique`).

Key definitions: `readAll`, `addEntries`.
Key theorems: `readAll_eq`, `readAll_append`, `readAll_mono`, `readAll_image`, `mem_addEntries`, `lookup_of_unique`,
`filter_filterMap_of_iff`.
-/
import Mathlib.Data.List.Basic

namespace Tables

section

variable {α κ β γ σ : Type}

/-- What a reader makes of the records; a record counts for itself. -/
def readAll (learn : σ → α → σ) (look : σ → α → Option (Option γ)) : σ → List α → Option (List γ)
  | _, [] => some []
  | s, x :: xs => do
    let y ← look (learn s x) x
    let ys ← readAll learn look (learn s x) xs
    return y.toList ++ ys

theorem readAll_eq {learn : σ → α → σ} {look : σ → α → Option (Option γ)} {f : α → Option γ} :
    ∀ {s : σ} (l : List α),
    (∀ pre x post, l = pre ++ x :: post → look ((pre ++ [x]).foldl learn s) x = some (f x)) →
    readAll learn look s l = some (l.filterMap f)
  | s, [], _ => rfl
  | s, x :: l, h => by
    have hx : look (learn s x) x = some (f x) := h [] x l rfl
    have hl : readAll learn look (learn s x) l = some (l.filterMap f) :=
      readAll_eq l fun pre y post hl => h (x :: pre) y post (congrArg (x :: ·) hl)
    rw [readAll, hx, Option.bind_eq_bind, Option.bind_some, hl, Option.bind_eq_bind, Option.bind_some]
    cases hf : f x with
    | none => rw [List.filterMap_cons_none hf]; rfl
    | some y => rw [List.filterMap_cons_some hf]; rfl

theorem readAll_map {α' : Type} (learn : σ → α → σ) (look : σ → α → Option (Option γ)) (g : α' → α) :
    ∀ (s : σ) (l : List α'), readAll learn look s (l.map g) =
      readAll (fun s x => learn s (g x)) (fun s x => look s (g x)) s l
  | _, [] => rfl
  | s, x :: l => by
    rw [List.map_cons, readAll, readAll]
    simp only [readAll_map learn look g _ l]

/-- What can be read from a state can be read from one that knows as much, where records teach both alike. -/
theorem readAll_mono {learn : σ → α → σ} {look : σ → α → Option (Option γ)} {R : σ → σ → Prop}
    (hlearn : ∀ s t x, R s t → R (learn s x) (learn t x))
    (hlook : ∀ s t x y, R s t → look s x = some y → look t x = some y) :
    ∀ {s t : σ} {l : List α} {ys : List γ}, R s t → readAll learn look s l = some ys →
      readAll learn look t l = some ys
  | s, t, [], ys, _, hl => hl
  | s, t, x :: l, ys, hR, hl => by
    have hR' : R (learn s x) (learn t x) := hlearn s t x hR
    obtain ⟨y, hy, hl⟩ := Option.bind_eq_some_iff.mp hl
    obtain ⟨ys', hys', hl⟩ := Option.bind_eq_some_iff.mp hl
    have hy' := hlook _ _ x y hR' hy
    have ih := readAll_mono hlearn hlook hR' hys'
    rw [readAll, hy', Option.bind_eq_bind, Option.bind_some, ih]
    exact hl

/-- Records changed in what the reader does not learn from, and shown changed alike. -/
theorem readAll_image {learn : σ → α → σ} {look : σ → α → Option (Option γ)} {g : α → α} {k : γ → γ}
    (hlearn : ∀ s x, learn s (g x) = learn s x) (hlook : ∀ s x, look s (g x) = (look s x).map (Option.map k))
    (s : σ) (l : List α) : readAll learn look s (l.map g) = (readAll learn look s l).map (List.map k) := by
  induction l generalizing s with
  | nil => rfl
  | cons x l ih =>
    rw [List.map_cons, readAll, readAll, hlearn, hlook, ih]
    cases look (learn s x) x with
    | none => rfl
    | some y =>
      cases readAll learn look (learn s x) l with
      | none => rfl
      | some ys => cases y <;> rfl

/-- The table with the entries of the records, the latest in front. -/
def addEntries (entries : α → List (κ × β)) (table : List (κ × β)) (l : List α) : List (κ × β) :=
  l.foldl (fun t x => entries x ++ t) table

theorem mem_addEntries {entries : α → List (κ × β)} {e : κ × β} : ∀ {table : List (κ × β)} {l : List α},
    e ∈ addEntries entries table l ↔ e ∈ table ∨ ∃ x ∈ l, e ∈ entries x
  | table, [] => by simp [addEntries]
  | table, x :: l => by
    have ih : e ∈ addEntries entries (entries x ++ table) l ↔ e ∈ entries x ++ table ∨ ∃ y ∈ l, e ∈ entries y :=
      mem_addEntries
    rw [addEntries, List.foldl_cons, ← addEntries, ih, List.mem_append, List.exists_mem_cons_iff, or_assoc,
      or_left_comm]

/-- A key with one value is found. -/
theorem lookup_of_unique [BEq κ] [LawfulBEq κ] {table : List (κ × β)} {k : κ} {v : β} (hm : (k, v) ∈ table)
    (hu : ∀ w, (k, w) ∈ table → w = v) : table.lookup k = some v := by
  have hsome : (table.lookup k).isSome = true := List.lookup_isSome_iff.mpr ⟨(k, v), hm, beq_self_eq_true k⟩
  obtain ⟨w, hw⟩ := Option.isSome_iff_exists.mp hsome
  obtain ⟨l₁, l₂, hl, -⟩ := List.lookup_eq_some_iff.mp hw
  have hmem : (k, w) ∈ table := by
    rw [hl]
    exact List.mem_append_right _ List.mem_cons_self
  rw [hw, hu w hmem]

/-- Choosing among the images is choosing among the records. -/
theorem filter_filterMap_of_iff {f : α → Option β} {p : β → Bool} {q : α → Bool} {l : List α}
    (h : ∀ x ∈ l, ∀ y, f x = some y → p y = q x) : (l.filterMap f).filter p = (l.filter q).filterMap f := by
  rw [List.filter_filterMap, List.filterMap_filter]
  apply List.filterMap_congr
  intro x hx
  cases hf : f x with
  | none => simp
  | some y => simp [h x hx y hf, Option.filter]

end

end Tables
