/-
# Chained chunks

Each owner appends records to a chunk of its own. A chunk that is full, or
whose owner leaves, is moved to a shared list, and at the end the shared list
is written out in two passes, the chunks with the mark first. This file says
when no record is lost, duplicated or moved against its owner's order: the
store keeps `Inv` with the log of all records, in the order they were
appended, and `written_spec` reads the file off it.

Key definitions: `Store`, `put`, `save`, `written`, `Holds`, `Inv`.
Key theorems: `Holds.written_perm`, `Inv.start`, `Inv.put`, `Inv.save`, `Inv.written_spec`.
-/
import Mathlib.Data.List.Perm.Basic
import Mathlib.Logic.Function.Basic

namespace Chunks

/-- Records moved to the shared list: whose they are and whether they carry
the mark. -/
structure Chunk (ι α : Type) where
  owner : ι
  first : Bool
  data : List α

/-- Each owner's current chunk and mark, and the shared list. -/
structure Store (ι α : Type) where
  current : ι → Option (List α) := fun _ => none
  first : ι → Bool := fun _ => false
  saved : List (Chunk ι α) := []

section Ops

variable {ι α : Type} [DecidableEq ι]

/-- Move the current chunk, if there is one, to the shared list. -/
def save (i : ι) (s : Store ι α) : Store ι α where
  current := Function.update s.current i none
  first := Function.update s.first i false
  saved := match s.current i with
    | none => s.saved
    | some d => s.saved ++ [⟨i, s.first i, d⟩]

/-- Append a record to the current chunk, a new one if there is none. -/
def push (i : ι) (a : α) (s : Store ι α) : Store ι α :=
  { s with current := Function.update s.current i (some ((s.current i).getD [] ++ [a])) }

/-- Append a record; a chunk that is full is moved away first. -/
def put (i : ι) (full : Bool) (a : α) (s : Store ι α) : Store ι α :=
  push i a (if full && (s.current i).isSome then save i s else s)

/-- Append records one after another; `full` says before which of them the
chunk is full. -/
def putAll (i : ι) : (ℕ → Bool) → List α → Store ι α → Store ι α
  | _, [], s => s
  | full, a :: as, s => putAll i (fun n => full (n + 1)) as (put i (full 0) a s)

/-- Move the chunks of several owners, one after another. -/
def saveAll (is : List ι) (s : Store ι α) : Store ι α := is.foldl (fun s i => save i s) s

def mark (i : ι) (s : Store ι α) : Store ι α :=
  { s with first := Function.update s.first i true }

/-- The chunks in the order they are written. -/
def writeOrder (cs : List (Chunk ι α)) : List (Chunk ι α) :=
  cs.filter (fun c => c.first) ++ cs.filter (fun c => !c.first)

/-- The records of a list of chunks, with their owners. -/
def records (cs : List (Chunk ι α)) : List (ι × α) := cs.flatMap fun c => c.data.map (c.owner, ·)

def written (s : Store ι α) : List (ι × α) := records (writeOrder s.saved)

/-- The records of one owner. -/
def ofOwner (i : ι) (l : List (ι × α)) : List (ι × α) := l.filter fun p => p.1 = i

/-! ### The invariant -/

/-- The store holds the log `L`: for each owner its records, in its order. -/
def Holds (s : Store ι α) (L : List (ι × α)) : Prop :=
  ∀ i, ofOwner i (records s.saved) ++ ((s.current i).getD []).map (i, ·) = ofOwner i L

/-- The store holds `L`, and the mark is on the first chunk of the log's first
owner and nowhere else. -/
structure Inv (s : Store ι α) (L : List (ι × α)) : Prop where
  contents : Holds s L
  saved_ne : ∀ c ∈ s.saved, c.data ≠ []
  current_ne : ∀ i, s.current i ≠ some []
  first_current : ∀ i, s.first i = true → L.head?.map (·.1) = some i ∧ ∀ c ∈ s.saved, c.owner ≠ i
  first_saved : ∀ c ∈ s.saved, c.first = true → L.head?.map (·.1) = some c.owner
  first_earliest : s.saved.Pairwise fun a b => b.first = true → a.owner ≠ b.owner
  first_exists : ∀ i, L.head?.map (·.1) = some i →
    s.first i = true ∨ ∃ c ∈ s.saved, c.owner = i ∧ c.first = true

@[simp] theorem ofOwner_append (i : ι) (l m : List (ι × α)) :
    ofOwner i (l ++ m) = ofOwner i l ++ ofOwner i m := by
  simp [ofOwner]

omit [DecidableEq ι] in
@[simp] theorem records_append (cs ds : List (Chunk ι α)) :
    records (cs ++ ds) = records cs ++ records ds := by
  simp [records]

theorem ofOwner_records_cons (i : ι) (c : Chunk ι α) (cs : List (Chunk ι α)) :
    ofOwner i (records (c :: cs))
      = (if c.owner = i then c.data.map (i, ·) else []) ++ ofOwner i (records cs) := by
  unfold ofOwner records
  rw [List.flatMap_cons, List.filter_append]
  congr 1
  by_cases hi : c.owner = i
  · subst hi
    simp [List.filter_eq_self.mpr]
  · simp [hi]

theorem ofOwner_records_nil (i : ι) {cs : List (Chunk ι α)} (h : ∀ c ∈ cs, c.owner ≠ i) :
    ofOwner i (records cs) = [] := by
  induction cs with
  | nil => rfl
  | cons c cs ih =>
    rw [ofOwner_records_cons, if_neg (h c List.mem_cons_self),
      ih fun d hd => h d (List.mem_cons_of_mem c hd)]
    rfl

/-- Records are determined up to order by the records of each owner. -/
theorem perm_of_ofOwner {l m : List (ι × α)} (h : ∀ i, ofOwner i l = ofOwner i m) : l.Perm m := by
  classical
  rw [List.perm_iff_count]
  intro hex
  obtain ⟨i, a⟩ := hex
  have hcount : ∀ l : List (ι × α), l.count (i, a) = (ofOwner i l).count (i, a) := by
    intro l
    unfold ofOwner
    rw [List.count_filter]
    simp
  rw [hcount l, hcount m, h i]

/-- Writing the marked chunks first keeps each owner's order, as a marked
chunk is the earliest of its owner. -/
theorem ofOwner_writeOrder (i : ι) : ∀ {cs : List (Chunk ι α)},
    cs.Pairwise (fun a b => b.first = true → a.owner ≠ b.owner) →
    ofOwner i (records (writeOrder cs)) = ofOwner i (records cs)
  | [], _ => rfl
  | c :: cs, h => by
    obtain ⟨hc, hcs⟩ := List.pairwise_cons.mp h
    have ih := ofOwner_writeOrder i hcs
    unfold writeOrder at ih ⊢
    rw [records_append, ofOwner_append] at ih
    by_cases hf : c.first = true
    · simp only [hf, List.filter_cons_of_pos, Bool.not_true, Bool.false_eq_true, not_false_eq_true,
        List.filter_cons_of_neg, records_append, ofOwner_append]
      rw [ofOwner_records_cons, ofOwner_records_cons, List.append_assoc, ih]
    · simp only [hf, not_false_eq_true, List.filter_cons_of_neg, Bool.not_false,
        List.filter_cons_of_pos, records_append, ofOwner_append, Bool.false_eq_true]
      rw [ofOwner_records_cons, ofOwner_records_cons, ← ih]
      by_cases hi : c.owner = i
      · have hnone : ofOwner i (records (cs.filter fun c => c.first)) = [] := by
          refine ofOwner_records_nil i fun d hd he => ?_
          obtain ⟨hd, hdf⟩ := List.mem_filter.mp hd
          exact hc d hd hdf (hi.trans he.symm)
        simp [hnone]
      · simp [hi]

/-! ### Other owners are left alone -/

theorem put_of_ne (s : Store ι α) {i j : ι} (hj : j ≠ i) (full : Bool) (a : α) :
    (put i full a s).current j = s.current j ∧ (put i full a s).first j = s.first j := by
  unfold put push
  split <;> simp [save, hj]

theorem putAll_of_ne {i j : ι} (hj : j ≠ i) : ∀ (full : ℕ → Bool) (as : List α) (s : Store ι α),
    (putAll i full as s).current j = s.current j ∧ (putAll i full as s).first j = s.first j
  | _, [], _ => ⟨rfl, rfl⟩
  | full, a :: as, s => by
    obtain ⟨h1, h2⟩ := putAll_of_ne hj (fun n => full (n + 1)) as (put i (full 0) a s)
    obtain ⟨h3, h4⟩ := put_of_ne s hj (full 0) a
    exact ⟨h1.trans h3, h2.trans h4⟩

theorem mark_of_ne (s : Store ι α) {i j : ι} (hj : j ≠ i) : (mark i s).first j = s.first j := by
  simp [mark, hj]

/-! ### Moving chunks away -/

theorem save_current (s : Store ι α) (i j : ι) :
    (save i s).current j = if j = i then none else s.current j := by
  simp [save, Function.update_apply]

theorem save_first (s : Store ι α) (i j : ι) :
    (save i s).first j = if j = i then false else s.first j := by
  simp [save, Function.update_apply]

theorem saveAll_current (is : List ι) (s : Store ι α) (j : ι) :
    (saveAll is s).current j = if j ∈ is then none else s.current j := by
  induction is generalizing s with
  | nil => simp [saveAll]
  | cons i is ih =>
    have hcons : saveAll (i :: is) s = saveAll is (save i s) := rfl
    rw [hcons, ih, save_current]
    by_cases hj : j = i
    · simp [hj]
    · simp [hj]

theorem saveAll_first (is : List ι) (s : Store ι α) (j : ι) :
    (saveAll is s).first j = if j ∈ is then false else s.first j := by
  induction is generalizing s with
  | nil => simp [saveAll]
  | cons i is ih =>
    have hcons : saveAll (i :: is) s = saveAll is (save i s) := rfl
    rw [hcons, ih, save_first]
    by_cases hj : j = i
    · simp [hj]
    · simp [hj]

/-- An induction over the chunks moved. -/
theorem saveAll_induction {P : Store ι α → Prop} (hsave : ∀ s i, P s → P (save i s)) (is : List ι)
    {s : Store ι α} (h : P s) : P (saveAll is s) := by
  induction is generalizing s with
  | nil => exact h
  | cons i is ih => exact ih (hsave s i h)

/-- What goes well with each chunk moved goes well with all of them. -/
theorem saveAll_comm {g : Store ι α → Store ι α} {is : List ι}
    (hg : ∀ s, ∀ i ∈ is, g (save i s) = save i (g s)) (s : Store ι α) :
    g (saveAll is s) = saveAll is (g s) := by
  induction is generalizing s with
  | nil => rfl
  | cons i is ih =>
    have hhead : g (save i s) = save i (g s) := hg s i List.mem_cons_self
    have htail : g (saveAll is (save i s)) = saveAll is (g (save i s)) :=
      ih (fun s j hj => hg s j (List.mem_cons_of_mem i hj)) (save i s)
    calc g (saveAll (i :: is) s) = saveAll is (g (save i s)) := htail
      _ = saveAll is (save i (g s)) := by rw [hhead]

theorem mark_save {i j : ι} (hj : j ≠ i) (s : Store ι α) : mark i (save j s) = save j (mark i s) := by
  unfold mark save
  rw [Function.update_comm hj.symm]
  simp only [Function.update_of_ne hj]

theorem push_save {i j : ι} (hj : j ≠ i) (a : α) (s : Store ι α) : push i a (save j s) = save j (push i a s) := by
  unfold push save
  rw [Function.update_comm hj.symm]
  simp only [Function.update_of_ne hj, Function.update_of_ne hj.symm]

/-- Records that fit in their owner's chunk. -/
theorem putAll_save {i j : ι} (hj : j ≠ i) (as : List α) (s : Store ι α) :
    putAll i (fun _ => false) as (save j s) = save j (putAll i (fun _ => false) as s) := by
  induction as generalizing s with
  | nil => rfl
  | cons a as ih =>
    have hput : put i false a (save j s) = save j (put i false a s) := push_save hj a s
    show putAll i (fun _ => false) as (put i false a (save j s)) = _
    rw [hput]
    exact ih (put i false a s)

/-! ### The operations keep the invariant -/

variable {s : Store ι α} {L : List (ι × α)}

theorem Holds.save (h : Holds s L) (i : ι) : Holds (save i s) L := by
  intro j
  rw [← h j]
  unfold Chunks.save
  by_cases hj : j = i
  · subst hj
    cases hs : s.current j with
    | none => simp
    | some d =>
      have hd := ofOwner_records_cons j (⟨j, s.first j, d⟩ : Chunk ι α) []
      rw [if_pos rfl, ofOwner_records_nil j fun _ hc => absurd hc List.not_mem_nil, List.append_nil] at hd
      simp [hd]
  · cases hs : s.current i with
    | none => simp [hj]
    | some d =>
      have hd : ofOwner j (records [(⟨i, s.first i, d⟩ : Chunk ι α)]) = [] := ofOwner_records_nil j fun c hc => by
        rw [List.mem_singleton.mp hc]
        exact Ne.symm hj
      simp [hj, hd]

theorem Holds.saveAll (h : Holds s L) (is : List ι) : Holds (saveAll is s) L :=
  saveAll_induction (P := fun s => Holds s L) (fun _ i hs => hs.save i) is h

theorem Holds.push (h : Holds s L) (i : ι) (a : α) : Holds (push i a s) (L ++ [(i, a)]) := by
  intro j
  rw [ofOwner_append, ← h j]
  by_cases hj : j = i
  · subst hj
    simp [Chunks.push, ofOwner]
  · simp [Chunks.push, ofOwner, hj, Ne.symm hj]

theorem Holds.put (h : Holds s L) (i : ι) (full : Bool) (a : α) :
    Holds (put i full a s) (L ++ [(i, a)]) := by
  unfold Chunks.put
  split
  · exact (h.save i).push i a
  · exact h.push i a

theorem Holds.putAll (i : ι) : ∀ (full : ℕ → Bool) (as : List α) {s : Store ι α} {L : List (ι × α)},
    Holds s L → Holds (putAll i full as s) (L ++ as.map (i, ·))
  | _, [], s, L, h => by simpa [Chunks.putAll] using h
  | full, a :: as, s, L, h => by
    have hrest := Holds.putAll i (fun n => full (n + 1)) as (h.put i (full 0) a)
    simpa [Chunks.putAll] using hrest

theorem Holds.mark (h : Holds s L) (i : ι) : Holds (mark i s) L := h

omit [DecidableEq ι] in
theorem writeOrder_perm (cs : List (Chunk ι α)) : (writeOrder cs).Perm cs :=
  List.filter_append_perm _ cs

/-- Whatever the marks, the file has the records of the log and no others. -/
theorem Holds.written_perm (h : Holds s L) (hnone : ∀ i, s.current i = none) : (written s).Perm L := by
  have hsaved : (records s.saved).Perm L := by
    apply perm_of_ofOwner
    intro i
    have hc := h i
    rwa [hnone i, Option.getD_none, List.map_nil, List.append_nil] at hc
  exact ((writeOrder_perm s.saved).flatMap_right _).trans hsaved

/-- A store with nothing in it. -/
theorem inv_blank (hs : s.saved = []) (hc : ∀ i, s.current i = none) (hf : ∀ i, s.first i = false) :
    Inv s [] where
  contents i := by
    rw [hs, hc i]
    rfl
  saved_ne c h := absurd (hs ▸ h) List.not_mem_nil
  current_ne i h := Option.some_ne_none _ (h.symm.trans (hc i))
  first_current i h := absurd ((hf i).symm.trans h) Bool.false_ne_true
  first_saved c h := absurd (hs ▸ h) List.not_mem_nil
  first_earliest := hs ▸ List.Pairwise.nil
  first_exists _ h := absurd h (Option.some_ne_none _ ∘ Eq.symm)

/-- Before the first record nothing is stored. -/
theorem Inv.current_none (h : Inv s []) (i : ι) : s.current i = none := by
  have hc := h.contents i
  simp only [ofOwner, List.filter_nil, List.append_eq_nil_iff, List.map_eq_nil_iff] at hc
  cases hi : s.current i with
  | none => rfl
  | some d =>
    rw [hi] at hc
    exact absurd (hi.trans (congrArg some hc.2)) (h.current_ne i)

theorem Inv.saved_nil (h : Inv s []) : s.saved = [] := by
  cases hs : s.saved with
  | nil => rfl
  | cons c cs =>
    have hc := h.contents c.owner
    rw [hs, ofOwner_records_cons, if_pos rfl] at hc
    simp only [ofOwner, List.filter_nil, List.append_eq_nil_iff, List.map_eq_nil_iff] at hc
    exact absurd hc.1.1 (h.saved_ne c (hs ▸ List.mem_cons_self))

/-- An owner with a record has the mark only together with a chunk. -/
theorem Inv.current_of_first (h : Inv s L) {i : ι} (hf : s.first i = true) :
    s.current i ≠ none := by
  intro hi
  obtain ⟨hhead, hno⟩ := h.first_current i hf
  have hc := h.contents i
  rw [ofOwner_records_nil i hno, hi] at hc
  cases L with
  | nil => exact absurd hhead (Option.some_ne_none _ ∘ Eq.symm)
  | cons p L =>
    have hp : p.1 = i := Option.some.inj hhead
    unfold ofOwner at hc
    rw [List.filter_cons_of_pos (by simp [hp])] at hc
    exact absurd hc.symm (List.cons_ne_nil _ _)

/-- Without a chunk and a mark there is nothing to move. -/
theorem save_of_none {i : ι} (hi : s.current i = none) (hf : s.first i = false) : save i s = s := by
  have hc : Function.update s.current i none = s.current := by
    rw [← hi]
    exact Function.update_eq_self i s.current
  have hm : Function.update s.first i false = s.first := by
    rw [← hf]
    exact Function.update_eq_self i s.first
  unfold save
  rw [hc, hm, hi]

/-- Moving a chunk to the shared list. -/
theorem Inv.save (h : Inv s L) (i : ι) : Inv (save i s) L := by
  cases hi : s.current i with
  | none =>
    have hf : s.first i = false := by
      by_contra hf
      exact h.current_of_first (by simpa using hf) hi
    rw [save_of_none hi hf]
    exact h
  | some d =>
    have hs : (Chunks.save i s).saved = s.saved ++ [⟨i, s.first i, d⟩] := by
      simp only [Chunks.save, hi]
    have hd : d ≠ [] := fun he => h.current_ne i (hi.trans (congrArg some he))
    refine ⟨h.contents.save i, ?_, fun j => ?_, fun j hj => ?_, ?_, ?_, fun j hj => ?_⟩
    · intro c hc
      rcases List.mem_append.mp (hs ▸ hc) with hc | hc
      · exact h.saved_ne c hc
      · rw [List.mem_singleton.mp hc]
        exact hd
    · by_cases hj : j = i
      · subst hj
        simp [Chunks.save]
      · simpa [Chunks.save, hj] using h.current_ne j
    · by_cases hji : j = i
      · subst hji
        simp [Chunks.save] at hj
      · have hfj : s.first j = true := by simpa [Chunks.save, hji] using hj
        obtain ⟨hhead, hno⟩ := h.first_current j hfj
        refine ⟨hhead, fun c hc => ?_⟩
        rcases List.mem_append.mp (hs ▸ hc) with hc | hc
        · exact hno c hc
        · rw [List.mem_singleton.mp hc]
          exact Ne.symm hji
    · intro c hc hcf
      rcases List.mem_append.mp (hs ▸ hc) with hc | hc
      · exact h.first_saved c hc hcf
      · rw [List.mem_singleton.mp hc] at hcf ⊢
        exact (h.first_current i hcf).1
    · rw [hs, List.pairwise_append]
      refine ⟨h.first_earliest, List.pairwise_singleton _ _, fun c hc e he hef => ?_⟩
      rw [List.mem_singleton.mp he] at hef ⊢
      exact (h.first_current i hef).2 c hc
    · rcases h.first_exists j hj with hf | ⟨c, hc, hcj, hcf⟩
      · by_cases hji : j = i
        · subst hji
          exact Or.inr ⟨⟨j, s.first j, d⟩, by rw [hs]; simp, rfl, hf⟩
        · exact Or.inl (by simpa [Chunks.save, hji] using hf)
      · exact Or.inr ⟨c, by rw [hs]; exact List.mem_append_left _ hc, hcj, hcf⟩

theorem Inv.saveAll (h : Inv s L) (is : List ι) : Inv (saveAll is s) L :=
  saveAll_induction (P := fun s => Inv s L) (fun _ i hs => hs.save i) is h

theorem Inv.push (h : Inv s L) (hL : L ≠ []) (i : ι) (a : α) : Inv (push i a s) (L ++ [(i, a)]) := by
  have hhead : (L ++ [(i, a)]).head?.map (·.1) = L.head?.map (·.1) := by
    rw [List.head?_append_of_ne_nil L hL]
  refine ⟨h.contents.push i a, h.saved_ne, fun j => ?_, fun j hj => ?_, fun c hc hcf => ?_,
    h.first_earliest, fun j hj => ?_⟩
  · by_cases hj : j = i
    · subst hj
      simp [Chunks.push]
    · simpa [Chunks.push, hj] using h.current_ne j
  · rw [hhead]
    exact h.first_current j hj
  · rw [hhead]
    exact h.first_saved c hc hcf
  · rw [hhead] at hj
    exact h.first_exists j hj

/-- Appending a record to a log that has begun. -/
theorem Inv.put (h : Inv s L) (hL : L ≠ []) (i : ι) (full : Bool) (a : α) :
    Inv (put i full a s) (L ++ [(i, a)]) := by
  unfold Chunks.put
  split
  · exact (h.save i).push hL i a
  · exact h.push hL i a

theorem Inv.putAll (i : ι) : ∀ (full : ℕ → Bool) (as : List α) {s : Store ι α} {L : List (ι × α)},
    Inv s L → L ≠ [] → Inv (putAll i full as s) (L ++ as.map (i, ·))
  | _, [], s, L, h, _ => by simpa [Chunks.putAll] using h
  | full, a :: as, s, L, h, hL => by
    have hrest := Inv.putAll i (fun n => full (n + 1)) as (h.put hL i (full 0) a) (by simp)
    simpa [Chunks.putAll] using hrest

/-- The first record: its owner has the mark. -/
theorem Inv.start (h : Inv s []) (i : ι) (full : Bool) (a : α) :
    Inv (Chunks.put i full a (mark i s)) [(i, a)] := by
  have hput : Chunks.put i full a (mark i s) = Chunks.push i a (mark i s) := by
    unfold Chunks.put
    rw [if_neg]
    simp [mark, h.current_none i]
  have hsaved : (Chunks.push i a (mark i s)).saved = [] := h.saved_nil
  have hfirst : ∀ j, (Chunks.push i a (mark i s)).first j = true ↔ j = i := by
    intro j
    by_cases hj : j = i
    · subst hj
      simp [Chunks.push, mark]
    · have hnf : s.first j ≠ true := fun hf => h.current_of_first hf (h.current_none j)
      simp [Chunks.push, mark, hj, hnf]
  rw [hput]
  refine ⟨h.contents.push i a, ?_, fun j => ?_, fun j hj => ?_, ?_, ?_, fun j hj => ?_⟩
  · rw [hsaved]
    exact fun _ hc => absurd hc List.not_mem_nil
  · by_cases hj : j = i
    · subst hj
      simp [Chunks.push]
    · simp [Chunks.push, mark, hj, h.current_none j]
  · rw [(hfirst j).mp hj, hsaved]
    exact ⟨rfl, fun _ hc => absurd hc List.not_mem_nil⟩
  · rw [hsaved]
    exact fun _ hc => absurd hc List.not_mem_nil
  · rw [hsaved]
    exact List.Pairwise.nil
  · exact Or.inl ((hfirst j).mpr (Option.some.inj hj).symm)

/-- **What is written.** Once every chunk is in the shared list, the file has
the records of the log, each owner's in its order, and begins with the first
one. -/
theorem Inv.written_spec (h : Inv s L) (hnone : ∀ i, s.current i = none) :
    (∀ i, ofOwner i (written s) = ofOwner i L) ∧ (written s).Perm L ∧ (written s).head? = L.head? := by
  have hown : ∀ i, ofOwner i (written s) = ofOwner i L := by
    intro i
    have hc := h.contents i
    rw [hnone i, Option.getD_none, List.map_nil, List.append_nil] at hc
    rw [← hc]
    exact ofOwner_writeOrder i h.first_earliest
  refine ⟨hown, perm_of_ofOwner hown, ?_⟩
  cases L with
  | nil =>
    rw [written, h.saved_nil]
    rfl
  | cons p L =>
    -- the marked chunk is there, so it comes first, and its owner is the log's first owner
    obtain ⟨c, hc, -, hcf⟩ : ∃ c ∈ s.saved, c.owner = p.1 ∧ c.first = true := by
      rcases h.first_exists p.1 rfl with hf | hex
      · exact absurd (hnone p.1) (h.current_of_first hf)
      · exact hex
    obtain ⟨d, ds, hd⟩ : ∃ d ds, s.saved.filter (fun c => c.first) = d :: ds := by
      apply List.exists_cons_of_ne_nil
      intro he
      have hmem : c ∈ s.saved.filter fun c => c.first := List.mem_filter.mpr ⟨hc, hcf⟩
      rw [he] at hmem
      exact absurd hmem List.not_mem_nil
    have hdm : d ∈ s.saved ∧ d.first = true := by
      have hmem : d ∈ s.saved.filter fun c => c.first := hd ▸ List.mem_cons_self
      simpa using List.mem_filter.mp hmem
    have hdo : p.1 = d.owner := Option.some.inj (h.first_saved d hdm.1 hdm.2)
    obtain ⟨a, as, ha⟩ := List.exists_cons_of_ne_nil (h.saved_ne d hdm.1)
    obtain ⟨rest, hw⟩ : ∃ rest, written s = (d.owner, a) :: rest := by
      refine ⟨as.map (d.owner, ·) ++ records (ds ++ s.saved.filter fun c => !c.first), ?_⟩
      unfold written writeOrder
      rw [hd, List.cons_append]
      simp [records, ha]
    have hp := hown d.owner
    unfold ofOwner at hp
    rw [hw, List.filter_cons_of_pos (by simp), List.filter_cons_of_pos (by simp [hdo])] at hp
    rw [hw, List.head?_cons, List.head?_cons, (List.cons.inj hp).1]

end Ops

end Chunks
