import Mathlib.Tactic

/-!
# Stable sorting by insertion

`StablySorted key l table`: the list `table` is `l` ordered by a key, with the elements of one key
in the order they have in `l`. `StablySorted.insert` is the step of an insertion sort: the next
element of `l` is put behind the elements whose key is not larger and in front of the others.
-/

namespace Shim.Lib

open List

variable {α : Type} {key : α → ℕ} {l table : List α}

/-- `table` is a permutation of `l`, sorted by `key`, with ties in the order of `l`. -/
structure StablySorted (key : α → ℕ) (l table : List α) : Prop where
  perm : table.Perm l
  sorted : table.Pairwise fun a b => key a ≤ key b
  ties : ∀ k, table.filter (fun a => key a = k) = l.filter fun a => key a = k

lemma insertIdx_eq_append {pos : ℕ} (a : α) (h : pos ≤ table.length) :
    table.insertIdx pos a = table.take pos ++ a :: table.drop pos := by
  induction pos generalizing table with
  | zero => rfl
  | succ pos ih =>
    obtain ⟨b, table, rfl⟩ := exists_cons_of_length_pos (Nat.lt_of_lt_of_le pos.succ_pos h)
    rw [insertIdx_succ_cons, ih (Nat.le_of_succ_le_succ h)]
    rfl

namespace StablySorted

lemma nil : StablySorted key [] [] := ⟨List.Perm.refl _, List.Pairwise.nil, fun _ => rfl⟩

lemma insert {a : α} {pos : ℕ} (h : StablySorted key l table) (hpos : pos ≤ table.length)
    (hbefore : ∀ b ∈ table.take pos, key b ≤ key a)
    (hafter : ∀ b ∈ table.drop pos, key a < key b) :
    StablySorted key (l ++ [a]) (table.insertIdx pos a) := by
  have hsplit := insertIdx_eq_append a hpos
  have hsorted := h.sorted
  rw [← take_append_drop pos table, pairwise_append] at hsorted
  obtain ⟨hleft, hright, hcross⟩ := hsorted
  refine ⟨?_, ?_, fun k => ?_⟩
  · calc table.insertIdx pos a
        |>.Perm (a :: table) := perm_insertIdx a table hpos
      _ |>.Perm (a :: l) := h.perm.cons a
      _ |>.Perm (l ++ [a]) := (perm_append_singleton a l).symm
  · rw [hsplit, pairwise_append, pairwise_cons]
    refine ⟨hleft, ⟨fun b hb => le_of_lt (hafter b hb), hright⟩, fun b hb d hd => ?_⟩
    rcases mem_cons.mp hd with rfl | hd
    · exact hbefore b hb
    · exact hcross b hb d hd
  · have hties := h.ties k
    rw [← take_append_drop pos table, filter_append] at hties
    rw [hsplit, filter_append, filter_append, ← hties]
    by_cases hk : key a = k
    · -- nothing behind the place has the key of the new element
      have hnone : (table.drop pos).filter (fun b => key b = k) = [] := by
        rw [filter_eq_nil_iff]
        intro b hb
        have := hafter b hb
        simp only [decide_eq_true_eq]
        omega
      simp [hk, hnone]
    · simp [hk]

end StablySorted

end Shim.Lib
