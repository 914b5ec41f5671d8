import Shim.Mok.KeyFormat

/-!
# The array of nodes

`build_mok_list` fills an array for as many nodes as `count_keys` has counted, and does not look at
that number again. The two walk over the same lists with their own checks: one makes the count zero,
the other gives up.
-/

namespace Shim.Mok

open Lib Verify Run List

/-- The data of the node lies in the buffer. -/
def MokListNode.Inside (node : MokListNode) (size : ℕ) : Prop :=
  ∃ p, node.mok = some p ∧ p + node.mokSize ≤ size

section

variable {db : SigDb} {o n N : ℕ} {list : List MokListNode}

lemma BuildAccepts.inside_node (h : BuildAccepts db o) (hlt : db.size < 2 ^ 64) :
    (mokListNode db o).Inside db.size := by
  have hcert := h.cert.1
  have hmok := h.mok
  -- the data starts in the buffer, so the difference that it is compared with has not wrapped
  obtain ⟨p, hp, hle⟩ : ∃ p, (mokListNode db o).mok = some p ∧ p ≤ db.size := by
    unfold sizeofSignatureData at hcert
    unfold mokListNode sizeofGuid
    split_ifs
    · exact ⟨_, rfl, by omega⟩
    · exact ⟨_, rfl, by omega⟩
  rw [hp, Option.getD_some, subW_of_le hlt hle] at hmok
  exact ⟨p, hp, by omega⟩

lemma buildMokListRound_emits_node {i : ℕ}
    (h : (buildMokListRound db (o, list)).Emits (.node i)) : HasList db o ∧ i = list.length := by
  unfold buildMokListRound at h
  unfold HasList
  simp only at h
  split_ifs at h with hend hshort hhead hcert hmok <;> simp at h
  · exact ⟨by omega, h⟩
  · exact ⟨by omega, h⟩

/-- The two loops side by side, from a list with as many nodes as are counted. -/
theorem count_build_loop (hsize : db.size < 2 ^ 32) (hN : N ≠ 0) (ho : list.length ≤ o)
    (hcount : (Run.loop (countKeysRound db) n (o, list.length)).value = some N) :
    list.length ≤ N ∧
      (∀ i, (Run.loop (buildMokListRound db) n (o, list)).Emits (.node i) → i < N) ∧
      ∀ nodes, (Run.loop (buildMokListRound db) n (o, list)).value = some (some nodes) →
        nodes.length = N ∧ ∀ node ∈ nodes, node ∈ list ∨ node.Inside db.size := by
  induction n generalizing o list with
  | zero => cases hcount
  | succ n ih =>
    rw [value_loop_succ, countKeysRound_value] at hcount
    simp only [loop_emits_succ, value_loop_succ, buildMokListRound_value,
      buildMokListRound_continues_iff]
    by_cases haccepts : CountAccepts db o
    · have hlt := haccepts.hasList.1
      have hlarger := haccepts.larger
      have hnext : (list ++ [mokListNode db o]).length = list.length + 1 := by simp
      rw [if_pos haccepts, Sum.elim_inl, Nat.mod_eq_of_lt (by omega), ← hnext] at hcount
      obtain ⟨hle, hemits, hvalue⟩ := ih (by omega) hcount
      refine ⟨by omega, fun i hi => ?_, fun nodes hnodes => ?_⟩
      · rcases hi with hi | ⟨_, ⟨-, rfl⟩, hi⟩
        · have := (buildMokListRound_emits_node hi).2
          omega
        · exact hemits i hi
      · by_cases hbuild : BuildAccepts db o
        · rw [if_pos hbuild] at hnodes
          obtain ⟨hlen, hall⟩ := hvalue nodes hnodes
          refine ⟨hlen, fun node hnode => ?_⟩
          rcases hall node hnode with hmem | hinside
          · rcases mem_append.mp hmem with hmem | hmem
            · exact .inl hmem
            · rw [mem_singleton.mp hmem]
              exact .inr (hbuild.inside_node (by omega))
          · exact .inr hinside
        · rw [if_neg hbuild, if_pos haccepts.hasList] at hnodes
          cases hnodes
    · rw [if_neg haccepts, Sum.elim_inr] at hcount
      by_cases hlist : HasList db o
      · rw [if_pos hlist] at hcount
        exact absurd (Option.some.inj hcount).symm hN
      have hrefuses : ¬ BuildAccepts db o := fun h => hlist h.hasList
      rw [if_neg hlist] at hcount
      obtain rfl := Option.some.inj hcount
      refine ⟨le_rfl, fun i hi => ?_, fun nodes hnodes => ?_⟩
      · rcases hi with hi | ⟨_, ⟨hbuild, -⟩, -⟩
        · exact absurd (buildMokListRound_emits_node hi).1 hlist
        · exact absurd hbuild hrefuses
      · rw [if_neg hrefuses, if_neg hlist] at hnodes
        cases hnodes
        exact ⟨rfl, fun node => .inl⟩

/-- `count_keys` and `build_mok_list` return; no node behind the array is written, and a list that
is returned has all the nodes, with their data in the buffer. -/
theorem fillMokList_fills (db : SigDb) (alloc : Bool) :
    (∃ n, (Run.loop (countKeysRound db) (db.size + 1) (0, 0)).Yields (some n)) ∧
      (∃ r, (Run.loop (buildMokListRound db) (db.size + 1) (0, [])).Yields (some r)) ∧
      (db.size < 2 ^ 32 → ∀ n, (countKeys db).Yields n → 0 < n →
        (∀ i, (buildMokList db alloc).Emits (.node i) → i < n) ∧
          ∀ list, (buildMokList db alloc).Yields (some list) →
            list.length = n ∧ ∀ node ∈ list, node.Inside db.size) := by
  refine ⟨countKeys_returns, buildMokList_returns, fun hsize n hcount hn => ?_⟩
  unfold buildMokList
  cases alloc with
  | false => exact ⟨fun i h => absurd h emits_pure, fun list h => by cases yields_pure.mp h⟩
  | true =>
    obtain ⟨r, hr, rfl⟩ := yields_map.mp hcount
    obtain ⟨k, rfl⟩ : ∃ k, r = some k := by
      cases r with
      | none => exact absurd hn (lt_irrefl 0)
      | some k => exact ⟨k, rfl⟩
    obtain ⟨-, hemits, hvalue⟩ := count_build_loop hsize hn.ne'
      (le_refl (List.length [])) (value_of_yields hr)
    rw [if_neg (by decide)]
    refine ⟨fun i hi => hemits i (emits_map.mp hi), fun list hlist => ?_⟩
    obtain ⟨r, hr, hlist⟩ := yields_map.mp hlist
    obtain rfl : r = some (some list) := by
      cases r with
      | none => cases hlist
      | some r => exact congrArg some hlist
    obtain ⟨hlen, hall⟩ := hvalue list (value_of_yields hr)
    exact ⟨hlen, fun node hnode => (hall node hnode).resolve_left not_mem_nil⟩

end

def twoCerts : SigDb :=
  let list := certTypeX509Guid ++ u32Bytes 45 ++ u32Bytes 0 ++ u32Bytes 17 ++ shimLockGuid ++ [0x30]
  ⟨Mem.ofBytes (list ++ list), 90⟩

theorem fillMokList_twoCerts : twoCerts.size < 2 ^ 32 ∧ (countKeys twoCerts).Yields 2 ∧
      (buildMokList twoCerts true).Emits (.node 1) ∧
      (∀ i, (buildMokList twoCerts true).Emits (.node i) → i < 2) ∧
      ∀ list, (buildMokList twoCerts true).Yields (some list) →
        list.length = 2 ∧ ∀ node ∈ list, node.Inside 90 := by
  have hsize : twoCerts.size < 2 ^ 32 := by decide
  have hcount : (countKeys twoCerts).Yields 2 := by
    unfold Run.Yields
    decide +kernel
  obtain ⟨-, -, hfills⟩ := fillMokList_fills twoCerts true
  exact ⟨hsize, hcount, by decide +kernel, hfills hsize 2 hcount (by decide)⟩

end Shim.Mok
