import Shim.Mok.KeyNodes
import Shim.Mok.Prompt

/-!
# Writing a database back unchanged

`build_mok_list` takes a database apart into nodes, and `write_back_mok_list` puts nodes together.
Nodes know no owner of a certificate and no header, so that only the databases that MokManager itself
writes come back as they were.
-/

namespace Shim.Mok

open Lib Verify List Run Option MokListNode

/-- A list that MokManager writes: one certificate with shim's GUID as its owner, or hashes of one of
the SHA-2 functions, and no header. -/
structure IsCanonical (l : SignatureList) : Prop where
  header : l.header = []
  entries : (l.type = certTypeX509Guid ∧ ∃ cert ≠ [], l.entries = [shimLockGuid ++ cert]) ∨
    (isSha2Hash l.type = true ∧ l.entrySize = shaSize l.type + sizeofGuid)

section

variable {db : SigDb} {o n : ℕ} {l : SignatureList} {ls : List SignatureList}
  {list nodes : List MokListNode}

lemma IsCanonical.length_type (h : IsCanonical l) : l.type.length = 16 := by
  rcases h.entries with ⟨hcert, -⟩ | ⟨hsha, -⟩
  · rw [hcert]
    rfl
  · exact length_of_isSha2Hash hsha

lemma IsCanonical.data (h : IsCanonical l) : sizeofGuid < l.entrySize := by
  rcases h.entries with ⟨-, cert, hne, hentries⟩ | ⟨hsha, hsize⟩
  · have hlen := l.length_entry (shimLockGuid ++ cert) (by rw [hentries]; exact mem_cons_self)
    have hpos := length_pos_iff.mpr hne
    have howner : shimLockGuid.length = sizeofGuid := rfl
    rw [length_append] at hlen
    omega
  · rw [hsize]
    have hpos : shaSize l.type ≠ 0 := by
      unfold isSha2Hash at hsha
      simp only [Bool.or_eq_true, decide_eq_true_eq] at hsha
      rcases hsha with ((hsha | hsha) | hsha) | hsha <;> rw [hsha] <;> decide
    omega

lemma HoldsFrom.hasList (h : db.HoldsFrom o (l :: ls)) : HasList db o := h.1.fits h.2

end

end Shim.Mok
