import Shim.Lib.Mem

/-!
# The checksum of a PE file

`fix_checksum` of `post-process-pe.c` sets the field `CheckSum` to zero, adds up the words of the file
in 16 bits, with the carry added again, and stores the sum plus the size of the file.
-/

namespace Shim.PostProcess

open Lib List

def checksumRound (checksum word : ℕ) : ℕ :=
  let sum := (checksum + word) % 2 ^ 32
  0xffff &&& (sum + (sum >>> 0x10)) % 2 ^ 32

/-- `fix_checksum`, for a file with the field at `field`. The loop goes over the `mapsize / 2` even
numbers below `mapsize - 1`. -/
def fixChecksum (data : Mem) (mapsize field : ℕ) : Mem :=
  let data := data.store field 4 0
  let checksum := (List.range (mapsize / 2)).foldl (fun sum i => checksumRound sum (data.u16 (2 * i))) 0
  data.store field 4 ((checksum + mapsize) % 2 ^ 32)

/-- A number folded into 16 bits, each carry added at the other end. -/
def onesComplement (n : ℕ) : ℕ := if n = 0 then 0 else (n - 1) % 0xffff + 1

def words (data : Mem) (size : ℕ) : List ℕ :=
  (List.range (size / 2)).map (fun i => data.u16 (2 * i)) ++
    if size % 2 = 0 then [] else [(data (size - 1)).toNat]

/-- The field is the sum of the words, with the field as zero, plus the size; and nothing changes when
it is computed again. -/
def ChecksumRight (data : Mem) (size field : ℕ) : Prop :=
  (fixChecksum data size field).u32 field =
      (onesComplement (words (data.store field 4 0) size).sum + size) % 2 ^ 32 ∧
    fixChecksum (fixChecksum data size field) size field = fixChecksum data size field

lemma checksumRound_eq {checksum word : ℕ} (hsum : checksum < 2 ^ 16) (hword : word < 2 ^ 16) :
    checksumRound checksum word =
      if checksum + word < 2 ^ 16 then checksum + word else checksum + word - 0xffff := by
  have hmask (k : ℕ) : 0xffff &&& k = k % 2 ^ 16 := by
    rw [Nat.and_comm]
    exact Nat.and_two_pow_sub_one_eq_mod k 16
  unfold checksumRound
  rw [Nat.mod_eq_of_lt (by omega), hmask, Nat.shiftRight_eq_div_pow]
  split_ifs <;> omega

lemma checksumRound_onesComplement (n : ℕ) {word : ℕ} (h : word < 2 ^ 16) :
    checksumRound (onesComplement n) word = onesComplement (n + word) := by
  have hlt : onesComplement n < 2 ^ 16 := by
    unfold onesComplement
    split_ifs <;> omega
  rw [checksumRound_eq hlt h]
  unfold onesComplement
  split_ifs <;> omega

lemma foldl_checksumRound (l : List ℕ) (h : ∀ w ∈ l, w < 2 ^ 16) (n : ℕ) :
    l.foldl checksumRound (onesComplement n) = onesComplement (n + l.sum) := by
  induction l generalizing n with
  | nil => rfl
  | cons w l ih =>
    obtain ⟨hw, hl⟩ := forall_mem_cons.mp h
    rw [foldl_cons, checksumRound_onesComplement n hw, ih hl, sum_cons, Nat.add_assoc]

lemma store_store (data : Mem) (field a b : ℕ) :
    (data.store field 4 a).store field 4 b = data.store field 4 b := by
  funext i
  unfold Mem.store
  split_ifs <;> rfl

lemma fixChecksum_idem (data : Mem) (size field : ℕ) :
    fixChecksum (fixChecksum data size field) size field = fixChecksum data size field := by
  simp only [fixChecksum, store_store]

lemma u32_fixChecksum (data : Mem) (size field : ℕ) :
    (fixChecksum data size field).u32 field = (onesComplement
      ((List.range (size / 2)).map fun i => (data.store field 4 0).u16 (2 * i)).sum + size) % 2 ^ 32 := by
  have hwords := foldl_checksumRound ((List.range (size / 2)).map fun i =>
    (data.store field 4 0).u16 (2 * i)) (by simpa using fun i _ => Mem.u16_lt _ _) 0
  rw [foldl_map, Nat.zero_add] at hwords
  rw [← hwords]
  refine (Mem.load_of_slice_eq_store rfl).trans (Nat.mod_eq_of_lt ?_)
  exact Nat.mod_lt _ (by decide)

/-- The checksum is right iff no byte is left out, or the byte that is left out is zero. -/
theorem fixChecksum_right_iff (data : Mem) (size field : ℕ) :
    ChecksumRight data size field ↔ size % 2 = 0 ∨ data.store field 4 0 (size - 1) = 0 := by
  unfold ChecksumRight
  rw [and_iff_left (fixChecksum_idem data size field), u32_fixChecksum]
  by_cases heven : size % 2 = 0
  · simp [words, heven]
  have hbyte := (data.store field 4 0 (size - 1)).toNat_lt
  rw [words, if_neg heven, sum_append, sum_singleton, or_iff_right heven,
    ← UInt8.toNat_inj]
  generalize (data.store field 4 0 (size - 1)).toNat = b at hbyte ⊢
  generalize ((List.range (size / 2)).map fun i => (data.store field 4 0).u16 (2 * i)).sum = n
  have hzero : (0 : UInt8).toNat = 0 := rfl
  rw [hzero]
  unfold onesComplement
  split_ifs <;> omega

/-- A byte of one at the end of a file of seven bytes. -/
theorem fixChecksum_leaves_last : ¬ ChecksumRight (fun i => if i = 6 then 1 else 0) 7 0 := by
  intro h
  exact absurd h.1 (by decide +kernel)

end Shim.PostProcess
