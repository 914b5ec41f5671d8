import Shim.Lib.Layout

/-!
# Characters of 16 bits in memory

* `Mem.chars m p k` — the `k` characters from `p` on, little-endian.
* `Mem.slice_eq_wideBytes` — the bytes of that range are the bytes of the characters.
-/

namespace Shim.Lib

open List

def wideBytes (cs : List ℕ) : List UInt8 := cs.flatMap (numberBytes 2)

namespace Mem

variable (m : Mem) (p : ℕ)

def chars (k : ℕ) : List ℕ := (List.range k).map fun i => m.u16 (p + 2 * i)

@[simp] lemma length_chars (k : ℕ) : (m.chars p k).length = k := by simp [chars]

lemma getElem_chars {k i : ℕ} (h : i < (m.chars p k).length) :
    (m.chars p k)[i] = m.u16 (p + 2 * i) := by
  simp [chars]

lemma chars_succ (k : ℕ) : m.chars p (k + 1) = m.u16 p :: m.chars (p + 2) k := by
  unfold chars
  rw [range_succ_eq_map, map_cons, map_map, Nat.mul_zero, Nat.add_zero]
  congr 1
  refine map_congr_left fun i _ => ?_
  show m.u16 (p + 2 * (i + 1)) = m.u16 (p + 2 + 2 * i)
  congr 1
  omega

lemma chars_add (a b : ℕ) : m.chars p (a + b) = m.chars p a ++ m.chars (p + 2 * a) b := by
  unfold chars
  rw [range_add, map_append, map_map]
  congr 1
  refine map_congr_left fun i _ => ?_
  show m.u16 (p + 2 * (a + i)) = m.u16 (p + 2 * a + 2 * i)
  congr 1
  omega

lemma numberBytes_u16 : numberBytes 2 (m.u16 p) = m.slice p 2 := by
  have hlow := (m p).toNat_lt
  have hload : m.u16 p = (m p).toNat + 256 * (m (p + 1)).toNat := by
    simp [u16, load]
  have hdiv : m.u16 p / 256 = (m (p + 1)).toNat := by omega
  have hfirst : UInt8.ofNat (m.u16 p) = m p := by
    apply UInt8.toNat_inj.mp
    rw [UInt8.toNat_ofNat', hload]
    omega
  rw [numberBytes_two, hdiv, hfirst, UInt8.ofNat_toNat]
  rfl

lemma slice_eq_wideBytes (k : ℕ) : m.slice p (2 * k) = wideBytes (m.chars p k) := by
  induction k generalizing p with
  | zero => rfl
  | succ k ih =>
    rw [chars_succ, show 2 * (k + 1) = 2 + 2 * k by omega, slice_add, ih]
    unfold wideBytes
    rw [flatMap_cons, numberBytes_u16]

end Mem

end Shim.Lib
