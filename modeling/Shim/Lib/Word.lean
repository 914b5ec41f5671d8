import Mathlib.Tactic
import Mathlib.Data.Nat.Bitwise

/-!
# Unsigned machine arithmetic

A `w`-bit unsigned number is a natural number below `2 ^ w`; `addW` and `subW` wrap. `alignUp w v a`
is the expression `v + ((a - v) & (a - 1))` of C, for any `a`: it adds less than `a`, and for a power
of two the result is a multiple of `a`.
-/

namespace Shim.Lib

/-- `w`-bit addition. -/
def addW (w a b : ℕ) : ℕ := (a + b) % 2 ^ w

/-- `w`-bit subtraction. -/
def subW (w a b : ℕ) : ℕ := (a + (2 ^ w - b % 2 ^ w)) % 2 ^ w

variable {w a b : ℕ}

lemma addW_lt : addW w a b < 2 ^ w := Nat.mod_lt _ (Nat.two_pow_pos w)

lemma subW_lt : subW w a b < 2 ^ w := Nat.mod_lt _ (Nat.two_pow_pos w)

lemma addW_of_lt (h : a + b < 2 ^ w) : addW w a b = a + b := Nat.mod_eq_of_lt h

lemma subW_of_le (ha : a < 2 ^ w) (h : b ≤ a) : subW w a b = a - b := by
  have hb : b % 2 ^ w = b := Nat.mod_eq_of_lt (lt_of_le_of_lt h ha)
  unfold subW
  rw [hb]
  have heq : a + (2 ^ w - b) = (a - b) + 2 ^ w := by omega
  rw [heq, Nat.add_mod_right, Nat.mod_eq_of_lt (by omega)]

lemma subW_of_lt (hb : b < 2 ^ w) (h : a < b) : subW w a b = a + 2 ^ w - b := by
  have hb' : b % 2 ^ w = b := Nat.mod_eq_of_lt hb
  unfold subW
  rw [hb', Nat.mod_eq_of_lt (by omega)]
  omega

lemma subW_addW (ha : a < 2 ^ w) (hb : b < 2 ^ w) : subW w (addW w a b) a = b := by
  rcases Nat.lt_or_ge (a + b) (2 ^ w) with h | h
  · rw [addW_of_lt h, subW_of_le h (Nat.le_add_right a b), Nat.add_sub_cancel_left]
  have hsum : addW w a b = a + b - 2 ^ w := by
    unfold addW
    rw [Nat.mod_eq_sub_mod h, Nat.mod_eq_of_lt (by omega)]
  rw [hsum, subW_of_lt ha (by omega)]
  omega

lemma addW_subW_subW (a b c : ℕ) : addW w (subW w b a) (subW w c b) = subW w c a := by
  have hb : b % 2 ^ w + 2 ^ w * (b / 2 ^ w) = b := Nat.mod_add_div b (2 ^ w)
  have heq : b + (2 ^ w - a % 2 ^ w) + (c + (2 ^ w - b % 2 ^ w)) =
      c + (2 ^ w - a % 2 ^ w) + 2 ^ w * (b / 2 ^ w + 1) := by
    rw [Nat.mul_add, Nat.mul_one]
    omega
  unfold addW subW
  rw [← Nat.add_mod, heq, Nat.add_mul_mod_self_left]

/-- The C expression `v + ((a - v) & (a - 1))`, evaluated in `w` bits. -/
def alignUp (w v a : ℕ) : ℕ := addW w v (subW w a v &&& (a - 1))

lemma align_gap_le (v : ℕ) : subW w a v &&& (a - 1) ≤ a - 1 := Nat.and_le_right

/-- The distance to the aligned value is less than `a`, also where that value overflows. -/
theorem subW_alignUp_lt {v : ℕ} (hv : v < 2 ^ w) (ha : 0 < a) (ha' : a ≤ 2 ^ w) :
    subW w (alignUp w v a) v < a := by
  have hgap : subW w a v &&& (a - 1) ≤ a - 1 := align_gap_le v
  unfold alignUp
  rw [subW_addW hv (by omega)]
  omega

lemma alignUp_bounds {v : ℕ} (h : v + (a - 1) < 2 ^ w) :
    v ≤ alignUp w v a ∧ alignUp w v a ≤ v + (a - 1) := by
  have hgap := align_gap_le (w := w) (a := a) v
  unfold alignUp
  rw [addW_of_lt (by omega)]
  omega

/-- For a power of two the aligned value is a multiple of it. -/
theorem dvd_alignUp_pow_two {v k : ℕ} (hk : k ≤ w) (h : v + (2 ^ k - 1) < 2 ^ w) :
    2 ^ k ∣ alignUp w v (2 ^ k) := by
  have hdvd : 2 ^ k ∣ 2 ^ w := Nat.pow_dvd_pow 2 hk
  have hgap := align_gap_le (w := w) (a := 2 ^ k) v
  have hv : v < 2 ^ w := by omega
  unfold alignUp
  rw [addW_of_lt (by omega), Nat.and_two_pow_sub_one_eq_mod]
  unfold subW
  rw [Nat.mod_mod_of_dvd _ hdvd, Nat.mod_eq_of_lt hv]
  apply Nat.dvd_of_mod_eq_zero
  rw [Nat.add_mod, Nat.mod_mod, ← Nat.add_mod]
  -- without the remainders the sum is `2 ^ k + 2 ^ w`
  have hsum : v + (2 ^ k + (2 ^ w - v)) = 2 ^ k + 2 ^ w := by omega
  rw [hsum]
  exact Nat.mod_eq_zero_of_dvd (Nat.dvd_add (dvd_refl _) hdvd)

end Shim.Lib
