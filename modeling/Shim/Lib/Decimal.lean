import Shim.Lib.CStr

/-!
# Decimal numerals

A numeral is a nonempty string of ASCII digits. Numerals of one length are ordered like their values
byte by byte (`strncmp_digits`), and of two without leading zeros the longer one is the larger
(`decimal_lt_of_length_lt`).
-/

namespace Shim.Lib

open List Mem

def IsDigit (b : UInt8) : Prop := 48 ≤ b.toNat ∧ b.toNat ≤ 57

instance (b : UInt8) : Decidable (IsDigit b) := inferInstanceAs (Decidable (_ ∧ _))

def IsNumeral (s : List UInt8) : Prop := s ≠ [] ∧ ∀ b ∈ s, IsDigit b

instance (s : List UInt8) : Decidable (IsNumeral s) := inferInstanceAs (Decidable (_ ∧ _))

/-- The value of a string of digits. -/
def decimal (s : List UInt8) : ℕ := s.foldl (fun n b => 10 * n + (b.toNat - 48)) 0

/-- A numeral of more than one digit does not start with a zero. -/
def NoLeadingZero : List UInt8 → Prop
  | b :: _ :: _ => b ≠ 48
  | _ => True

instance : (s : List UInt8) → Decidable (NoLeadingZero s)
  | [] | [_] => .isTrue trivial
  | b :: _ :: _ => inferInstanceAs (Decidable (b ≠ 48))

variable {s t : List UInt8}

lemma decimal_foldl (s : List UInt8) (n : ℕ) :
    s.foldl (fun n b => 10 * n + (b.toNat - 48)) n = n * 10 ^ s.length + decimal s := by
  induction s generalizing n with
  | nil => simp [decimal]
  | cons b s ih =>
    have hone : decimal (b :: s) = (b.toNat - 48) * 10 ^ s.length + decimal s := by
      rw [decimal, foldl_cons, ih]
      simp
    rw [foldl_cons, ih, hone, length_cons, pow_succ]
    ring

@[simp] lemma decimal_nil : decimal [] = 0 := rfl

@[simp] lemma decimal_cons (b : UInt8) (s : List UInt8) :
    decimal (b :: s) = (b.toNat - 48) * 10 ^ s.length + decimal s := by
  rw [decimal, foldl_cons, decimal_foldl]
  simp

lemma decimal_lt (h : ∀ b ∈ s, IsDigit b) : decimal s < 10 ^ s.length := by
  induction s with
  | nil => simp
  | cons b s ih =>
    have hs := ih fun c hc => h c (mem_cons_of_mem b hc)
    have hb : b.toNat - 48 ≤ 9 := by
      have := (h b mem_cons_self).2
      omega
    rw [decimal_cons, length_cons, pow_succ]
    have := Nat.mul_le_mul_right (10 ^ s.length) hb
    omega

lemma decimal_lt_of_length_lt (hs : IsNumeral s) (ht : IsNumeral t) (hzero : NoLeadingZero t)
    (hlen : s.length < t.length) : decimal s < decimal t := by
  match t, ht, hzero, hlen with
  | [], _, _, hlen => simp at hlen
  | [b], _, _, hlen =>
    have hnil : s = [] := eq_nil_of_length_eq_zero (by simpa using hlen)
    exact absurd hnil hs.1
  | b :: c :: t, ht, hzero, hlen =>
    have hb : 1 ≤ b.toNat - 48 := by
      have hle := (ht.2 b mem_cons_self).1
      have hne : b.toNat ≠ 48 := fun h => hzero (UInt8.toNat_inj.mp h)
      omega
    have hpow : 10 ^ s.length ≤ 10 ^ (c :: t).length :=
      Nat.pow_le_pow_right (by norm_num) (by simp only [length_cons] at hlen ⊢; omega)
    calc decimal s < 10 ^ s.length := decimal_lt hs.2
      _ ≤ 1 * 10 ^ (c :: t).length := by rwa [Nat.one_mul]
      _ ≤ (b.toNat - 48) * 10 ^ (c :: t).length := Nat.mul_le_mul_right _ hb
      _ ≤ decimal (b :: c :: t) := by
        rw [decimal_cons b (c :: t)]
        exact Nat.le_add_right _ _

lemma strncmp_digits {m n : Mem} {p q len : ℕ} (hm : ∀ b ∈ m.slice p len, IsDigit b)
    (hn : ∀ b ∈ n.slice q len, IsDigit b) :
    (0 < m.strncmp p n q len ↔ decimal (n.slice q len) < decimal (m.slice p len)) ∧
      (0 ≤ m.strncmp p n q len ↔ decimal (n.slice q len) ≤ decimal (m.slice p len)) := by
  induction len generalizing p q with
  | zero => simp [strncmp]
  | succ len ih =>
    rw [slice_succ] at hm hn
    have htailm : ∀ b ∈ m.slice (p + 1) len, IsDigit b := fun b hb => hm b (mem_cons_of_mem _ hb)
    have htailn : ∀ b ∈ n.slice (q + 1) len, IsDigit b := fun b hb => hn b (mem_cons_of_mem _ hb)
    have hdm := hm _ mem_cons_self
    have hdn := hn _ mem_cons_self
    have hne : m p ≠ 0 := by
      intro h
      rw [h] at hdm
      exact absurd hdm.1 (by decide)
    rw [slice_succ, slice_succ, decimal_cons, decimal_cons, length_slice,
      length_slice]
    by_cases heq : m p = n q
    · have hstep : m.strncmp p n q (len + 1) = m.strncmp (p + 1) n (q + 1) len := by
        rw [strncmp, if_pos ⟨hne, heq⟩]
      obtain ⟨hlt, hle⟩ := ih htailm htailn
      rw [hstep, hlt, hle, heq]
      omega
    have hstep : m.strncmp p n q (len + 1) = (m p).toNat - (n q).toNat := by
      rw [strncmp, if_neg fun h => heq h.2]
    have hltm := decimal_lt htailm
    have hltn := decimal_lt htailn
    rw [length_slice] at hltm hltn
    have hne' : (m p).toNat ≠ (n q).toNat := fun h => heq (UInt8.toNat_inj.mp h)
    have hm' := hdm.1
    have hn' := hdn.1
    rw [hstep]
    rcases lt_or_gt_of_ne hne' with h | h
    · have hmul : ((m p).toNat - 48 + 1) * 10 ^ len ≤ ((n q).toNat - 48) * 10 ^ len :=
        Nat.mul_le_mul_right _ (by omega)
      rw [Nat.add_mul, Nat.one_mul] at hmul
      omega
    · have hmul : ((n q).toNat - 48 + 1) * 10 ^ len ≤ ((m p).toNat - 48) * 10 ^ len :=
        Nat.mul_le_mul_right _ (by omega)
      rw [Nat.add_mul, Nat.one_mul] at hmul
      omega

end Shim.Lib
