import Mathlib.Data.Int.Basic
import Mathlib.Data.List.Basic
import Shim.Lib.Check

/-!
# Buffers with checked accesses

A buffer is the list of its elements. An access takes a signed index, and one that is not in the
buffer is an error. A `Text` is a string without `NUL`.
-/

namespace Shim.Lib

open List

/-- An access outside of its buffer. -/
structure OutOfRange where
  index : ℤ
  deriving DecidableEq, Repr

section

variable {α : Type*}

/-- `b[i]`. -/
def readAt (b : List α) (i : ℤ) : Except OutOfRange α :=
  if 0 ≤ i then
    match b[i.toNat]? with
    | some a => .ok a
    | none => .error ⟨i⟩
  else .error ⟨i⟩

/-- `b[i] = a`. -/
def writeAt (b : List α) (i : ℤ) (a : α) : Except OutOfRange (List α) :=
  if 0 ≤ i ∧ i < b.length then .ok (b.set i.toNat a) else .error ⟨i⟩

variable {i : ℤ} {l : List α}

lemma readAt_append (h : i = l.length) (a : α) (r : List α) : readAt (l ++ a :: r) i = .ok a := by
  subst h
  unfold readAt
  rw [if_pos (Int.natCast_nonneg _), Int.toNat_natCast, List.getElem?_append_right le_rfl]
  simp

lemma writeAt_append (h : i = l.length) (a c : α) (r : List α) :
    writeAt (l ++ c :: r) i a = .ok (l ++ a :: r) := by
  subst h
  unfold writeAt
  have hin : (0 : ℤ) ≤ l.length ∧ (l.length : ℤ) < (l ++ c :: r).length := by
    rw [length_append, length_cons]
    omega
  rw [if_pos hin, Int.toNat_natCast, set_append_right _ _ le_rfl, Nat.sub_self,
    set_cons_zero]

/-- `CopyMem(b + cursor, bytes, ...)`; the buffer keeps its length if the bytes fit. -/
def copyTo (b : List α) (cursor : ℕ) (bytes : List α) : List α :=
  b.take cursor ++ bytes ++ b.drop (cursor + bytes.length)

lemma copyTo_replicate {cursor n : ℕ} {a : α} (h : cursor = l.length) (bytes : List α) :
    copyTo (l ++ replicate n a) cursor bytes =
      l ++ bytes ++ replicate (n - bytes.length) a := by
  subst h
  rw [copyTo, take_left' rfl, drop_append, drop_of_length_le (by omega), nil_append,
    Nat.add_sub_cancel_left, drop_replicate]

end

/-- A string: characters other than `NUL`. -/
structure Text where
  chars : List UInt16
  noNul : 0 ∉ chars

def Text.buffer (t : Text) : List UInt16 := t.chars ++ [0]

/-- `/` in a path. -/
def slash : UInt16 := 0x2f

/-- `\` in a path. -/
def backslash : UInt16 := 0x5c

/-! ## The string functions -/

section

variable {α : Type} [OfNat α 0] [DecidableEq α]

/-- The number of characters in front of the `NUL`. -/
def strLen : List α → Except OutOfRange ℕ
  | [] => .error ⟨0⟩
  | c :: b => if c = 0 then .ok 0 else do return (← strLen b) + 1

/-- The number of bytes up to and with the `NUL`. -/
def strSize (b : List UInt16) : Except OutOfRange ℕ := do return ((← strLen b) + 1) * 2

/-- The difference at the first of at most `n` characters in which two strings differ. -/
def strnCmp : ℕ → List UInt16 → List UInt16 → Except OutOfRange ℤ
  | 0, _, _ => .ok 0
  | n + 1, c :: s, d :: t =>
    if c ≠ d ∨ c = 0 then .ok (c.toNat - d.toNat) else strnCmp n s t
  | _ + 1, _, _ => .error ⟨0⟩

/-- Copies `src` and its `NUL` behind the string in `dest`. -/
def strCat (dest src : List α) : Except OutOfRange (List α) := do
  let n ← strLen dest
  let k ← strLen src
  if n + k < dest.length then
    return dest.take n ++ src.take (k + 1) ++ dest.drop (n + k + 1)
  else .error ⟨n + k⟩

variable {s t : List α}

lemma strLen_of_text (hs : 0 ∉ s) (r : List α) : strLen (s ++ 0 :: r) = .ok s.length := by
  induction s with
  | nil => exact if_pos rfl
  | cons c s ih =>
    have hc : c ≠ 0 := (ne_of_not_mem_cons hs).symm
    rw [cons_append, strLen, if_neg hc, ih (not_mem_of_not_mem_cons hs)]
    rfl

lemma strSize_of_text {s : List UInt16} (hs : 0 ∉ s) (r : List UInt16) :
    strSize (s ++ 0 :: r) = .ok ((s.length + 1) * 2) := by
  rw [strSize, strLen_of_text hs r]
  rfl

lemma strCat_of_text (hs : 0 ∉ s) (ht : 0 ∉ t) {r : List α} (hroom : t.length ≤ r.length)
    (q : List α) :
    strCat (s ++ 0 :: r) (t ++ 0 :: q) = .ok (s ++ t ++ 0 :: r.drop t.length) := by
  unfold strCat
  rw [strLen_of_text hs, strLen_of_text ht]
  have hin : s.length + t.length < (s ++ 0 :: r).length := by
    rw [length_append, length_cons]
    omega
  have hfront : (s ++ 0 :: r).take s.length = s := take_left' rfl
  have hsrc : (t ++ 0 :: q).take (t.length + 1) = t ++ [0] := by
    rw [take_append, take_of_length_le (by omega), Nat.add_sub_cancel_left]
    rfl
  have hrest : (s ++ 0 :: r).drop (s.length + t.length + 1) = r.drop t.length := by
    rw [Nat.add_assoc, drop_append, Nat.add_sub_cancel_left, drop_succ_cons,
      drop_of_length_le (by omega), nil_append]
  simp only [ok_bind]
  rw [if_pos hin, hfront, hsrc, hrest, append_assoc, append_assoc, append_assoc]
  rfl

lemma strnCmp_eq_zero_iff {p t : List UInt16} (hp : 0 ∉ p) (ht : 0 ∉ t) :
    ∃ d, strnCmp p.length (t ++ [0]) (p ++ [0]) = .ok d ∧ (d = 0 ↔ p <+: t) := by
  induction p generalizing t with
  | nil => exact ⟨0, by simp [strnCmp], by simp⟩
  | cons c p ih =>
    have hc : c ≠ 0 := (ne_of_not_mem_cons hp).symm
    cases t with
    | nil =>
      refine ⟨_, if_pos (.inr rfl), ?_⟩
      have hpos : c.toNat ≠ 0 := fun h => hc (UInt16.toNat_inj.mp h)
      simp
      omega
    | cons e t =>
      have he : e ≠ 0 := (ne_of_not_mem_cons ht).symm
      by_cases heq : e = c
      · subst heq
        obtain ⟨d, hd, hiff⟩ := ih (not_mem_of_not_mem_cons hp) (not_mem_of_not_mem_cons ht)
        refine ⟨d, ?_, hiff.trans ?_⟩
        · rw [← hd]
          exact if_neg (by simp [he])
        · rw [cons_prefix_cons]
          exact (and_iff_right rfl).symm
      · refine ⟨_, if_pos (.inl heq), ?_⟩
        have hne : e.toNat ≠ c.toNat := fun h => heq (UInt16.toNat_inj.mp h)
        rw [cons_prefix_cons]
        constructor
        · intro h
          omega
        · intro h
          exact absurd h.1.symm heq

end

end Shim.Lib
