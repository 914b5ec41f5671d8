import Mathlib.Data.List.TakeWhile
import Shim.Lib.Wide
import Shim.LoadOptions

/-!
# The first argument of the load options

A shell hands its whole command line to an image: CHAR16s that need not end. `split_load_options` skips
the spaces in front, ends the first argument at a space or `NUL` behind it, and hands out what
follows.
-/

namespace Shim.LoadOptions

open Lib List Mem

def space : ℕ := 0x20

section

variable (m : Mem)

def skipSpaces : ℕ → ℕ → ℕ
  | 0, start => start
  | k + 1, start => if m.u16 start ≠ space then start else skipSpaces k (start + 2)

def findDelimiter (start : ℕ) : ℕ → ℕ → Option ℕ
  | 0, _ => none
  | k + 1, i =>
    if m.u16 (start + 2 * i) = space ∨ m.u16 (start + 2 * i) = 0 then some i
    else findDelimiter start k (i + 1)

structure Split where
  arg0 : ℕ
  remaining : Option ℕ
  remainingSize : ℕ
  deriving DecidableEq

def splitLoadOptions (input inSize : ℕ) : Option Split × Mem :=
  let start := skipSpaces m (inSize / 2) input
  let inSize := inSize - (start - input)
  match findDelimiter m start (inSize / 2) 0 with
  | none => (none, m)
  | some i =>
    let skip := i + 1
    let remainingSize := inSize - skip * 2
    (some ⟨start, if 0 < remainingSize then some (start + 2 * skip) else none, remainingSize⟩,
      m.store (start + 2 * i) 2 0)

end

section

variable (m : Mem)

def isDelimiter (c : ℕ) : Bool := c = space ∨ c = 0

lemma isDelimiter_iff {c : ℕ} : isDelimiter c = true ↔ c = space ∨ c = 0 := decide_eq_true_iff

lemma skipSpaces_eq (k start : ℕ) :
    skipSpaces m k start = start + 2 * ((m.chars start k).takeWhile (· = space)).length := by
  induction k generalizing start with
  | zero => rfl
  | succ k ih =>
    rw [skipSpaces, chars_succ, takeWhile_cons]
    by_cases hspace : m.u16 start = space
    · rw [if_neg (not_not.mpr hspace), if_pos (decide_eq_true hspace), ih, length_cons]
      omega
    · rw [if_pos hspace, if_neg fun h => hspace (of_decide_eq_true h)]
      rfl

lemma findDelimiter_eq (start k i : ℕ) : findDelimiter m start k i =
      ((m.chars (start + 2 * i) k).findIdx? isDelimiter).map (· + i) := by
  induction k generalizing i with
  | zero => rfl
  | succ k ih =>
    rw [findDelimiter, chars_succ, findIdx?_cons]
    by_cases hdelim : m.u16 (start + 2 * i) = space ∨ m.u16 (start + 2 * i) = 0
    · rw [if_pos hdelim, if_pos (isDelimiter_iff.mpr hdelim)]
      simp
    rw [if_neg hdelim, if_neg fun h => hdelim (isDelimiter_iff.mp h), ih, Option.map_map]
    congr 1
    funext x
    show x + (i + 1) = x + 1 + i
    omega

lemma dropWhile_chars (p k : ℕ) :
    let a := ((m.chars p k).takeWhile (· = space)).length
    m.chars p a = List.replicate a space ∧ a ≤ k ∧
      (m.chars p k).dropWhile (· = space) = m.chars (p + 2 * a) (k - a) ∧
      ∀ c ∈ (m.chars (p + 2 * a) (k - a)).head?, c ≠ space := by
  intro a
  have hsplit : (m.chars p k).takeWhile (· = space) ++ (m.chars p k).dropWhile (· = space) =
      m.chars p k := takeWhile_append_dropWhile
  have hle : a ≤ k := by
    have hlen := congrArg List.length hsplit
    rw [length_append, length_chars] at hlen
    exact Nat.le_of_add_right_le (Nat.le_of_eq hlen)
  have hchars : m.chars p k = m.chars p a ++ m.chars (p + 2 * a) (k - a) := by
    rw [← chars_add, Nat.add_sub_cancel' hle]
  obtain ⟨hspaces, hrest⟩ := append_inj (hsplit.trans hchars) (length_chars m p a).symm
  refine ⟨?_, hle, hrest, ?_⟩
  · rw [← hspaces]
    refine eq_replicate_of_mem fun c hc => ?_
    have hspace := mem_takeWhile_imp hc
    exact of_decide_eq_true hspace
  · intro c hc
    have hhead := List.head?_dropWhile_not (fun c : ℕ => decide (c = space)) (m.chars p k)
    rw [hrest, Option.mem_def.mp hc] at hhead
    exact of_decide_eq_false hhead

end

/-! ## The parts -/

/-- The parts of a buffer: `a` spaces, an argument without space or `NUL`, the character that ends
it and the bytes behind it. -/
structure Partition (m : Mem) (input inSize a : ℕ) (arg : List ℕ) (d : ℕ) (rest : List UInt8) :
    Prop where
  bytes : m.slice input inSize =
    wideBytes (List.replicate a space) ++ (wideBytes arg ++ (wideBytes [d] ++ rest))
  leading : arg = [] → d ≠ space
  arg : ∀ c ∈ arg, c ≠ space ∧ c ≠ 0
  delimiter : d = space ∨ d = 0

lemma partition_of_findIdx {m : Mem} {input inSize a i : ℕ}
    (hspaces : m.chars input a = List.replicate a space) (hle : a ≤ inSize / 2)
    (hhead : ∀ c ∈ (m.chars (input + 2 * a) (inSize / 2 - a)).head?, c ≠ space)
    (hidx : (m.chars (input + 2 * a) (inSize / 2 - a)).findIdx? isDelimiter = some i) :
    i < inSize / 2 - a ∧
      Partition m input inSize a (m.chars (input + 2 * a) i) (m.u16 (input + 2 * (a + i)))
        (m.slice (input + 2 * (a + i + 1)) (inSize - 2 * (a + i + 1))) := by
  obtain ⟨hi, hdelim, hbefore⟩ := findIdx?_eq_some_iff_getElem.mp hidx
  have hd : input + 2 * a + 2 * i = input + 2 * (a + i) := by omega
  have hrest : input + 2 * (a + i) + 2 = input + 2 * (a + i + 1) := by omega
  rw [length_chars] at hi
  rw [getElem_chars, hd] at hdelim
  refine ⟨hi, ?_, ?_, ?_, isDelimiter_iff.mp hdelim⟩
  · have hsize : inSize = 2 * a + (2 * i + (2 + (inSize - 2 * (a + i + 1)))) := by omega
    calc m.slice input inSize
        = m.slice input (2 * a + (2 * i + (2 + (inSize - 2 * (a + i + 1))))) := by rw [← hsize]
      _ = m.slice input (2 * a) ++ (m.slice (input + 2 * a) (2 * i) ++
            (m.slice (input + 2 * (a + i)) 2 ++
              m.slice (input + 2 * (a + i + 1)) (inSize - 2 * (a + i + 1)))) := by
          rw [slice_add, slice_add, slice_add, hd, hrest]
      _ = _ := by
          rw [slice_eq_wideBytes, hspaces, slice_eq_wideBytes, ← numberBytes_u16]
          simp [wideBytes]
  · intro hnil
    have hzero : i = 0 := by
      have hlen := congrArg List.length hnil
      rwa [length_chars] at hlen
    apply hhead
    rw [hzero, show inSize / 2 - a = inSize / 2 - a - 1 + 1 by omega, chars_succ]
    rfl
  · intro c hc
    obtain ⟨j, hj, rfl⟩ := getElem_of_mem hc
    have hnot := hbefore j (by rwa [length_chars] at hj)
    rw [getElem_chars] at hnot ⊢
    exact not_or.mp fun h => hnot (isDelimiter_iff.mpr h)

/-- The function says where the argument is and what follows, and overwrites the end of the argument
alone. -/
def Split.Of (m m' : Mem) (input inSize : ℕ) (r : Split) : Prop :=
  ∃ (a : ℕ) (arg : List ℕ) (d : ℕ) (rest : List UInt8), Partition m input inSize a arg d rest ∧
    r.arg0 = input + 2 * a ∧
    r.remainingSize = rest.length ∧
    r.remaining = (if rest = [] then none else some (input + 2 * (a + arg.length + 1))) ∧
    m' = m.store (input + 2 * (a + arg.length)) 2 0

def Partitions (m : Mem) (input inSize : ℕ) : Option Split × Mem → Prop
  | (none, m') => m' = m
  | (some r, m') => r.Of m m' input inSize

/-- Every buffer is taken apart: spaces, an argument, the character that ends it, which is all that
is overwritten, and the rest. There is no argument iff there is no space or `NUL` behind the spaces.
-/
theorem splitLoadOptions_partitions (m : Mem) (input inSize : ℕ) :
    Partitions m input inSize (splitLoadOptions m input inSize) ∧
      ((splitLoadOptions m input inSize).1 = none ↔
        ∀ c ∈ (m.chars input (inSize / 2)).dropWhile (· = space), c ≠ space ∧ c ≠ 0) := by
  obtain ⟨hspaces, hle, hrest, hhead⟩ := dropWhile_chars m input (inSize / 2)
  generalize ha : ((m.chars input (inSize / 2)).takeWhile (· = space)).length = a at *
  have hstart : skipSpaces m (inSize / 2) input = input + 2 * a := by rw [skipSpaces_eq, ha]
  have hleft : (inSize - (input + 2 * a - input)) / 2 = inSize / 2 - a := by omega
  have hfind : findDelimiter m (input + 2 * a) (inSize / 2 - a) 0 =
      (m.chars (input + 2 * a) (inSize / 2 - a)).findIdx? isDelimiter := by
    rw [findDelimiter_eq]
    simp
  unfold splitLoadOptions
  dsimp only
  rw [hstart, hleft, hfind, hrest]
  cases hidx : (m.chars (input + 2 * a) (inSize / 2 - a)).findIdx? isDelimiter with
  | none =>
    refine ⟨rfl, iff_of_true rfl fun c hc => ?_⟩
    have hnot := findIdx?_eq_none_iff.mp hidx c hc
    exact not_or.mp fun h => Bool.false_ne_true (hnot.symm.trans (isDelimiter_iff.mpr h))
  | some i =>
    obtain ⟨hi, hpart⟩ := partition_of_findIdx hspaces hle hhead hidx
    have hsize : inSize - (input + 2 * a - input) - (i + 1) * 2 = inSize - 2 * (a + i + 1) := by
      omega
    dsimp only
    rw [hsize]
    refine ⟨⟨a, _, _, _, hpart, rfl, ?_, ?_, ?_⟩, iff_of_false (fun h => by cases h) fun hall => ?_⟩
    · rw [length_slice]
    · rw [length_chars]
      have hnil : m.slice (input + 2 * (a + i + 1)) (inSize - 2 * (a + i + 1)) = [] ↔
          inSize - 2 * (a + i + 1) = 0 := by
        rw [← length_eq_zero_iff, length_slice]
      by_cases hnone : inSize - 2 * (a + i + 1) = 0
      · rw [if_neg (by omega), if_pos (hnil.mpr hnone)]
      · rw [if_pos (Nat.pos_of_ne_zero hnone), if_neg fun h => hnone (hnil.mp h),
          show input + 2 * a + 2 * (i + 1) = input + 2 * (a + i + 1) by omega]
    · rw [length_chars]
      show m.store (input + 2 * a + 2 * i) 2 0 = _
      congr 1
      omega
    · obtain ⟨hlt, hdelim, -⟩ := findIdx?_eq_some_iff_getElem.mp hidx
      obtain ⟨hspace, hnul⟩ := hall _ (getElem_mem hlt)
      exact (isDelimiter_iff.mp hdelim).elim hspace hnul

/-- Two spaces, an argument of one character, a space and three bytes; and a buffer of spaces. -/
example : (splitLoadOptions (.ofBytes [0x20, 0, 0x20, 0, 0x61, 0, 0x20, 0, 0x62, 0, 0x63]) 0 11).1 =
        some ⟨4, some 8, 3⟩ ∧
      (splitLoadOptions (.ofBytes [0x20, 0, 0x20, 0]) 0 4).1 = none := by
  decide +kernel

end Shim.LoadOptions
