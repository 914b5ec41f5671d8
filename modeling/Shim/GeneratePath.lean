import Mathlib.Data.List.Destutter
import Mathlib.Data.List.DropRight
import Shim.Efi
import Shim.Lib.Buffer

/-!
# The path of the next image

The second stage lies in the directory that shim was started from, unless its name is a full path.
`generate_path_from_image_path` edits the text of shim's device path in place until the directory is
left, and copies it and the file name into a new buffer. Every access is checked against its buffer.
-/

namespace Shim.LoadOptions

open Lib List

/-! ## The model -/

def efiDirectory : List UInt16 := [0x5c, 0x45, 0x46, 0x49, 0x5c]

def convertSlashes : ℕ → ℕ → List UInt16 → Except OutOfRange (List UInt16)
  | 0, _, b => .ok b
  | k + 1, i, b => do
    let c ← readAt b i
    if c = slash then
      let b ← writeAt b i backslash
      convertSlashes k (i + 1) b
    else convertSlashes k (i + 1) b

/-- The loop from the end of the text: it marks each backslash behind a backslash, and `last` is the
index of the first other backslash it meets. -/
def markRepeated : ℕ → List UInt16 → ℤ → Except OutOfRange (List UInt16 × ℤ)
  | 0, b, last => .ok (b, last)
  | i + 1, b, last => do
    let c ← readAt b (i + 1)
    if c = backslash then
      let p ← readAt b i
      if p = backslash then
        let b ← writeAt b (i + 1) slash
        markRepeated i b last
      else markRepeated i b (if last = -1 then i + 1 else last)
    else markRepeated i b last

def testFirst (b : List UInt16) (last : ℤ) : Except OutOfRange ℤ := do
  if last = -1 then
    let c ← readAt b 0
    return if c = backslash then 0 else last
  else return last

/-- The loop that removes the marks in place, from `i` on, with what it kept in front of `j`. -/
def compact : ℕ → ℕ → ℕ → List UInt16 → Except OutOfRange (List UInt16)
  | 0, i, _, _ => .error ⟨i⟩
  | k + 1, i, j, b => do
    let c ← readAt b i
    if c = 0 then writeAt b j 0
    else if c ≠ slash then
      let b ← writeAt b j c
      compact k (i + 1) (j + 1) b
    else compact k (i + 1) j b

def cutDirectory (b : List UInt16) (last : ℤ) : Except OutOfRange (List UInt16) := do
  let last ← testFirst b last
  let b ← writeAt b (last + 1) 0
  if 0 < last then compact b.length 0 0 b else return b

def bootDirectory (bootpath : List UInt16) : Except OutOfRange (List UInt16) := do
  let pathlen ← strLen bootpath
  let b ← convertSlashes pathlen 0 bootpath
  let marked ← markRepeated pathlen b (-1)
  cutDirectory marked.1 marked.2

def lastSeparator (imagePath : List UInt16) : ℕ → ℕ → ℕ → Except OutOfRange ℕ
  | 0, _, last => .ok last
  | k + 1, i, last => do
    let c ← readAt imagePath i
    lastSeparator imagePath k (i + 1) (if c = backslash then i + 1 else last)

def upper (c : UInt16) : UInt16 := if 0x61 ≤ c ∧ c ≤ 0x7a then c - 32 else c

def strnCaseCmp : ℕ → List UInt16 → List UInt16 → Except OutOfRange ℤ
  | 0, _, _ => .ok 0
  | n + 1, c0 :: s0, c1 :: s1 =>
    if c0 = 0 ∨ c1 = 0 then .ok (c1.toNat - c0.toNat)
    else if upper c0 ≠ upper c1 then .ok ((upper c1).toNat - (upper c0).toNat)
    else strnCaseCmp n s0 s1
  | _ + 1, _, _ => .error ⟨0⟩

def allocatePool (pool : Option (ℕ → UInt16)) (size : ℕ) : Option (List UInt16) :=
  pool.map fun content => (List.range (size / 2)).map content

def isFullPath (imagePath : List UInt16) : Except OutOfRange Bool := do
  if 5 < (← strSize imagePath) then
    return (← strnCmp 5 imagePath (efiDirectory ++ [0])) = 0
  else return false

def strDuplicate (pool : Option (ℕ → UInt16)) (s : List UInt16) :
    Except OutOfRange (Option (List UInt16)) := do
  let n ← strLen s
  return (allocatePool pool ((n + 1) * 2)).map fun _ => s.take (n + 1)

def joinPath (pool : Option (ℕ → UInt16)) (bootpath imagePath : List UInt16) :
    Except OutOfRange (Except EfiStatus (List UInt16)) := do
  match allocatePool pool ((← strSize bootpath) + (← strSize imagePath)) with
  | none => return .error .outOfResources
  | some pathName =>
    let pathName ← writeAt pathName 0 0
    let cmp ← strnCaseCmp (← strLen bootpath) bootpath imagePath
    if cmp ≠ 0 then
      let pathName ← strCat pathName bootpath
      return .ok (← strCat pathName imagePath)
    else return .ok (← strCat pathName imagePath)

def generatePathFromImagePath (pool : Option (ℕ → UInt16)) (bootpath imagePath : List UInt16) :
    Except OutOfRange (Except EfiStatus (List UInt16)) := do
  if ← isFullPath imagePath then
    match ← strDuplicate pool imagePath with
    | none => return .error .outOfResources
    | some pathName => return .ok pathName
  else
    let bootpath ← bootDirectory bootpath
    let last ← lastSeparator imagePath (← strLen imagePath) 0 0
    joinPath pool bootpath (imagePath.drop last)

def dirPart (s : List UInt16) : List UInt16 := s.rdropWhile (· ≠ backslash)

def filePart (s : List UInt16) : List UInt16 := s.rtakeWhile (· ≠ backslash)

def squeeze (s : List UInt16) : List UInt16 :=
  s.destutter fun a b => ¬ (a = backslash ∧ b = backslash)

def toBackslash (c : UInt16) : UInt16 := if c = slash then backslash else c

def generatedPath (dev image : List UInt16) : List UInt16 :=
  if efiDirectory <+: image then image
  else squeeze (dirPart (dev.map toBackslash)) ++ filePart image

lemma slash_not_mem_map (s : List UInt16) : slash ∉ s.map toBackslash := by
  rw [mem_map]
  rintro ⟨c, -, hc⟩
  unfold toBackslash at hc
  split_ifs at hc with h
  · exact absurd hc (by decide)
  · exact h hc

lemma nul_not_mem_map {s : List UInt16} (hs : 0 ∉ s) : 0 ∉ s.map toBackslash := by
  rw [mem_map]
  rintro ⟨c, hmem, hc⟩
  unfold toBackslash at hc
  split_ifs at hc with h
  · exact absurd hc (by decide)
  · exact hs (hc ▸ hmem)

lemma convertSlashes_eq (s l r : List UInt16) :
    convertSlashes s.length l.length (l ++ s ++ r) = .ok (l ++ s.map toBackslash ++ r) := by
  induction s generalizing l with
  | nil => rw [map_nil]; rfl
  | cons c s ih =>
    have hnext := ih (l ++ [toBackslash c])
    rw [length_append, length_singleton, append_assoc l, append_assoc l,
      append_assoc l, append_assoc l, singleton_append, singleton_append] at hnext
    rw [append_assoc, append_assoc, map_cons, cons_append, cons_append,
      length_cons, convertSlashes, readAt_append rfl, ok_bind]
    unfold toBackslash at hnext ⊢
    split_ifs at hnext ⊢ with h
    · rw [writeAt_append rfl, ok_bind]
      exact hnext
    · exact hnext

/-! ## Repeated backslashes -/

def mark (prev : Option UInt16) (c : UInt16) : UInt16 :=
  if c = backslash ∧ prev = some backslash then slash else c

def marks : Option UInt16 → List UInt16 → List UInt16
  | _, [] => []
  | prev, c :: s => mark prev c :: marks (some c) s

lemma length_marks (prev : Option UInt16) (s : List UInt16) : (marks prev s).length = s.length := by
  induction s generalizing prev with
  | nil => rfl
  | cons c s ih => rw [marks, length_cons, ih, length_cons]

lemma marks_append (prev : Option UInt16) (s t : List UInt16) :
    marks prev (s ++ t) = marks prev s ++ marks (s.getLast?.or prev) t := by
  induction s generalizing prev with
  | nil => rfl
  | cons c s ih =>
    rw [cons_append, marks, marks, ih, cons_append]
    cases s with
    | nil => rfl
    | cons d s => rfl

def lastRun : List UInt16 → ℤ
  | c :: p :: r => if c = backslash ∧ p ≠ backslash then r.length + 1 else lastRun (p :: r)
  | _ => -1

lemma markRepeated_eq (r : List UInt16) (c : UInt16) (done : List UInt16) (last : ℤ) :
    markRepeated r.length (r.reverse ++ c :: done) last =
      .ok (marks none (r.reverse ++ [c]) ++ done, if last = -1 then lastRun (c :: r) else last) := by
  induction r generalizing c done last with
  | nil =>
    have hmark : mark none c = c := if_neg (by simp)
    simp only [reverse_nil, nil_append, marks, hmark, lastRun, length_nil,
      markRepeated, singleton_append]
    split_ifs with h
    · rw [h]
    · rfl
  | cons p r ih =>
    have hlen : ((r.length : ℤ) + 1) = (r.reverse ++ [p]).length := by simp
    have hsplit : (p :: r).reverse ++ c :: done = r.reverse ++ [p] ++ c :: done := by
      rw [reverse_cons]
    have hat : r.reverse ++ [p] ++ c :: done = r.reverse ++ p :: c :: done := by simp
    have hmarks : marks none ((p :: r).reverse ++ [c]) ++ done =
        marks none (r.reverse ++ [p]) ++ mark (some p) c :: done := by
      rw [reverse_cons, marks_append, getLast?_concat, append_assoc]
      rfl
    rw [hsplit, hmarks, length_cons, markRepeated, readAt_append hlen, ok_bind]
    by_cases hc : c = backslash
    · rw [if_pos hc, hat, readAt_append (by simp), ok_bind]
      by_cases hp : p = backslash
      · have hmark : mark (some p) c = slash := if_pos ⟨hc, congrArg some hp⟩
        have hrun : lastRun (c :: p :: r) = lastRun (p :: r) := if_neg fun h => h.2 hp
        rw [if_pos hp, ← hat, writeAt_append hlen, ok_bind, hmark, hrun]
        simpa using ih p (slash :: done) last
      · have hmark : mark (some p) c = c := if_neg fun h => hp (Option.some.inj h.2)
        have hrun : lastRun (c :: p :: r) = r.length + 1 := if_pos ⟨hc, hp⟩
        rw [if_neg hp, hmark, hrun, ih]
        by_cases hlast : last = -1
        · rw [if_pos hlast, if_neg (by omega)]
        · rw [if_neg hlast, if_neg hlast]
    · have hmark : mark (some p) c = c := if_neg fun h => hc h.1
      have hrun : lastRun (c :: p :: r) = lastRun (p :: r) := if_neg fun h => hc h.1
      rw [if_neg hc, hmark, hrun, hat]
      exact ih p (c :: done) last

lemma lastRun_cons_of_ne {c : UInt16} (hc : c ≠ backslash) (r : List UInt16) :
    lastRun (c :: r) = lastRun r := by
  cases r with
  | nil => rfl
  | cons p r => exact if_neg fun h => hc h.1

lemma lastRun_append {w : List UInt16} (hw : backslash ∉ w) (r : List UInt16) :
    lastRun (w ++ r) = lastRun r := by
  induction w with
  | nil => rfl
  | cons c w ih =>
    rw [cons_append, lastRun_cons_of_ne (ne_of_not_mem_cons hw).symm,
      ih (not_mem_of_not_mem_cons hw)]

lemma lastRun_replicate (m : ℕ) (r : List UInt16) :
    lastRun (List.replicate m backslash ++ backslash :: r) = lastRun (backslash :: r) := by
  induction m with
  | zero => rfl
  | succ m ih =>
    rw [← ih, replicate_succ, cons_append]
    cases m with
    | zero => exact if_neg fun h => h.2 rfl
    | succ m => exact if_neg fun h => h.2 rfl

lemma lastRun_start {r : List UInt16} (hr : r.head? ≠ some backslash) :
    lastRun (backslash :: r) = if r = [] then -1 else (r.length : ℤ) := by
  cases r with
  | nil => rfl
  | cons p r =>
    have hp : p ≠ backslash := fun h => hr (congrArg some h)
    rw [if_neg (cons_ne_nil p r), length_cons, Nat.cast_add, Nat.cast_one]
    exact if_pos ⟨rfl, hp⟩

lemma dirPart_append_filePart (s : List UInt16) : dirPart s ++ filePart s = s :=
  rdropWhile_append_rtakeWhile

lemma not_mem_filePart (s : List UInt16) : backslash ∉ filePart s := by
  intro h
  have hne := mem_rtakeWhile_imp h
  exact of_decide_eq_true hne rfl

structure EndsInRun (s u : List UInt16) (m : ℕ) : Prop where
  dir : dirPart s = u ++ backslash :: List.replicate m backslash
  front : u.getLast? ≠ some backslash

lemma exists_endsInRun {s : List UInt16} (h : backslash ∈ s) : ∃ u m, EndsInRun s u m := by
  have hdir : dirPart s ≠ [] := by
    intro hnil
    have hall : ∀ x ∈ s, decide (x ≠ backslash) = true := rdropWhile_eq_nil_iff.mp hnil
    exact of_decide_eq_true (hall backslash h) rfl
  have hlast : (dirPart s).getLast hdir = backslash := by
    have hnot := rdropWhile_last_not _ s hdir
    rw [decide_eq_true_iff, not_not] at hnot
    exact hnot
  set run := (dirPart s).rtakeWhile (· = backslash) with hrun
  have hreplicate : run = List.replicate run.length backslash := by
    refine eq_replicate_length.mpr fun b hb => ?_
    have heq := mem_rtakeWhile_imp hb
    exact of_decide_eq_true heq
  have hpos : run ≠ [] := by
    intro hnil
    have hnot := rtakeWhile_eq_nil_iff.mp (hrun ▸ hnil) hdir
    exact hnot (decide_eq_true hlast)
  obtain ⟨m, hm⟩ := Nat.exists_eq_succ_of_ne_zero (mt length_eq_zero_iff.mp hpos)
  refine ⟨(dirPart s).rdropWhile (· = backslash), m, ?_, ?_⟩
  · have happ : (dirPart s).rdropWhile (· = backslash) ++ run = dirPart s :=
      rdropWhile_append_rtakeWhile
    rw [← replicate_succ, ← Nat.succ_eq_add_one, ← hm, ← hreplicate, happ]
  · intro hu
    obtain ⟨hne, heq⟩ := mem_getLast?_eq_getLast hu
    exact rdropWhile_last_not _ _ hne (decide_eq_true heq.symm)

section

variable {m : ℕ} {s : List UInt16}

lemma EndsInRun.eq {s u : List UInt16} (h : EndsInRun s u m) :
    s = u ++ backslash :: (List.replicate m backslash ++ filePart s) := by
  conv_lhs => rw [← dirPart_append_filePart s, h.dir]
  simp

lemma EndsInRun.lastRun_eq {s u : List UInt16} (h : EndsInRun s u m) :
    lastRun (0 :: s.reverse) = if u = [] then -1 else (u.length : ℤ) := by
  have hrev : 0 :: s.reverse =
      0 :: (filePart s).reverse ++ (List.replicate m backslash ++ backslash :: u.reverse) := by
    conv_lhs => rw [h.eq]
    simp
  have hback : backslash ∉ 0 :: (filePart s).reverse := by
    rw [mem_cons, mem_reverse]
    exact not_or.mpr ⟨by decide, not_mem_filePart s⟩
  have hfront : u.reverse.head? ≠ some backslash := by
    rw [List.head?_reverse]
    exact h.front
  rw [hrev, lastRun_append hback, lastRun_replicate, lastRun_start hfront, length_reverse]
  simp only [reverse_eq_nil_iff]

/-! ## Squeezing -/

lemma destutter_eq_filter (a : UInt16) (hs : slash ∉ s) :
    s.destutter' (fun a b => ¬ (a = backslash ∧ b = backslash)) a =
      a :: (marks (some a) s).filter (· ≠ slash) := by
  induction s generalizing a with
  | nil => rfl
  | cons c s ih =>
    have hc : c ≠ slash := (ne_of_not_mem_cons hs).symm
    have htail : slash ∉ s := not_mem_of_not_mem_cons hs
    rw [destutter'_cons, marks]
    by_cases h : a = backslash ∧ c = backslash
    · have hmark : mark (some a) c = slash := if_pos ⟨h.2, congrArg some h.1⟩
      rw [if_neg (not_not.mpr h), ih a htail, hmark, filter_cons_of_neg (by simp), h.1, h.2]
    · have hmark : mark (some a) c = c := if_neg fun hm => h ⟨Option.some.inj hm.2, hm.1⟩
      rw [if_pos h, ih c htail, hmark, filter_cons_of_pos (by simpa using hc)]

lemma squeeze_eq_filter (hs : slash ∉ s) : squeeze s = (marks none s).filter (· ≠ slash) := by
  cases s with
  | nil => rfl
  | cons c s =>
    have hc : c ≠ slash := (ne_of_not_mem_cons hs).symm
    have hmark : mark none c = c := if_neg (by simp)
    rw [marks, hmark, filter_cons_of_pos (by simpa using hc)]
    exact destutter_eq_filter c (not_mem_of_not_mem_cons hs)

lemma marks_replicate (m : ℕ) :
    marks (some backslash) (List.replicate m backslash) = List.replicate m slash := by
  induction m with
  | zero => rfl
  | succ m ih =>
    rw [replicate_succ, marks, ih, replicate_succ]
    rfl

lemma EndsInRun.squeeze_dirPart {s u : List UInt16} (h : EndsInRun s u m) (hs : slash ∉ s) :
    squeeze (dirPart s) = (marks none u ++ [backslash]).filter (· ≠ slash) := by
  have hdir : slash ∉ dirPart s := fun hmem => hs ((List.rdropWhile_prefix _ s).subset hmem)
  have hmark : mark (u.getLast?.or none) backslash = backslash := by
    rw [Option.or_none]
    exact if_neg fun hm => h.front hm.2
  have hrun : (List.replicate m slash).filter (· ≠ slash) = [] := by
    simp
  rw [squeeze_eq_filter hdir, h.dir, marks_append, marks, hmark, marks_replicate, filter_append,
    filter_append, filter_cons_of_pos (by decide), hrun]
  rfl

lemma compact_eq {todo : List UInt16} (htodo : 0 ∉ todo) (out gap junk : List UInt16) {k : ℕ}
    (hk : todo.length < k) :
    ∃ junk', compact k (out ++ gap).length out.length (out ++ gap ++ (todo ++ 0 :: junk)) =
      .ok (out ++ todo.filter (· ≠ slash) ++ 0 :: junk') := by
  induction todo generalizing out gap k with
  | nil =>
    obtain ⟨k, rfl⟩ := Nat.exists_eq_succ_of_ne_zero (Nat.ne_of_gt hk)
    rw [Nat.succ_eq_add_one, compact, nil_append, readAt_append rfl, ok_bind, if_pos rfl]
    cases gap with
    | nil =>
      rw [append_nil, writeAt_append rfl]
      exact ⟨junk, by simp⟩
    | cons g gap =>
      rw [append_assoc, cons_append, writeAt_append rfl]
      exact ⟨gap ++ 0 :: junk, by simp⟩
  | cons c todo ih =>
    obtain ⟨k, rfl⟩ := Nat.exists_eq_succ_of_ne_zero (Nat.ne_of_gt (Nat.zero_lt_of_lt hk))
    have hc : c ≠ 0 := (ne_of_not_mem_cons htodo).symm
    have htail : 0 ∉ todo := not_mem_of_not_mem_cons htodo
    have hlt : todo.length < k := Nat.lt_of_succ_lt_succ hk
    rw [Nat.succ_eq_add_one, compact, cons_append, readAt_append rfl, ok_bind, if_neg hc]
    by_cases hslash : c = slash
    · rw [if_neg (not_not.mpr hslash), filter_cons_of_neg (by simpa using hslash)]
      simpa [Nat.add_assoc] using ih htail out (gap ++ [c]) hlt
    rw [if_pos hslash, filter_cons_of_pos (by simpa using hslash)]
    -- the character lands on the first of the gap, or on itself
    cases gap with
    | nil =>
      rw [append_nil, writeAt_append rfl, ok_bind]
      simpa using ih htail (out ++ [c]) [] hlt
    | cons g gap =>
      rw [append_assoc, cons_append, writeAt_append rfl, ok_bind]
      simpa [Nat.add_assoc, Nat.add_comm 1] using ih htail (out ++ [c]) (gap ++ [c]) hlt

/-! ## The directory -/

lemma mem_marks {prev : Option UInt16} (hs : 0 ∉ s) : 0 ∉ marks prev s := by
  induction s generalizing prev with
  | nil => exact not_mem_nil
  | cons c s ih =>
    rw [marks, mem_cons]
    refine not_or.mpr ⟨?_, ih (not_mem_of_not_mem_cons hs)⟩
    unfold mark
    split_ifs with h
    · decide
    · exact ne_of_not_mem_cons hs

lemma marks_of_not_mem (hs : backslash ∉ s) (prev : Option UInt16) : marks prev s = s := by
  induction s generalizing prev with
  | nil => rfl
  | cons c s ih =>
    have hmark : mark prev c = c := if_neg fun h => ne_of_not_mem_cons hs h.1.symm
    rw [marks, hmark, ih (not_mem_of_not_mem_cons hs)]

end

section

variable {s : List UInt16}

lemma dirPart_of_not_mem (h : backslash ∉ s) : dirPart s = [] :=
  rdropWhile_eq_nil_iff.mpr fun _ hx => decide_eq_true fun hx' => h (hx' ▸ hx)

lemma cutDirectory_of_not_mem (h : backslash ∉ s) :
    ∃ junk, cutDirectory (marks none (s ++ [0])) (lastRun (0 :: s.reverse)) =
      .ok (squeeze (dirPart s) ++ 0 :: junk) := by
  have hback : backslash ∉ s ++ [0] := by
    rw [mem_append, mem_singleton]
    exact not_or.mpr ⟨h, by decide⟩
  have hlast : lastRun (0 :: s.reverse) = -1 := by
    have hrev : backslash ∉ 0 :: s.reverse := by
      rw [mem_cons, mem_reverse]
      exact not_or.mpr ⟨by decide, h⟩
    have happ := lastRun_append hrev []
    rw [append_nil] at happ
    exact happ
  obtain ⟨c, rest, hcons⟩ := exists_cons_of_ne_nil (append_ne_nil_of_right_ne_nil s
    (cons_ne_nil (0 : UInt16) []))
  have hc : c ≠ backslash := by
    rw [hcons] at hback
    exact (ne_of_not_mem_cons hback).symm
  have hread : readAt (c :: rest) 0 = .ok c := readAt_append (l := []) rfl c rest
  have hwrite : writeAt (c :: rest) (-1 + 1) 0 = .ok (0 :: rest) :=
    writeAt_append (l := []) rfl 0 c rest
  have hfirst : testFirst (c :: rest) (-1) = .ok (-1) := by
    unfold testFirst
    rw [if_pos rfl, hread, ok_bind, if_neg hc]
    rfl
  refine ⟨rest, ?_⟩
  unfold cutDirectory
  rw [marks_of_not_mem hback, hlast, hcons, hfirst, ok_bind, hwrite, ok_bind, dirPart_of_not_mem h]
  rfl

variable {u : List UInt16} {m : ℕ}

lemma EndsInRun.marks_eq (h : EndsInRun s u m) :
    ∃ c rest, marks none (s ++ [0]) = marks none u ++ [backslash] ++ c :: rest := by
  have hmark : mark (u.getLast?.or none) backslash = backslash := by
    rw [Option.or_none]
    exact if_neg fun hm => h.front hm.2
  have hs : s ++ [0] = u ++ backslash :: (List.replicate m backslash ++ filePart s ++ [0]) := by
    conv_lhs => rw [h.eq]
    simp
  obtain ⟨c, rest, hcons⟩ := exists_cons_of_ne_nil (append_ne_nil_of_right_ne_nil
    (List.replicate m backslash ++ filePart s) (cons_ne_nil (0 : UInt16) []))
  refine ⟨mark (some backslash) c, marks (some c) rest, ?_⟩
  rw [hs, marks_append, marks, hmark, hcons, marks, append_assoc]
  rfl

lemma EndsInRun.testFirst_eq (h : EndsInRun s u m) :
    testFirst (marks none (s ++ [0])) (lastRun (0 :: s.reverse)) = .ok (u.length : ℤ) := by
  obtain ⟨c, rest, hmarks⟩ := h.marks_eq
  rw [h.lastRun_eq, hmarks]
  unfold testFirst
  cases u with
  | nil =>
    rw [if_pos rfl, if_pos rfl]
    rfl
  | cons a u =>
    rw [if_neg (cons_ne_nil a u), if_neg (by omega)]
    rfl

lemma EndsInRun.cutDirectory_eq (h : EndsInRun s u m) (hnul : 0 ∉ s) (hslash : slash ∉ s) :
    ∃ junk, cutDirectory (marks none (s ++ [0])) (lastRun (0 :: s.reverse)) =
      .ok (squeeze (dirPart s) ++ 0 :: junk) := by
  obtain ⟨c, rest, hmarks⟩ := h.marks_eq
  have hat : (u.length : ℤ) + 1 = (marks none u ++ [backslash]).length := by
    rw [length_append, length_marks]
    rfl
  have htext : 0 ∉ marks none u ++ [backslash] := by
    have hu : 0 ∉ u := fun hmem => hnul (h.eq ▸ mem_append_left _ hmem)
    rw [mem_append, mem_singleton]
    exact not_or.mpr ⟨mem_marks hu, by decide⟩
  unfold cutDirectory
  rw [h.testFirst_eq, ok_bind, hmarks, writeAt_append hat, ok_bind, h.squeeze_dirPart hslash]
  by_cases hpos : (0 : ℤ) < u.length
  · rw [if_pos hpos]
    refine compact_eq htext [] [] rest ?_
    rw [length_append]
    simp
  · have hu : u = [] := length_eq_zero_iff.mp (by omega)
    subst hu
    exact ⟨rest, rfl⟩

end

lemma bootDirectory_eq {dev : List UInt16} (hdev : 0 ∉ dev) : ∃ junk, bootDirectory (dev ++ [0]) =
      .ok (squeeze (dirPart (dev.map toBackslash)) ++ 0 :: junk) := by
  have hslash := slash_not_mem_map dev
  have hnul := nul_not_mem_map hdev
  set s := dev.map toBackslash with hs
  have hconvert : convertSlashes dev.length 0 (dev ++ [0]) = .ok (s ++ [0]) :=
    convertSlashes_eq dev [] [0]
  have hlen : dev.length = s.reverse.length := by
    rw [length_reverse, hs, length_map]
  have hmark := markRepeated_eq s.reverse 0 [] (-1)
  rw [reverse_reverse, if_pos rfl, append_nil] at hmark
  unfold bootDirectory
  rw [strLen_of_text hdev, ok_bind, hconvert, ok_bind, hlen, hmark, ok_bind]
  by_cases h : backslash ∈ s
  · obtain ⟨u, m, hrun⟩ := exists_endsInRun h
    exact hrun.cutDirectory_eq hnul hslash
  · exact cutDirectory_of_not_mem h

lemma lastSeparator_eq (todo seen : List UInt16) {last : ℕ} (hle : last ≤ seen.length)
    (hlast : seen.drop last = filePart seen) :
    ∃ k, lastSeparator (seen ++ todo ++ [0]) todo.length seen.length last = .ok k ∧
      (seen ++ todo ++ [0]).drop k = filePart (seen ++ todo) ++ [0] := by
  induction todo generalizing seen last with
  | nil =>
    refine ⟨last, rfl, ?_⟩
    rw [append_nil, drop_append_of_le_length hle, hlast]
  | cons c todo ih =>
    have hsplit : seen ++ c :: todo = seen ++ [c] ++ todo := by simp
    have hread : readAt (seen ++ [c] ++ todo ++ [0]) seen.length = .ok c := by
      rw [append_assoc, append_assoc]
      exact readAt_append rfl c _
    have hlen : (seen ++ [c]).length = seen.length + 1 := length_append
    rw [length_cons, hsplit, lastSeparator, hread, ok_bind, ← hlen]
    by_cases hc : c = backslash
    · rw [if_pos hc, hlen]
      have hfile : filePart (seen ++ [c]) = [] := rtakeWhile_concat_neg _ _ _ (by simpa using hc)
      refine hlen ▸ ih (seen ++ [c]) le_rfl ?_
      rw [hfile, drop_length]
    · rw [if_neg hc]
      have hfile : filePart (seen ++ [c]) = filePart seen ++ [c] :=
        rtakeWhile_concat_pos _ _ _ (by simpa using hc)
      refine ih (seen ++ [c]) (by omega) ?_
      rw [hfile, drop_append_of_le_length hle, hlast]

/-! ## The new path -/

lemma upper_eq_backslash {c : UInt16} (h : upper c = backslash) : c = backslash := by
  unfold upper at h
  split_ifs at h with hletter
  · have hlow := UInt16.le_iff_toNat_le.mp hletter.1
    have hhigh := UInt16.le_iff_toNat_le.mp hletter.2
    have hle : (32 : UInt16) ≤ c := UInt16.le_iff_toNat_le.mpr (le_trans (by decide) hlow)
    have hval : c.toNat - 32 = 0x5c := by
      rw [← show backslash.toNat = 0x5c from rfl, ← h, UInt16.toNat_sub_of_le _ _ hle]
      rfl
    have htop : (0x7a : UInt16).toNat = 0x7a := rfl
    omega
  · exact h

lemma strnCaseCmp_eq_zero_iff {s t : List UInt16} (hs : 0 ∉ s) (ht : 0 ∉ t)
    (junk junk' : List UInt16) :
    ∃ z, strnCaseCmp s.length (s ++ 0 :: junk) (t ++ 0 :: junk') = .ok z ∧
      (z = 0 ↔ s.map upper <+: t.map upper) := by
  induction s generalizing t with
  | nil => exact ⟨0, rfl, iff_of_true rfl nil_prefix⟩
  | cons c s ih =>
    have hc : c ≠ 0 := (ne_of_not_mem_cons hs).symm
    cases t with
    | nil =>
      refine ⟨_, if_pos (.inr rfl), ?_⟩
      have hpos : c.toNat ≠ 0 := fun h => hc (UInt16.toNat_inj.mp h)
      have hzero : (0 : UInt16).toNat = 0 := rfl
      refine iff_of_false (by omega) ?_
      rw [map_cons, map_nil, prefix_nil]
      exact cons_ne_nil _ _
    | cons e t =>
      have he : e ≠ 0 := (ne_of_not_mem_cons ht).symm
      have hboth : ¬ (c = 0 ∨ e = 0) := not_or.mpr ⟨hc, he⟩
      rw [length_cons, cons_append, cons_append, strnCaseCmp, if_neg hboth,
        map_cons, map_cons, cons_prefix_cons]
      by_cases hup : upper c = upper e
      · rw [if_neg (not_not.mpr hup), and_iff_right hup]
        exact ih (not_mem_of_not_mem_cons hs) (not_mem_of_not_mem_cons ht)
      · rw [if_pos hup]
        have hne : (upper c).toNat ≠ (upper e).toNat := fun h => hup (UInt16.toNat_inj.mp h)
        exact ⟨_, rfl, iff_of_false (by omega) fun h => hup h.1⟩

lemma strnCaseCmp_ne_zero {d f : List UInt16} (hd : 0 ∉ d) (hf : 0 ∉ f) (hdir : backslash ∈ d)
    (hfile : backslash ∉ f) (junk : List UInt16) :
    ∃ z, strnCaseCmp d.length (d ++ 0 :: junk) (f ++ [0]) = .ok z ∧ z ≠ 0 := by
  obtain ⟨z, hz, hiff⟩ := strnCaseCmp_eq_zero_iff hd hf junk []
  refine ⟨z, hz, fun hzero => ?_⟩
  have hup : backslash ∈ d.map upper := mem_map.mpr ⟨backslash, hdir, by decide⟩
  obtain ⟨c, hc, heq⟩ := mem_map.mp ((hiff.mp hzero).subset hup)
  exact hfile (upper_eq_backslash heq ▸ hc)

section

variable {d f : List UInt16} (hd : 0 ∉ d) (hf : 0 ∉ f) (junk : List UInt16)
include hd hf

lemma joinPath_none :
    joinPath none (d ++ 0 :: junk) (f ++ [0]) = .ok (.error .outOfResources) := by
  unfold joinPath
  rw [strSize_of_text hd, ok_bind, strSize_of_text hf, ok_bind]
  rfl

lemma joinPath_some (hdir : d = [] ∨ backslash ∈ d) (hfile : backslash ∉ f)
    (content : ℕ → UInt16) :
    ∃ spare, joinPath (some content) (d ++ 0 :: junk) (f ++ [0]) =
      .ok (.ok (d ++ f ++ 0 :: spare)) := by
  have hsize : ((d.length + 1) * 2 + (f.length + 1) * 2) / 2 = (d.length + f.length + 1) + 1 := by
    omega
  obtain ⟨rest, hrest, halloc⟩ : ∃ rest : List UInt16, rest.length = d.length + f.length + 1 ∧
      allocatePool (some content) ((d.length + 1) * 2 + (f.length + 1) * 2) =
        some (content 0 :: rest) := by
    refine ⟨((List.range (d.length + f.length + 1)).map Nat.succ).map content, by simp, ?_⟩
    rw [allocatePool, hsize, range_succ_eq_map]
    rfl
  have hwrite : writeAt (content 0 :: rest) 0 0 = .ok (0 :: rest) :=
    writeAt_append (l := []) rfl 0 (content 0) rest
  unfold joinPath
  rw [strSize_of_text hd, ok_bind, strSize_of_text hf, ok_bind, halloc]
  simp only [hwrite, ok_bind, strLen_of_text hd]
  cases hdir with
  | inl hnil =>
    subst hnil
    have hcat := strCat_of_text (s := []) not_mem_nil hf (by omega : f.length ≤ rest.length) []
    refine ⟨rest.drop f.length, ?_⟩
    rw [length_nil, strnCaseCmp, ok_bind, if_neg (not_not.mpr rfl), ← nil_append (0 :: rest),
      hcat]
    rfl
  | inr hmem =>
    obtain ⟨z, hz, hne⟩ := strnCaseCmp_ne_zero hd hf hmem hfile junk
    have hfirst := strCat_of_text (s := []) not_mem_nil hd (by omega : d.length ≤ rest.length) junk
    have hroom : f.length ≤ (rest.drop d.length).length := by
      rw [length_drop]
      omega
    refine ⟨(rest.drop d.length).drop f.length, ?_⟩
    rw [hz, ok_bind, if_pos hne, ← nil_append (0 :: rest), hfirst, ok_bind, nil_append,
      strCat_of_text hd hf hroom []]
    rfl

end

/-! ## The function -/

section

variable {s : List UInt16} (dev image : Text)

lemma isFullPath_eq {image : List UInt16} (himage : 0 ∉ image) :
    isFullPath (image ++ [0]) = .ok (decide (efiDirectory <+: image)) := by
  obtain ⟨z, hz, hiff⟩ := strnCmp_eq_zero_iff (p := efiDirectory) (by decide) himage
  have hlen : efiDirectory.length = 5 := rfl
  rw [hlen] at hz
  unfold isFullPath
  rw [strSize_of_text himage, ok_bind]
  by_cases hsize : 5 < (image.length + 1) * 2
  · rw [if_pos hsize, hz, ok_bind, decide_eq_decide.mpr hiff]
    rfl
  have hnot : ¬ efiDirectory <+: image := by
    intro h
    have hle := h.length_le
    omega
  rw [if_neg hsize, decide_eq_false hnot]
  rfl

lemma squeeze_dirPart_cases (hs : slash ∉ s) :
    squeeze (dirPart s) = [] ∨ backslash ∈ squeeze (dirPart s) := by
  by_cases h : backslash ∈ s
  · obtain ⟨u, m, hrun⟩ := exists_endsInRun h
    right
    rw [hrun.squeeze_dirPart hs, mem_filter]
    exact ⟨mem_append_right _ mem_cons_self, by decide⟩
  · left
    rw [dirPart_of_not_mem h]
    rfl

lemma not_mem_squeeze_dirPart {c : UInt16} (hs : c ∉ s) : c ∉ squeeze (dirPart s) := by
  intro h
  have hdir : c ∈ dirPart s := (destutter_sublist _ _).subset h
  exact hs ((List.rdropWhile_prefix _ s).subset hdir)

lemma nul_not_mem_filePart (hs : 0 ∉ s) : 0 ∉ filePart s := fun h =>
  hs ((rtakeWhile_suffix _ s).subset h)

lemma nul_not_mem_generatedPath : 0 ∉ generatedPath dev.chars image.chars := by
  unfold generatedPath
  split_ifs with hefi
  · exact image.noNul
  · rw [mem_append]
    exact not_or.mpr ⟨not_mem_squeeze_dirPart (nul_not_mem_map dev.noNul),
      nul_not_mem_filePart image.noNul⟩

lemma strDuplicate_eq {t : List UInt16} (ht : 0 ∉ t) (pool : Option (ℕ → UInt16)) :
    strDuplicate pool (t ++ [0]) = .ok (pool.map fun _ => t ++ [0]) := by
  have htake : (t ++ [0]).take (t.length + 1) = t ++ [0] := take_of_length_le (by simp)
  unfold strDuplicate allocatePool
  rw [strLen_of_text ht, ok_bind, htake, Option.map_map]
  rfl

lemma generatePathFromImagePath_full {image : List UInt16} (himage : 0 ∉ image)
    (hefi : efiDirectory <+: image) (pool : Option (ℕ → UInt16)) (bootpath : List UInt16) :
    generatePathFromImagePath pool bootpath (image ++ [0]) = match pool with
      | none => .ok (.error .outOfResources)
      | some _ => .ok (.ok (image ++ [0])) := by
  unfold generatePathFromImagePath
  rw [isFullPath_eq himage, ok_bind, if_pos (decide_eq_true hefi), strDuplicate_eq himage]
  cases pool with
  | none => rfl
  | some content => rfl

lemma generatePathFromImagePath_relative {dev image : List UInt16} (hdev : 0 ∉ dev)
    (himage : 0 ∉ image) (hefi : ¬ efiDirectory <+: image) :
    ∃ junk, ∀ pool, generatePathFromImagePath pool (dev ++ [0]) (image ++ [0]) =
      joinPath pool (squeeze (dirPart (dev.map toBackslash)) ++ 0 :: junk)
        (filePart image ++ [0]) := by
  obtain ⟨junk, hboot⟩ := bootDirectory_eq hdev
  obtain ⟨k, hlast, hdrop⟩ := lastSeparator_eq image [] le_rfl rfl
  rw [nil_append] at hlast hdrop
  refine ⟨junk, fun pool => ?_⟩
  have hnot : ¬ decide (efiDirectory <+: image) = true := by
    rw [decide_eq_true_iff]
    exact hefi
  unfold generatePathFromImagePath
  rw [isFullPath_eq himage, ok_bind, if_neg hnot, hboot, ok_bind, strLen_of_text himage, ok_bind]
  rw [length_nil] at hlast
  rw [hlast, ok_bind, hdrop]

lemma generatePathFromImagePath_none :
    generatePathFromImagePath none dev.buffer image.buffer = .ok (.error .outOfResources) := by
  unfold Text.buffer
  by_cases hefi : efiDirectory <+: image.chars
  · exact generatePathFromImagePath_full image.noNul hefi none _
  obtain ⟨junk, hjoin⟩ := generatePathFromImagePath_relative dev.noNul image.noNul hefi
  rw [hjoin]
  exact joinPath_none (not_mem_squeeze_dirPart (nul_not_mem_map dev.noNul))
    (nul_not_mem_filePart image.noNul) junk

lemma generatePathFromImagePath_some (content : ℕ → UInt16) :
    ∃ spare, generatePathFromImagePath (some content) dev.buffer image.buffer =
      .ok (.ok (generatedPath dev.chars image.chars ++ 0 :: spare)) := by
  unfold Text.buffer generatedPath
  by_cases hefi : efiDirectory <+: image.chars
  · refine ⟨[], ?_⟩
    rw [generatePathFromImagePath_full image.noNul hefi, if_pos hefi]
  obtain ⟨junk, hjoin⟩ := generatePathFromImagePath_relative dev.noNul image.noNul hefi
  rw [if_neg hefi, hjoin]
  exact joinPath_some (not_mem_squeeze_dirPart (nul_not_mem_map dev.noNul))
    (nul_not_mem_filePart image.noNul) junk (squeeze_dirPart_cases (slash_not_mem_map dev.chars))
    (not_mem_filePart image.chars) content

end

/-- For all strings the function generates the path it is for, if there is memory. Each access is in
its buffer: the edits of the device path, and the copies into the new one. -/
theorem generatePathFromImagePath_generates (dev image : Text) :
    generatePathFromImagePath none dev.buffer image.buffer = .ok (.error .outOfResources) ∧
    ∀ content, ∃ spare, generatePathFromImagePath (some content) dev.buffer image.buffer =
      .ok (.ok (generatedPath dev.chars image.chars ++ 0 :: spare)) :=
  ⟨generatePathFromImagePath_none dev image, generatePathFromImagePath_some dev image⟩

example : generatePathFromImagePath (some fun _ => 7) [0x61, 0x2f, 0x2f, 0x62, 0] [0x5c, 0x63, 0] =
    .ok (.ok [0x61, 0x5c, 0x63, 0, 7]) := by
  rfl

end Shim.LoadOptions
