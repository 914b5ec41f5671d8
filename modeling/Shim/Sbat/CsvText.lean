import Mathlib.Data.List.TakeWhile
import Shim.Sbat.Csv

/-!
# What the CSV parser makes of a text

The text of a buffer is what stands in front of its first `NUL`. The parser cuts it into the
non-empty pieces between line ends, and each of these at its commas; the strings of the columns are
those pieces, wherever in the buffer their pointers lie.
-/

namespace Shim.Sbat

open Lib List Mem Function List.Forall₂

variable {lo hi fuel : ℕ} {strs : List (List UInt8)} {a r e : List UInt8} {first : Bool}
variable {state : UInt8} {rows : List (List ℕ)}

variable {m : Mem} {next line last nColumns : ℕ} {s text : List UInt8} {alloc : ℕ → Bool}

/-! ## Columns -/

/-- The fields of a line. Without a comma it has none, for `strntoken` has then seen no delimiter
when it reaches the end. -/
def csvRow (nColumns : ℕ) (s : List UInt8) : List (List UInt8) :=
  if s = [] ∨ comma ∈ s then (s.splitOn comma).take nColumns else []

def FieldsOk (required nColumns : ℕ) (line : List UInt8) : Prop :=
  required ≤ (line.splitOn comma).length ∧ ∀ f ∈ (line.splitOn comma).take nColumns, f ≠ []

instance (required nColumns : ℕ) (line : List UInt8) : Decidable (FieldsOk required nColumns line) :=
  inferInstanceAs (Decidable (_ ∧ _))

def RowAt (m : Mem) (lo hi : ℕ) : List ℕ → List (List UInt8) → Prop :=
  List.Forall₂ fun p s => m.StrAt p s ∧ lo ≤ p ∧ p + s.length ≤ hi

lemma RowAt.of_eq {m' : Mem} {lo' hi' : ℕ} {cols : List ℕ}
    (h : RowAt m lo hi cols strs) (heq : ∀ i, lo ≤ i → i ≤ hi → m' i = m i) (hlo : lo' ≤ lo)
    (hhi : hi ≤ hi') : RowAt m' lo' hi' cols strs := by
  refine imp (fun p s hp => ?_) h
  obtain ⟨hstr, hfrom, hto⟩ := hp
  refine ⟨hstr.of_eq fun i h₁ h₂ => heq i (by omega) (by omega), by omega, by omega⟩

lemma RowAt.map_cstr {cols : List ℕ}
    (h : RowAt m lo hi cols strs) (hhi : hi < 2 ^ 64) : cols.map m.cstr = strs := by
  induction h with
  | nil => rfl
  | cons hp _ ih =>
    obtain ⟨hstr, _, hto⟩ := hp
    rw [map_cons, ih, hstr.cstr_eq (by omega)]

lemma splitOn_of_not_mem (h : comma ∉ s) : s.splitOn comma = [s] := by
  apply splitOnP_eq_singleton
  intro b hb
  have hne : b ≠ comma := fun heq => h (heq ▸ hb)
  simpa using hne

lemma splitOn_append_comma (h : comma ∉ a) :
    (a ++ comma :: r).splitOn comma = a :: r.splitOn comma := by
  apply splitOnP_append_cons_of_forall_mem
  · intro b hb
    have hne : b ≠ comma := fun heq => h (heq ▸ hb)
    simpa using hne
  · simp

lemma csvRow_of_fieldsOk {required : ℕ} (hreq : 1 < required) (h : FieldsOk required nColumns s) :
    csvRow nColumns s = (s.splitOn comma).take nColumns := by
  unfold csvRow
  rw [if_pos]
  by_contra hs
  have henough := h.1
  rw [splitOn_of_not_mem fun hmem => hs (.inr hmem), length_singleton] at henough
  omega

lemma csvRow_ok_iff {required : ℕ} (hreq : 1 < required) (hle : required ≤ nColumns)
    (s : List UInt8) :
    (required ≤ (csvRow nColumns s).length ∧ ∀ f ∈ csvRow nColumns s, f ≠ []) ↔
      FieldsOk required nColumns s := by
  constructor
  · rintro ⟨henough, hne⟩
    have hs : s = [] ∨ comma ∈ s := by
      by_contra hs
      rw [csvRow, if_neg hs, length_nil] at henough
      omega
    rw [csvRow, if_pos hs] at henough hne
    rw [length_take] at henough
    exact ⟨by omega, hne⟩
  · intro h
    rw [csvRow_of_fieldsOk hreq h, length_take]
    exact ⟨Nat.le_min.mpr ⟨hle, h.1⟩, h.2⟩

lemma strntoken_of_comma (h : m.StrAt next (a ++ comma :: r)) (ha : comma ∉ a)
    (hlt : next + (a ++ comma :: r).length < 2 ^ 64) :
    strntoken m next ((a ++ comma :: r).length + 1) comma first state =
      ⟨true, m.store (next + a.length) 1 0, comma⟩ := by
  have hlen : (a ++ comma :: r).length = a.length + (r.length + 1) := by simp
  have hbyte : m (next + a.length) = comma := by
    rw [h.byte (by omega)]
    simp
  have hscan : m.scan (fun b => b == 0 || b == comma) next ((a ++ comma :: r).length + 1) =
      a.length := by
    apply h.scan_eq
    · intro b hb
      have hne : b ≠ comma := fun heq => ha (heq ▸ hb)
      simp [hne, h.text b (by simp [hb])]
    · simp [hbyte]
    · omega
  have hend : min (addW 64 next ((a ++ comma :: r).length + 1 - 1))
      (strnchrnul m next ((a ++ comma :: r).length + 1) comma) = next + a.length := by
    rw [strnchrnul_of_nul (Nat.lt_succ_self _) h.nul, hscan, addW_of_lt (by omega)]
    omega
  unfold strntoken
  rw [if_neg (Nat.succ_ne_zero _)]
  simp only [hend, hbyte, if_true]

lemma strntoken_of_end (h : m.StrAt next s) (hs : comma ∉ s) (hlt : next + s.length < 2 ^ 64) :
    strntoken m next (s.length + 1) comma first state =
      ⟨(first && s.isEmpty) || (!first && comma == state), m, state⟩ := by
  have hscan : m.scan (fun b => b == 0 || b == comma) next (s.length + 1) = s.length := by
    have h' : m.StrAt next (s ++ []) := by rwa [append_nil]
    apply h'.scan_eq
    · intro b hb
      have hne : b ≠ comma := fun heq => hs (heq ▸ hb)
      simp [hne, h.text b hb]
    · simp [h.nul]
    · omega
  have hend : min (addW 64 next (s.length + 1 - 1)) (strnchrnul m next (s.length + 1) comma) =
      next + s.length := by
    rw [strnchrnul_of_nul (Nat.lt_succ_self _) h.nul, hscan, addW_of_lt (by omega)]
    omega
  have hspecial : (first && s.length + 1 == 1 && m next == 0) = (first && s.isEmpty) := by
    cases s with
    | nil => simpa using fun _ => h.nul
    | cons b s => simp
  unfold strntoken
  rw [if_neg (Nat.succ_ne_zero _)]
  simp only [hend, h.nul, hspecial]
  rw [if_neg (by decide)]

lemma parseCsvLineFrom_zero (m : Mem) (next : ℕ) (first : Bool) (state : UInt8) (n : ℕ) :
    parseCsvLineFrom m next 0 first state n = (m, []) := by
  cases n with
  | zero => rfl
  | succ n => rfl

def ParsedLine (m : Mem) (next : ℕ) (s : List UInt8) (r : Mem × List ℕ) (strs : List (List UInt8)) :
    Prop :=
  RowAt r.1 next (next + s.length) r.2 strs ∧ ∀ i, i < next ∨ next + s.length ≤ i → r.1 i = m i

lemma parsedLine_nil (m : Mem) (next : ℕ) (s : List UInt8) : ParsedLine m next s (m, []) [] :=
  ⟨List.Forall₂.nil, fun _ _ => rfl⟩

lemma ParsedLine.cons {q : Mem × List ℕ} (h : m.StrAt next (a ++ comma :: r))
    (hq : ParsedLine (m.store (next + a.length) 1 0) (next + (a.length + 1)) r q strs) :
    ParsedLine m next (a ++ comma :: r) (q.1, next :: q.2) (a :: strs) := by
  obtain ⟨hrow, hframe⟩ := hq
  have hlen : (a ++ comma :: r).length = a.length + (r.length + 1) := by simp
  refine ⟨List.Forall₂.cons ⟨?_, le_rfl, by omega⟩ ?_, fun i hi => ?_⟩
  · exact h.cut.of_eq fun i _ hi => hframe i (.inl (by omega))
  · exact RowAt.of_eq hrow (fun _ _ _ => rfl) (by omega) (by omega)
  · rw [hframe i (by omega), store_one_of_ne (by omega)]

lemma parseCsvLineFrom_of_comma (n : ℕ) (h : m.StrAt next (a ++ comma :: r)) (ha : comma ∉ a)
    (hlt : next + (a ++ comma :: r).length + 1 < 2 ^ 64) :
    parseCsvLineFrom m next ((a ++ comma :: r).length + 1) first state (n + 1) =
      let q := parseCsvLineFrom (m.store (next + a.length) 1 0) (next + (a.length + 1))
        (r.length + 1) false comma n
      (q.1, next :: q.2) := by
  have hlen : (a ++ comma :: r).length = a.length + (r.length + 1) := by simp
  have hstr : (m.store (next + a.length) 1 0).strlen next = a.length := h.cut.strlen_eq (by omega)
  have hmax : subW 64 ((a ++ comma :: r).length + 1) (a.length + 1) = r.length + 1 := by
    rw [subW_of_le (by omega) (by omega)]
    omega
  rw [parseCsvLineFrom]
  simp only [strntoken_of_comma h ha (by omega), hstr, hmax, if_true]

lemma parseCsvLineFrom_of_end (n : ℕ) (h : m.StrAt next s)
    (hs : comma ∉ s) (hlt : next + s.length + 1 < 2 ^ 64)
    (hvalid : ((first && s.isEmpty) || (!first && comma == state)) = true) :
    parseCsvLineFrom m next (s.length + 1) first state (n + 1) = (m, [next]) := by
  have hmax : subW 64 (s.length + 1) (s.length + 1) = 0 := by
    rw [subW_of_le (by omega) le_rfl, Nat.sub_self]
  rw [parseCsvLineFrom]
  simp only [strntoken_of_end h hs (by omega), hvalid, h.strlen_eq (by omega), hmax,
    parseCsvLineFrom_zero, if_true]

lemma parseCsvLineFrom_fields (n : ℕ) (h : m.StrAt next s) (hlt : next + s.length + 1 < 2 ^ 64) :
    ParsedLine m next s (parseCsvLineFrom m next (s.length + 1) false comma n)
      ((s.splitOn comma).take n) := by
  induction n generalizing m next s with
  | zero => exact parsedLine_nil m next s
  | succ n ih =>
    by_cases hs : comma ∈ s
    · obtain ⟨a, r, rfl, ha⟩ := eq_append_cons_of_mem hs
      rw [parseCsvLineFrom_of_comma n h ha hlt, splitOn_append_comma ha, take_succ_cons]
      apply ParsedLine.cons h
      have hlen : (a ++ comma :: r).length = a.length + (r.length + 1) := by simp
      apply ih _ (by omega)
      have hr : m.StrAt (next + (a.length + 1)) r := by
        have h' : m.StrAt next ((a ++ [comma]) ++ r) := by simpa using h
        simpa using h'.drop
      exact hr.of_eq fun i hi _ => store_one_of_ne (by omega)
    · rw [parseCsvLineFrom_of_end n h hs hlt rfl, splitOn_of_not_mem hs, take_succ_cons,
        take_nil]
      exact ⟨List.Forall₂.cons ⟨h, le_rfl, le_rfl⟩ List.Forall₂.nil, fun _ _ => rfl⟩

lemma parseCsvLine_row (n : ℕ) (h : m.StrAt next s) (hlt : next + s.length + 1 < 2 ^ 64) :
    ParsedLine m next s (parseCsvLine m next (s.length + 1) n) (csvRow n s) := by
  unfold parseCsvLine csvRow
  cases n with
  | zero =>
    rw [take_zero, ite_self]
    exact parsedLine_nil m next s
  | succ n =>
    by_cases hs : comma ∈ s
    · rw [if_pos (.inr hs)]
      -- behind the first comma the state is that of any later column
      have hfields := parseCsvLineFrom_fields (n + 1) h hlt
      obtain ⟨a, r, rfl, ha⟩ := eq_append_cons_of_mem hs
      rw [parseCsvLineFrom_of_comma n h ha hlt] at hfields ⊢
      exact hfields
    · cases s with
      | nil =>
        rw [if_pos (.inl rfl), splitOn_of_not_mem hs]
        have hcols : parseCsvLineFrom m next (0 + 1) true 0 (n + 1) = (m, [next]) :=
          parseCsvLineFrom_of_end n h hs hlt rfl
        rw [length_nil, hcols, take_succ_cons, take_nil]
        exact ⟨List.Forall₂.cons ⟨h, le_rfl, le_rfl⟩ List.Forall₂.nil, fun _ _ => rfl⟩
      | cons b s =>
        rw [if_neg (by simpa using hs), parseCsvLineFrom, strntoken_of_end h hs (by omega)]
        exact parsedLine_nil m next (b :: s)

/-! ## Column slots -/

/-- The loop over the columns of a line: the buffer, `next`, `max`, whether `token` is still `NULL`,
`state`, `valid`, the slots filled, and `new_n`. -/
structure LineState where
  m : Mem
  next : ℕ
  max : ℕ
  first : Bool
  state : UInt8
  valid : Bool
  columns : List (Option ℕ)
  newN : ℕ

def csvColumn (st : LineState) : LineState :=
  let t := if st.valid then strntoken st.m st.next st.max comma st.first st.state
    else ⟨false, st.m, st.state⟩
  if t.valid then
    let len := t.m.strlen st.next + 1
    ⟨t.m, st.next + len, subW 64 st.max len, false, t.state, true, st.columns ++ [some st.next],
      st.columns.length + 1⟩
  else { st with m := t.m, state := t.state, valid := false, columns := st.columns ++ [none] }

def csvColumns (m : Mem) (line max nColumns : ℕ) : LineState :=
  csvColumn^[nColumns] ⟨m, line, max, true, 0, true, [], 0⟩

lemma csvColumn_iterate_of_invalid (n : ℕ) {st : LineState} (h : st.valid = false) :
    csvColumn^[n] st = { st with columns := st.columns ++ List.replicate n none } := by
  induction n generalizing st with
  | zero => simp
  | succ n ih =>
    have hstep : csvColumn st = { st with columns := st.columns ++ [none] } := by
      obtain ⟨m, next, max, first, state, valid, columns, newN⟩ := st
      subst h
      rfl
    have hvalid : ({ st with columns := st.columns ++ [none] } : LineState).valid = false := h
    rw [iterate_succ_apply, hstep, ih hvalid]
    simp [replicate_succ]

lemma csvColumn_iterate (n : ℕ) (m : Mem) (next max : ℕ) (first : Bool) (state : UInt8)
    (columns : List (Option ℕ)) :
    let st := csvColumn^[n] ⟨m, next, max, first, state, true, columns, columns.length⟩
    let r := parseCsvLineFrom m next max first state n
    st.m = r.1 ∧ st.newN = columns.length + r.2.length ∧
      st.columns = columns ++ r.2.map some ++ List.replicate (n - r.2.length) none := by
  induction n generalizing m next max first state columns with
  | zero => simp [parseCsvLineFrom]
  | succ n ih =>
    rw [iterate_succ_apply, parseCsvLineFrom]
    cases ht : (strntoken m next max comma first state).valid with
    | true =>
      have hcol : columns.length + 1 = (columns ++ [some next]).length := by simp
      simp only [csvColumn, ht, if_true, hcol]
      obtain ⟨hm, hn, hcols⟩ := ih (strntoken m next max comma first state).m _ _ false
        (strntoken m next max comma first state).state (columns ++ [some next])
      refine ⟨hm, ?_, ?_⟩
      · rw [hn, length_append, length_singleton, length_cons]
        omega
      · rw [hcols, length_cons, Nat.succ_sub_succ]
        simp
    | false =>
      simp only [csvColumn, ht, if_true, Bool.false_eq_true, if_false]
      rw [csvColumn_iterate_of_invalid n rfl]
      simp [replicate_succ]

lemma csvColumns_eq (m : Mem) (line max nColumns : ℕ) :
    let st := csvColumns m line max nColumns
    let r := parseCsvLine m line max nColumns
    st.m = r.1 ∧ st.newN = r.2.length ∧
      st.columns = r.2.map some ++ List.replicate (nColumns - r.2.length) none := by
  have h := csvColumn_iterate nColumns m line max true 0 []
  simpa only [csvColumns, parseCsvLine, length_nil, Nat.zero_add, nil_append] using h

lemma length_splitOn_comma (s : List UInt8) : (s.splitOn comma).length = 1 + s.count comma := by
  induction hn : s.length using Nat.strong_induction_on generalizing s with
  | _ n ih =>
    by_cases hs : comma ∈ s
    · obtain ⟨a, r, rfl, ha⟩ := eq_append_cons_of_mem hs
      have hr := ih r.length (by rw [← hn]; simp; omega) r rfl
      rw [splitOn_append_comma ha, length_cons, hr, count_append,
        count_eq_zero_of_not_mem ha, count_cons_self]
      omega
    · rw [splitOn_of_not_mem hs, count_eq_zero_of_not_mem hs, length_singleton]

def HoldsFields (n : ℕ) (s : List UInt8) (st : LineState) : Prop :=
  st.newN = min n (1 + s.count comma) ∧ st.columns.map (Option.map st.m.cstr) =
      ((s.splitOn comma).take n).map some ++ List.replicate (n - (1 + s.count comma)) none

instance (n : ℕ) (s : List UInt8) (st : LineState) : Decidable (HoldsFields n s st) :=
  inferInstanceAs (Decidable (_ ∧ _))

/-- The slots hold the fields of the line exactly if the line is empty or has a comma. -/
theorem csvColumns_holdsFields_iff (m : Mem) (line n : ℕ) (s : List UInt8) (hn : 1 ≤ n)
    (h : m.StrAt line s) (hlt : line + s.length + 1 < 2 ^ 64) :
    HoldsFields n s (csvColumns m line (s.length + 1) n) ↔ s = [] ∨ comma ∈ s := by
  obtain ⟨hm, hnew, hcols⟩ := csvColumns_eq m line (s.length + 1) n
  obtain ⟨hrow, _⟩ := parseCsvLine_row n h hlt
  have hmap := hrow.map_cstr (by omega)
  have hlen := length_eq hrow
  have hfields := length_splitOn_comma s
  constructor
  · rintro ⟨hcount, -⟩
    by_contra hs
    have hnone : csvRow n s = [] := if_neg hs
    rw [hnone, length_nil] at hlen
    omega
  · intro hs
    have hall : csvRow n s = (s.splitOn comma).take n := if_pos hs
    rw [hall] at hmap hlen
    rw [length_take, hfields] at hlen
    refine ⟨by rw [hnew, hlen], ?_⟩
    have hrest : n - min n (1 + s.count comma) = n - (1 + s.count comma) := by omega
    rw [hcols, hm, hlen, hrest, ← hmap]
    simp [comp_def]

/-- A line of one field has no column. -/
theorem csvColumns_one_field : (csvColumns (ofBytes (ofText "abc")) 0 4 2).newN = 0 ∧
      (csvColumns (ofBytes (ofText "abc")) 0 4 2).columns = [none, none] ∧
      ¬ HoldsFields 2 (ofText "abc") (csvColumns (ofBytes (ofText "abc")) 0 4 2) := by
  decide +kernel

theorem csvColumns_holdsFields_three :
    (1 ≤ 4 ∧ (ofBytes (ofText "a,,b")).StrAt 0 (ofText "a,,b")) ∧ HoldsFields 4 (ofText "a,,b")
        (csvColumns (ofBytes (ofText "a,,b")) 0 ((ofText "a,,b").length + 1) 4) := by
  have hstr : (ofBytes (ofText "a,,b")).StrAt 0 (ofText "a,,b") :=
    ⟨by decide +kernel, by decide +kernel, by decide +kernel⟩
  refine ⟨⟨by decide, hstr⟩, ?_⟩
  exact (csvColumns_holdsFields_iff _ 0 4 (ofText "a,,b") (by decide) hstr (by decide +kernel)).mpr
    (.inr (by decide +kernel))

/-! ## Lines -/

def csvLines (text : List UInt8) : List (List UInt8) :=
  (text.splitOnP isLineEnd).filter fun s => s ≠ []

def endsBlank (text : List UInt8) : Bool :=
  text ≠ [] && ((0x0a :: text).reverse.take 2).all isLineEnd

lemma csvLines_append {b : UInt8} (hb : isLineEnd b = true) (s r : List UInt8) :
    csvLines (s ++ b :: r) = csvLines s ++ csvLines r := by
  unfold csvLines
  rw [splitOnP_append_cons s r hb, filter_append]

lemma csvLines_of_lineEnds (he : ∀ b ∈ e, isLineEnd b = true)
    (r : List UInt8) : csvLines (e ++ r) = csvLines r := by
  induction e with
  | nil => rfl
  | cons b e ih =>
    have hcut := csvLines_append (he b (by simp)) [] (e ++ r)
    rw [nil_append] at hcut
    rw [cons_append, hcut, ih fun d hd => he d (by simp [hd])]
    simp [csvLines]

/-- Line ends, and behind them a line. -/
structure IsLine (e s : List UInt8) : Prop where
  ends : ∀ b ∈ e, isLineEnd b = true
  ne : s ≠ []
  inside : ∀ b ∈ s, isLineEnd b = false

lemma csvLines_of_line (h : IsLine e s) : csvLines (e ++ s) = [s] := by
  rw [csvLines_of_lineEnds h.ends, csvLines, splitOnP_eq_singleton h.inside]
  simp [h.ne]

lemma exists_span (p : UInt8 → Bool) (l : List UInt8) :
    ∃ a r, l = a ++ r ∧ (∀ b ∈ a, p b = true) ∧ ∀ b ∈ r.head?, p b = false := by
  refine ⟨l.takeWhile p, l.dropWhile p, takeWhile_append_dropWhile.symm,
    fun b hb => mem_takeWhile_imp hb, fun b hb => ?_⟩
  rw [Option.mem_def, List.head?_eq_some_iff] at hb
  obtain ⟨r, hr⟩ := hb
  have hhead := head_dropWhile_not p (l := l) (by simp [hr])
  simpa only [hr, head_cons] using hhead

lemma lines_induction {P : List UInt8 → Prop} (blank : ∀ e, (∀ b ∈ e, isLineEnd b = true) → P e)
    (last : ∀ e s, IsLine e s → P (e ++ s))
    (line : ∀ e s d r, IsLine e s → isLineEnd d = true → P r → P (e ++ (s ++ d :: r)))
    (text : List UInt8) : P text := by
  induction hn : text.length using Nat.strong_induction_on generalizing text with
  | _ n ih =>
    obtain ⟨e, t, rfl, he, ht⟩ := exists_span isLineEnd text
    obtain ⟨s, r, rfl, hs, hr⟩ := exists_span (fun b => !isLineEnd b) t
    have hs' : ∀ b ∈ s, isLineEnd b = false := fun b hb => by simpa using hs b hb
    cases s with
    | nil =>
      -- what follows the line ends would be no line end, and one
      obtain rfl : r = [] := by
        cases r with
        | nil => rfl
        | cons d r =>
          have h₁ := ht d (by simp)
          have h₂ := hr d (by simp)
          simp [h₁] at h₂
      exact blank _ (by simpa using he)
    | cons c s =>
      have hl : IsLine e (c :: s) := ⟨he, cons_ne_nil c s, hs'⟩
      cases r with
      | nil =>
        rw [append_nil]
        exact last e (c :: s) hl
      | cons d r =>
        have hd : isLineEnd d = true := by simpa using hr d (by simp)
        apply line e (c :: s) d r hl hd
        apply ih r.length _ r rfl
        rw [← hn]
        simp only [length_append, length_cons]
        omega

lemma endsBlank_of_lineEnds (hne : text ≠ []) (h : ∀ b ∈ text, isLineEnd b = true) :
    endsBlank text = true := by
  unfold endsBlank
  have hall : ∀ b ∈ ((0x0a :: text).reverse.take 2), isLineEnd b = true := by
    intro b hb
    have hmem := mem_of_mem_take hb
    rw [mem_reverse, mem_cons] at hmem
    rcases hmem with rfl | hmem
    · rfl
    · exact h b hmem
  simpa [hne] using hall

lemma endsBlank_of_line (h : IsLine e s) : endsBlank (e ++ s) = false := by
  obtain ⟨s', b, rfl⟩ := eq_nil_or_concat s |>.resolve_left h.ne
  have hb := h.inside b (by simp)
  simp [endsBlank, hb]

lemma endsBlank_of_rest (r : List UInt8) {b : UInt8} (h : IsLine e s) (hb : isLineEnd b = true) :
    endsBlank (e ++ (s ++ b :: r)) = endsBlank r := by
  obtain rfl | ⟨r', d, rfl⟩ := eq_nil_or_concat r
  · -- the byte in front of the line end is the last one of the line
    obtain ⟨s', c, rfl⟩ := eq_nil_or_concat s |>.resolve_left h.ne
    have hc := h.inside c (by simp)
    simp [endsBlank, hc]
  · obtain rfl | ⟨r'', c, rfl⟩ := eq_nil_or_concat r'
    · have hlf : isLineEnd 0x0a = true := rfl
      simp [endsBlank, hb, hlf]
    · simp [endsBlank]

lemma lineEnd_of_line {start k : ℕ} (hle : start + k ≤ last)
    (hin : ∀ j < k, (m (start + j) == 0 || isLineEnd (m (start + j))) = false)
    (hstop : start + k = last ∨ (m (start + k) == 0 || isLineEnd (m (start + k))) = true) :
    lineEnd m start (last - start + 1) last = start + k := by
  rw [lineEnd_eq_min (by omega)]
  rcases hstop with rfl | hstop
  · have hge : k ≤ m.scan (fun b => b == 0 || isLineEnd b) start (start + k - start + 1) := by
      by_contra hlt
      rcases (m.scan_spec (fun b => b == 0 || isLineEnd b) start
        (start + k - start + 1)).2 with heq | hp
      · omega
      · rw [hin _ (by omega)] at hp
        contradiction
    omega
  · have hscan : m.scan (fun b => b == 0 || isLineEnd b) start (last - start + 1) = k :=
      scan_unique (by omega) hin (.inr hstop)
    omega

/-- A round finds the row of the line `s` between `start` and `endp`, and changes no byte outside of
it but the one at `endp`. -/
structure RowFound (alloc : ℕ → Bool) (nColumns last : ℕ) (st : CsvState) (start endp : ℕ)
    (s : List UInt8) (stop : Bool) (m' : Mem) (cols : List ℕ) : Prop where
  found : RowAt m' start endp cols (csvRow nColumns s)
  frame : ∀ i, i < start ∨ endp ≤ i → m' i = (st.m.store endp 1 0) i
  round : csvRound alloc nColumns last st = (do
    reject (alloc st.rows.length = false) .outOfResources
    .ok (stop, ⟨m', if stop then start else endp + 1, st.rows ++ [cols]⟩))

/-- A line ends at a line end, at a `NUL` or at the last byte of the buffer, whatever that is; the
byte becomes its `NUL`. -/
theorem csvRound_cut (alloc : ℕ → Bool) (nColumns : ℕ) (rows : List (List ℕ))
    {endp : ℕ} (hlast : last + 1 < 2 ^ 64) (hendp : endp = line + e.length + s.length)
    (hle : endp ≤ last) (h : (m.store endp 1 0).StrAt line (e ++ s)) (hl : IsLine e s)
    (hstop : endp = last ∨ (m endp == 0 || isLineEnd (m endp)) = true) :
    ∃ m' cols, RowFound alloc nColumns last ⟨m, line, rows⟩ (line + e.length) endp s
      (m endp == 0) m' cols := by
  obtain ⟨hfound, hframe⟩ := parseCsvLine_row nColumns h.drop (by omega)
  rw [← hendp] at hfound hframe
  refine ⟨_, _, hfound, hframe, ?_⟩
  have hpos : 0 < s.length := length_pos_iff.mpr hl.ne
  have hline : (m.store endp 1 0).StrAt (line + e.length) s := h.drop
  have hroom : room last line = last - line + 1 := room_of_lt hlast (by omega)
  -- in front of `endp` the store has changed nothing
  have hbyte : ∀ j < e.length + s.length, m (line + j) = (m.store endp 1 0) (line + j) := by
    intro j hj
    rw [store_one_of_ne (by omega)]
  have hends : ∀ j < e.length, isLineEnd (m (line + j)) = true := by
    intro j hj
    rw [hbyte j (by omega), h.byte (by rw [length_append]; omega), getElem_append_left hj]
    exact hl.ends _ (getElem_mem hj)
  have hin : ∀ j < s.length, (m (line + e.length + j) == 0 || isLineEnd (m (line + e.length + j))) =
      false := by
    intro j hj
    rw [Nat.add_assoc, hbyte _ (by omega), ← Nat.add_assoc, hline.byte hj]
    simp [hl.inside _ (getElem_mem hj), hline.text _ (getElem_mem hj)]
  have hskip : m.scan (fun b => !isLineEnd b) line (last - line + 1) = e.length := by
    apply skip_eq (by omega) hends
    have hfirst := hin 0 hpos
    rw [Bool.or_eq_false_iff] at hfirst
    exact hfirst.2
  have hrest : last - line + 1 - e.length = last - (line + e.length) + 1 := by omega
  have hend : lineEnd m (line + e.length) (last - (line + e.length) + 1) last = endp := by
    rw [hendp] at hstop hle ⊢
    exact lineEnd_of_line hle hin hstop
  have hend' : lineEnd (m.store endp 1 0) (line + e.length) (s.length + 1) endp = endp := by
    have hin' : ∀ j < s.length, ((m.store endp 1 0) (line + e.length + j) == 0 ||
        isLineEnd ((m.store endp 1 0) (line + e.length + j))) = false := by
      intro j hj
      rw [store_one_of_ne (by omega)]
      exact hin j hj
    have hcut : lineEnd (m.store endp 1 0) (line + e.length) (endp - (line + e.length) + 1) endp =
        line + e.length + s.length := lineEnd_of_line (by omega) hin' (.inl hendp.symm)
    rwa [show endp - (line + e.length) = s.length by omega, ← hendp] at hcut
  have hroomLine : room endp (line + e.length) = s.length + 1 := by
    rw [room_of_lt (by omega) (by omega)]
    omega
  simp only [csvRound, hroom, hskip, hrest, hend, hroomLine, hend']
  rw [if_neg (by omega)]

lemma csvLines_of_first {d : UInt8} (h : IsLine e s) (hd : isLineEnd d = true) :
    csvLines (e ++ (s ++ d :: r)) = s :: csvLines r := by
  rw [← append_assoc, csvLines_append hd, csvLines_of_line h, singleton_append]

def allocRows (alloc : ℕ → Bool) (k : ℕ) : ℕ → Except EfiStatus Unit
  | 0 => .ok ()
  | n + 1 => do
    reject (alloc k = false) .outOfResources
    allocRows alloc (k + 1) n

def RowsAt (m : Mem) (lo hi : ℕ) : List (List ℕ) → List (List (List UInt8)) → Prop :=
  List.Forall₂ (RowAt m lo hi)

lemma RowsAt.of_eq {m' : Mem} {lo' hi' : ℕ}
    {strs : List (List (List UInt8))} (h : RowsAt m lo hi rows strs)
    (heq : ∀ i, lo ≤ i → i ≤ hi → m' i = m i) (hlo : lo' ≤ lo) (hhi : hi ≤ hi') :
    RowsAt m' lo' hi' rows strs :=
  imp (fun _ _ hrow => RowAt.of_eq hrow heq hlo hhi) h

lemma csvLoop_of_nul {n : ℕ} (h : last < line ∨ m line = 0) :
    csvLoop alloc nColumns last n ⟨m, line, rows⟩ = .ok ⟨m, line, rows⟩ := by
  cases n with
  | zero => rfl
  | succ n =>
    rw [csvLoop, if_neg]
    rintro ⟨hle, hne⟩
    rcases h with h | h
    · exact absurd hle (Nat.not_le.mpr h)
    · exact hne h

lemma csvLoop_of_ne_nul (hne : m line ≠ 0) (hle : line ≤ last) (hfuel : last < line + fuel) :
    csvLoop alloc nColumns last fuel ⟨m, line, rows⟩ = (do
      let (stop, st) ← csvRound alloc nColumns last ⟨m, line, rows⟩
      if stop then .ok st else csvLoop alloc nColumns last (fuel - 1) st) := by
  obtain ⟨fuel, rfl⟩ : ∃ k, fuel = k + 1 := ⟨fuel - 1, by omega⟩
  rw [csvLoop, if_pos ⟨hle, hne⟩]
  rfl

lemma allocRows_add (alloc : ℕ → Bool) (k a b : ℕ) :
    allocRows alloc k (a + b) = (do allocRows alloc k a; allocRows alloc (k + a) b) := by
  induction a generalizing k with
  | zero => rw [Nat.zero_add, Nat.add_zero, allocRows, ok_bind]
  | succ a ih =>
    rw [Nat.add_right_comm, allocRows, ih, allocRows, bind_assoc, Nat.add_assoc, Nat.add_comm 1 a]

/-- What the line loop leaves behind: rows that point to the strings between `line` and `last`, with
nothing changed in front. -/
def LoopRows (alloc : ℕ → Bool) (nColumns last fuel : ℕ) (st : CsvState)
    (strs : List (List (List UInt8))) : Prop :=
  ∃ m' cols line', RowsAt m' st.line last cols strs ∧ (∀ i, i < st.line → m' i = st.m i) ∧
    csvLoop alloc nColumns last fuel st = (do
      allocRows alloc st.rows.length strs.length
      .ok ⟨m', line', st.rows ++ cols⟩)

lemma LoopRows.append {fuel' line' : ℕ} {m' : Mem} {cols : List (List ℕ)}
    {strs strs' : List (List (List UInt8))} (hle : line ≤ line')
    (hfound : RowsAt m' line line' cols strs) (hline' : line' ≤ last)
    (hframe : ∀ i, i < line → m' i = m i)
    (hloop : csvLoop alloc nColumns last fuel ⟨m, line, rows⟩ = (do
      allocRows alloc rows.length strs.length
      csvLoop alloc nColumns last fuel' ⟨m', line' + 1, rows ++ cols⟩))
    (hrest : LoopRows alloc nColumns last fuel' ⟨m', line' + 1, rows ++ cols⟩ strs') :
    LoopRows alloc nColumns last fuel ⟨m, line, rows⟩ (strs ++ strs') := by
  obtain ⟨m'', cols', line'', hfound', hframe', hloop'⟩ := hrest
  have hlen : cols.length = strs.length := length_eq hfound
  refine ⟨m'', cols ++ cols', line'', ?_, fun i hi => ?_, ?_⟩
  · have hkept : RowsAt m'' line last cols strs :=
      hfound.of_eq (fun i _ hi => hframe' i (Nat.lt_succ_of_le hi)) le_rfl hline'
    have hnew : RowsAt m'' line last cols' strs' :=
      RowsAt.of_eq hfound' (fun _ _ _ => rfl) (Nat.le_succ_of_le hle) le_rfl
    exact rel_append hkept hnew
  · exact (hframe' i (Nat.lt_succ_of_le (Nat.le_trans (Nat.le_of_lt hi) hle))).trans (hframe i hi)
  · have halloc : allocRows alloc rows.length (strs ++ strs').length = (do
        allocRows alloc rows.length strs.length
        allocRows alloc (rows ++ cols).length strs'.length) := by
      rw [length_append, allocRows_add, length_append, hlen]
    rw [hloop, hloop', halloc, bind_assoc, append_assoc]

lemma loopRows_nil (h : last < line ∨ m line = 0) :
    LoopRows alloc nColumns last fuel ⟨m, line, rows⟩ [] := by
  refine ⟨m, [], line, List.Forall₂.nil, fun _ _ => rfl, ?_⟩
  rw [csvLoop_of_nul h, append_nil]
  rfl

section

variable {endp : ℕ} (hlast : last + 1 < 2 ^ 64) (hle : endp ≤ last)

lemma text_ne_nul (h : (m.store endp 1 0).StrAt line text) (hne : text ≠ [])
    (hlen : line + text.length = endp) : m line ≠ 0 := by
  obtain ⟨b, r, rfl⟩ := exists_cons_of_ne_nil hne
  have hbyte := h.head
  rw [length_cons] at hlen
  rw [store_one_of_ne (by omega)] at hbyte
  rw [hbyte]
  exact h.text b mem_cons_self

include hlast hle

lemma loopRows_last (hstop : endp = last ∨ m endp = 0)
    (h : (m.store endp 1 0).StrAt line (e ++ s)) (hlen : line + (e ++ s).length = endp)
    (hfuel : last < line + fuel) (hl : IsLine e s) :
    LoopRows alloc nColumns last fuel ⟨m, line, rows⟩ [csvRow nColumns s] := by
  have hfirst := text_ne_nul h (by simp [hl.ne]) hlen
  rw [length_append, ← Nat.add_assoc] at hlen
  obtain ⟨m', cols, hrow⟩ := csvRound_cut alloc nColumns rows hlast hlen.symm hle h hl
    (hstop.imp_right fun hzero => by simp [hzero])
  refine ⟨m', [cols], if m endp == 0 then line + e.length else endp + 1, ?_, fun i hi => ?_, ?_⟩
  · exact List.Forall₂.cons
      (RowAt.of_eq hrow.found (fun _ _ _ => rfl) (Nat.le_add_right _ _) hle) .nil
  · have hi' : i < line := hi
    rw [hrow.frame i (by omega)]
    exact store_one_of_ne (by omega)
  · rw [csvLoop_of_ne_nul hfirst (by omega) hfuel, hrow.round]
    cases hzero : m endp == 0 with
    | true => simp [allocRows, bind_assoc]
    | false =>
      have hout : last < endp + 1 ∨ m' (endp + 1) = 0 := by
        rcases hstop with rfl | hnul
        · exact .inl (Nat.lt_succ_self _)
        · simp [hnul] at hzero
      simp [allocRows, bind_assoc, csvLoop_of_nul hout]

lemma csvRound_next (alloc : ℕ → Bool) (nColumns : ℕ) (rows : List (List ℕ)) {d : UInt8}
    (h : (m.store endp 1 0).StrAt line (e ++ (s ++ d :: r)))
    (hlen : line + (e ++ (s ++ d :: r)).length = endp) (hl : IsLine e s) (hd : isLineEnd d = true) :
    ∃ m' cols, RowFound alloc nColumns last ⟨m, line, rows⟩ (line + e.length)
        (line + e.length + s.length) s false m' cols ∧
      (m'.store endp 1 0).StrAt (line + e.length + s.length + 1) r := by
  have hsum : (e ++ (s ++ d :: r)).length = e.length + (s.length + (r.length + 1)) := by simp
  have hbyte : m (line + e.length + s.length) = d := by
    have hhead := h.drop.drop.head
    rwa [store_one_of_ne (by omega)] at hhead
  have hzero : (m (line + e.length + s.length) == 0) = false := by
    rw [hbyte, beq_eq_false_iff_ne]
    exact h.text d (by simp)
  have hcut : (m.store (line + e.length + s.length) 1 0).StrAt line (e ++ s) := by
    have h' : (m.store endp 1 0).StrAt line ((e ++ s) ++ d :: r) := by rwa [append_assoc]
    have hcut := h'.cut
    rw [length_append, ← Nat.add_assoc] at hcut
    refine hcut.of_eq fun i _ hi => ?_
    rw [length_append] at hi
    rcases Nat.eq_or_lt_of_le hi with rfl | hlt
    · rw [← Nat.add_assoc, store_one_nul, store_one_nul]
    · rw [store_one_of_ne (by omega), store_one_of_ne (by omega), store_one_of_ne (by omega)]
  obtain ⟨m', cols, hrow⟩ := csvRound_cut alloc nColumns rows hlast rfl (by omega) hcut hl
    (.inr (by rw [hbyte, hd, Bool.or_true]))
  rw [hzero] at hrow
  refine ⟨m', cols, hrow, ?_⟩
  have hr : (m.store endp 1 0).StrAt (line + e.length + s.length) ([d] ++ r) := h.drop.drop
  refine hr.drop.of_eq fun i hi hi' => ?_
  rw [length_singleton] at hi hi'
  rcases Nat.lt_or_ge i endp with hlt | hge
  · rw [store_one_of_ne (by omega), store_one_of_ne (by omega), hrow.frame i (by omega)]
    exact store_one_of_ne (by omega)
  · obtain rfl : i = endp := by omega
    rw [store_one_nul, store_one_nul]

/-- A text up to a `NUL`, or up to the last byte of the buffer, has the rows of its lines. Behind a
blank line at its end comes what the loop makes of the line ends there. -/
theorem csvLoop_lines {rest : List (List (List UInt8))} (hstop : endp = last ∨ m endp = 0)
    (hblank : ∀ {m' : Mem} {line' fuel' : ℕ} {e : List UInt8} {rows' : List (List ℕ)},
      (∀ i, endp ≤ i → m' i = m i) → (m'.store endp 1 0).StrAt line' e →
      (∀ b ∈ e, isLineEnd b = true) → line' + e.length = endp → last < line' + fuel' →
      LoopRows alloc nColumns last fuel' ⟨m', line', rows'⟩ (if endsBlank e then rest else []))
    (h : (m.store endp 1 0).StrAt line text) (hlen : line + text.length = endp)
    (hfuel : last < line + fuel) :
    LoopRows alloc nColumns last fuel ⟨m, line, rows⟩
      ((csvLines text).map (csvRow nColumns) ++ if endsBlank text then rest else []) := by
  induction text using lines_induction generalizing m line fuel rows with
  | blank e he =>
    have hnone : csvLines e = [] := by
      have hskip := csvLines_of_lineEnds he []
      rwa [append_nil] at hskip
    rw [hnone]
    exact hblank (fun _ _ => rfl) h he hlen hfuel
  | last e s hl =>
    rw [endsBlank_of_line hl, if_neg Bool.false_ne_true, append_nil, csvLines_of_line hl]
    exact loopRows_last hlast hle hstop h hlen hfuel hl
  | line e s d r hl hd ih =>
    have hsum : (e ++ (s ++ d :: r)).length = e.length + (s.length + (r.length + 1)) := by simp
    obtain ⟨q, col, hrow, hrest⟩ := csvRound_next hlast hle alloc nColumns rows h hlen hl hd
    have hframe : ∀ i, i < line + e.length ∨ line + e.length + s.length < i → q i = m i := by
      intro i hi
      rw [hrow.frame i (by omega)]
      exact store_one_of_ne (by omega)
    have hmore : LoopRows alloc nColumns last (fuel - 1)
        ⟨q, line + e.length + s.length + 1, rows ++ [col]⟩
        ((csvLines r).map (csvRow nColumns) ++ if endsBlank r then rest else []) := by
      refine ih ?_ (fun hsame => hblank fun i hi => ?_) hrest (by omega) (by omega)
      · rwa [hframe endp (by omega)]
      · rw [hsame i hi, hframe i (by omega)]
    rw [csvLines_of_first hl hd, map_cons, endsBlank_of_rest r hl hd, cons_append, ← singleton_append]
    refine LoopRows.append (by omega) (List.Forall₂.cons (RowAt.of_eq hrow.found
      (fun _ _ _ => rfl) (Nat.le_add_right _ _) le_rfl) .nil) (by omega)
      (fun i hi => hframe i (by omega)) ?_ hmore
    rw [csvLoop_of_ne_nul (text_ne_nul h (by simp) hlen) (by omega) hfuel, hrow.round]
    simp [allocRows, bind_assoc]

end

/-! ## Buffers that end in `NUL` -/

/-- The rows of the strings of a buffer: a string is read if the one before it ends in a blank
line. -/
def pieceRows (nColumns : ℕ) : List (List UInt8) → List (List (List UInt8))
  | [] => []
  | text :: rest =>
    (csvLines text).map (csvRow nColumns) ++ if endsBlank text then pieceRows nColumns rest else []

lemma splitOn_slice {n : ℕ} (h : m.StrAt line text) (hle : text.length ≤ n) :
    (m.slice line n).splitOn 0 = text :: if text.length = n then [] else
      (m.slice (line + text.length + 1) (n - (text.length + 1))).splitOn 0 := by
  have htext : ∀ b ∈ text, (b == 0) = false := fun b hb => by simpa using h.text b hb
  by_cases heq : text.length = n
  · rw [if_pos heq, ← heq, h.bytes]
    exact splitOnP_eq_singleton htext
  have hcut := m.slice_add line text.length (n - (text.length + 1) + 1)
  rw [show text.length + (n - (text.length + 1) + 1) = n by omega, slice_succ, h.bytes,
    h.nul] at hcut
  rw [if_neg heq, hcut]
  exact splitOnP_append_cons_of_forall_mem htext 0 rfl _

lemma csvLoop_pieces (hlast : last + 1 < 2 ^ 64) (hnul : m last = 0) (hle : line ≤ last)
    (hfuel : last < line + fuel) :
    LoopRows alloc nColumns last fuel ⟨m, line, rows⟩
      (pieceRows nColumns ((m.slice line (last - line)).splitOn 0)) := by
  -- the induction is on the pieces that are left
  generalize hpieces : (m.slice line (last - line)).splitOn 0 = pieces
  induction pieces generalizing m line fuel rows with
  | nil => exact absurd hpieces (splitOnP_ne_nil _ _)
  | cons piece pieces ih =>
    obtain ⟨text, htext, hlen⟩ := m.exists_strAt line (last - line)
      (by rwa [Nat.add_sub_cancel' hle])
    rw [splitOn_slice htext hlen] at hpieces
    obtain ⟨rfl, hrest⟩ := List.cons.inj hpieces
    have hzero := htext.nul
    refine csvLoop_lines hlast (by omega) (.inr hzero) ?_ (by rwa [store_nul hzero]) rfl hfuel
    intro m' line' fuel' e rows' hsame he hends hline' hfuel'
    have hzero' : m' (line + text.length) = 0 := by rw [hsame _ le_rfl, hzero]
    have hnul' : m' last = 0 := by rw [hsame last (by omega), hnul]
    rcases eq_or_ne e [] with rfl | hne
    · exact loopRows_nil (.inr (by rwa [← hline'] at hzero'))
    have hfirst := text_ne_nul he hne hline'
    have hmore : LoopRows alloc nColumns last (fuel' - 1) ⟨m', line + text.length + 1, rows'⟩
        (pieceRows nColumns pieces) := by
      by_cases hall : text.length = last - line
      · rw [if_pos hall] at hrest
        rw [← hrest]
        exact loopRows_nil (.inl (by omega))
      · rw [if_neg hall] at hrest
        refine ih hnul' (by omega) (by omega) ?_
        rw [← hrest, show last - line - (text.length + 1) = last - (line + text.length + 1) by omega,
          slice_eq_iff.mpr fun i _ => hsame _ (by omega)]
    rw [endsBlank_of_lineEnds hne hends, if_pos rfl]
    have hbytes : ∀ j < e.length, isLineEnd (m' (line' + j)) = true := by
      intro j hj
      have hbyte := he.byte hj
      rw [store_one_of_ne (by omega)] at hbyte
      rw [hbyte]
      exact hends _ (getElem_mem hj)
    refine LoopRows.append (show line' ≤ line + text.length by omega) List.Forall₂.nil (by omega)
      (fun _ _ => rfl) ?_ (by rwa [append_nil])
    rw [csvLoop_of_ne_nul hfirst (by omega) hfuel', csvRound_blank hlast hnul' (by omega)
      (length_pos_iff.mpr hne) hbytes (by rwa [hline']), hline', append_nil]
    rfl

lemma csvLines_eq_nil_iff (text : List UInt8) :
    csvLines text = [] ↔ text = [] ∨ endsBlank text = true ∧ csvLines text = [] := by
  induction text using lines_induction with
  | blank e he =>
    have hnone := csvLines_of_lineEnds he []
    rw [append_nil] at hnone
    rcases eq_or_ne e [] with rfl | hne
    · exact iff_of_true rfl (.inl rfl)
    · exact iff_of_true hnone (.inr ⟨endsBlank_of_lineEnds hne he, hnone⟩)
  | last e s hl =>
    rw [csvLines_of_line hl]
    simp [hl.ne, endsBlank_of_line hl]
  | line e s d r hl hd ih =>
    rw [csvLines_of_first hl hd]
    simp

lemma pieceRows_cons_ne_nil {rest : List (List UInt8)} : pieceRows nColumns (text :: rest) ≠ [] ↔
      csvLines text ≠ [] ∨ text ≠ [] ∧ pieceRows nColumns rest ≠ [] := by
  rw [pieceRows, ne_eq, append_eq_nil_iff, not_and_or, map_eq_nil_iff]
  by_cases hlines : csvLines text = []
  · rcases (csvLines_eq_nil_iff text).mp hlines with rfl | ⟨hend, -⟩
    · simp [csvLines, endsBlank]
    · have hne : text ≠ [] := by
        rintro rfl
        cases hend
      simp [hlines, hend, hne]
  · simp [hlines]

lemma hasRow_iff (nColumns : ℕ) (behind : Bool) (bs : List UInt8) :
    ∃ text rest, bs.splitOn 0 = text :: rest ∧ (HasRow behind bs ↔ csvLines text ≠ [] ∨
        (behind = true ∨ text ≠ []) ∧ pieceRows nColumns rest ≠ []) := by
  induction bs generalizing behind with
  | nil => exact ⟨[], [], rfl, by simp [HasRow, csvLines, pieceRows]⟩
  | cons b bs ih =>
    unfold HasRow
    rcases eq_or_ne b 0 with rfl | hzero
    · obtain ⟨text, rest, hsplit, hrow⟩ := ih false
      refine ⟨[], text :: rest, ?_, ?_⟩
      · rw [← hsplit]
        exact splitOnP_append_cons_of_forall_mem (forall_mem_nil _) 0 rfl bs
      · rw [if_neg (by decide), if_pos rfl, pieceRows_cons_ne_nil, hrow]
        simp [csvLines]
    obtain ⟨text, rest, hsplit, hrow⟩ := ih true
    refine ⟨b :: text, rest, ?_, ?_⟩
    · rw [splitOn] at hsplit ⊢
      rw [splitOnP_cons_eq_if_modifyHead, hsplit, if_neg (by simpa using hzero)]
      rfl
    · cases hend : isLineEnd b with
      | true =>
        have hskip := csvLines_of_lineEnds (e := [b]) (by simpa using hend) text
        rw [if_pos rfl, hrow, ← hskip]
        simp
      | false =>
        have hline : csvLines (b :: text) ≠ [] := by
          unfold csvLines
          rw [splitOnP_cons_eq_if_modifyHead, if_neg (by simp [hend])]
          obtain ⟨a, as, hsplit'⟩ := exists_cons_of_ne_nil (splitOnP_ne_nil isLineEnd text)
          simp [hsplit']
        rw [if_neg Bool.false_ne_true, if_neg hzero]
        exact iff_of_true trivial (.inl hline)

/-- A buffer has a row iff the parser finds one. -/
theorem hasRow_iff_pieceRows (nColumns : ℕ) (bs : List UInt8) :
    HasRow false bs ↔ pieceRows nColumns (bs.splitOn 0) ≠ [] := by
  obtain ⟨text, rest, hsplit, hrow⟩ := hasRow_iff nColumns false bs
  rw [hsplit, pieceRows_cons_ne_nil, hrow]
  simp

/-! ## What a buffer is parsed into -/

def csvRows (alloc : ℕ → Bool) (m : Mem) (last nColumns : ℕ) :
    Except EfiStatus (List (List (List UInt8))) := do
  let (m, rows) ← parseCsvData alloc m last nColumns
  .ok (rows.map (·.map m.cstr))

lemma csvRows_of_invalid (h : last = 0 ∨ nColumns = 0) :
    csvRows alloc m last nColumns = .error .invalidParameter := by
  unfold csvRows parseCsvData
  rw [reject, if_pos h]
  rfl

lemma RowsAt.map_cstr {strs : List (List (List UInt8))}
    (h : RowsAt m lo hi rows strs) (hhi : hi < 2 ^ 64) : rows.map (·.map m.cstr) = strs := by
  induction h with
  | nil => rfl
  | cons hrow _ ih => rw [map_cons, ih, RowAt.map_cstr hrow hhi]

lemma isUtf8Bom_text (hpos : 0 < last) (h : m.StrAt 0 text) (hle : text.length ≤ last) :
    isUtf8Bom m (last + 1) = decide (text.take 3 = utf8Bom) := by
  unfold isUtf8Bom
  rcases Nat.lt_or_ge text.length 3 with hshort | hlong
  · -- the `NUL` behind the text is among the bytes looked at
    have hnul : (0 : UInt8) ∈ m.slice 0 (min 3 (last + 1)) :=
      mem_map.mpr ⟨text.length, mem_range.mpr (by omega), h.nul⟩
    have hbom : (0 : UInt8) ∉ utf8Bom.take (last + 1) := fun hmem =>
      absurd (mem_of_mem_take hmem) (by decide)
    have hne : m.slice 0 (min 3 (last + 1)) ≠ utf8Bom.take (last + 1) := fun heq =>
      hbom (heq ▸ hnul)
    have hne' : text.take 3 ≠ utf8Bom := by
      intro heq
      have hlen := congrArg List.length heq
      simp only [length_take, utf8Bom, length_cons, length_nil] at hlen
      omega
    rw [beq_eq_false_iff_ne.mpr hne, decide_eq_false hne']
  · have htake : m.slice 0 3 = text.take 3 := by
      have hsplit := m.slice_add 0 3 (text.length - 3)
      rw [Nat.add_sub_cancel' hlong, h.bytes] at hsplit
      rw [hsplit, take_left' (by simp)]
    have hbom : utf8Bom.take (last + 1) = utf8Bom :=
      take_of_length_le (Nat.le_trans hlong (by omega))
    rw [Nat.min_eq_left (by omega), htake, hbom]
    exact Bool.eq_iff_iff.mpr (by simp)

lemma pieceRows_text {n : ℕ} (h : m.StrAt line text) (hle : text.length ≤ n) :
    pieceRows nColumns ((m.slice line n).splitOn 0) = (csvLines text).map (csvRow nColumns) ++
      if endsBlank text = true ∧ text.length ≠ n then pieceRows nColumns
        ((m.slice (line + text.length + 1) (n - (text.length + 1))).splitOn 0) else [] := by
  rw [splitOn_slice h hle, pieceRows, ite_and]
  by_cases heq : text.length = n
  · rw [if_pos heq, if_neg (not_not.mpr heq), pieceRows]
  · rw [if_neg heq, if_pos heq]

section

variable (hlast : last + 1 < 2 ^ 64) (hpos : 0 < last) (h : m.StrAt 0 text)
  (hle : text.length ≤ last)
include hlast hpos h hle

lemma csvStart_text :
    m.StrAt (csvStart m last) (dropBom text) ∧
      csvStart m last + (dropBom text).length = text.length := by
  have hroom : room last 0 = last + 1 := room_of_lt hlast hpos
  unfold csvStart dropBom
  rw [hroom, isUtf8Bom_text hpos h hle]
  by_cases hbom : text.take 3 = utf8Bom
  · have hlen : (text.take 3).length = 3 := by rw [hbom]; rfl
    have hsplit : m.StrAt 0 (text.take 3 ++ text.drop 3) := by rwa [take_append_drop]
    have hrest := hsplit.drop
    rw [hlen] at hrest
    have hlong : 3 ≤ text.length := by
      rw [length_take] at hlen
      omega
    simp only [hbom, decide_true, if_true, length_drop]
    exact ⟨hrest, by omega⟩
  · simp only [hbom, decide_false, if_false, Bool.false_eq_true]
    exact ⟨h, by omega⟩

lemma csvBody_pieceRows :
    pieceRows nColumns ((csvBody m last).splitOn 0) =
      (csvLines (dropBom text)).map (csvRow nColumns) ++
        if endsBlank (dropBom text) = true ∧ text.length ≠ last then pieceRows nColumns
          ((m.slice (text.length + 1) (last - (text.length + 1))).splitOn 0) else [] := by
  obtain ⟨hstr, hsum⟩ := csvStart_text hlast hpos h hle
  have hlen : (dropBom text).length ≠ last - csvStart m last ↔ text.length ≠ last := by omega
  unfold csvBody
  rw [pieceRows_text hstr (by omega), hsum,
    show last - csvStart m last - ((dropBom text).length + 1) = last - (text.length + 1) by omega]
  simp only [hlen]

lemma csvBody_stays
    (hstay : last = text.length ∨ m (text.length + 1) = 0 ∨ endsBlank (dropBom text) = false) :
    pieceRows nColumns ((csvBody m last).splitOn 0) =
      (csvLines (dropBom text)).map (csvRow nColumns) := by
  rw [csvBody_pieceRows hlast hpos h hle]
  by_cases hmore : endsBlank (dropBom text) = true ∧ text.length ≠ last
  · have hzero : m (text.length + 1) = 0 := by
      rcases hstay with heq | hzero | hend
      · exact absurd heq.symm hmore.2
      · exact hzero
      · rw [hmore.1] at hend
        cases hend
    have hnone : m.StrAt (text.length + 1) [] := ⟨rfl, hzero, forall_mem_nil _⟩
    rw [pieceRows_text hnone (Nat.zero_le _)]
    simp [csvLines, endsBlank]
  · rw [if_neg hmore, append_nil]

end

lemma csvStart_le_three (m : Mem) (last : ℕ) : csvStart m last ≤ 3 := by
  unfold csvStart
  split_ifs
  · exact le_rfl
  · exact Nat.zero_le _

section

variable (alloc : ℕ → Bool) (hlast : last + 1 < 2 ^ 64) (hpos : 0 < last) (hnul : m last = 0)
include hlast hpos hnul

lemma csvStart_le : csvStart m last ≤ last := by
  rcases Nat.lt_or_ge last 3 with hshort | hlong
  · have hbom : isUtf8Bom m (room last 0) = false := by
      rw [room_of_lt hlast hpos]
      have hlast' : last = 1 ∨ last = 2 := by omega
      rcases hlast' with rfl | rfl <;> simp [isUtf8Bom, utf8Bom, slice, range_succ, hnul]
    unfold csvStart
    rw [hbom]
    exact Nat.zero_le _
  · exact Nat.le_trans (csvStart_le_three m last) hlong

variable (hn : nColumns ≠ 0)
include hn

/-- The rows of a buffer whose last byte is a `NUL`. -/
theorem parseCsvData_pieces :
    ∃ m' cols, RowsAt m' 0 last cols (pieceRows nColumns ((csvBody m last).splitOn 0)) ∧
      parseCsvData alloc m last nColumns = (do
        allocRows alloc 0 (pieceRows nColumns ((csvBody m last).splitOn 0)).length
        .ok (m', cols)) := by
  obtain ⟨m', cols, line', hfound, -, hloop⟩ : LoopRows alloc nColumns last (last + 1)
      ⟨m, csvStart m last, []⟩ (pieceRows nColumns ((csvBody m last).splitOn 0)) :=
    csvLoop_pieces hlast hnul (csvStart_le hlast hpos hnul) (by omega)
  refine ⟨m', cols, RowsAt.of_eq hfound (fun _ _ _ => rfl) (Nat.zero_le _) le_rfl, ?_⟩
  unfold parseCsvData
  rw [reject_of_not (by omega), ok_bind, hloop]
  simp only [bind_assoc, ok_bind, nil_append, length_nil]

lemma parseCsvData_of_not_hasRow (h : ¬ HasRow false (csvBody m last)) :
    ∃ m', parseCsvData alloc m last nColumns = .ok (m', []) := by
  obtain ⟨m', cols, hfound, hparse⟩ := parseCsvData_pieces alloc hlast hpos hnul hn
  rw [hasRow_iff_pieceRows nColumns, not_not] at h
  rw [h] at hfound hparse
  cases hfound
  exact ⟨m', hparse⟩

lemma parseCsvData_of_hasRow {p : Mem × List (List ℕ)} (h : HasRow false (csvBody m last))
    (hp : parseCsvData alloc m last nColumns = .ok p) : p.2 ≠ [] := by
  obtain ⟨m', cols, hfound, hparse⟩ := parseCsvData_pieces alloc hlast hpos hnul hn
  rw [hasRow_iff_pieceRows nColumns] at h
  obtain ⟨-, -, hok⟩ := bind_eq_ok.mp (hparse.symm.trans hp)
  cases hok
  rintro rfl
  exact h (length_eq_zero_iff.mp (length_eq hfound).symm)

lemma csvRows_eq_pieceRows :
    csvRows alloc m last nColumns = (do
      allocRows alloc 0 (pieceRows nColumns ((csvBody m last).splitOn 0)).length
      .ok (pieceRows nColumns ((csvBody m last).splitOn 0))) := by
  obtain ⟨m', cols, hfound, hparse⟩ := parseCsvData_pieces alloc hlast hpos hnul hn
  have hmap := hfound.map_cstr (by omega)
  unfold csvRows
  rw [hparse, bind_assoc]
  simp only [ok_bind, hmap]

end

/-- What the parser returns depends on the text in front of the first `NUL` alone, for buffers with
a `NUL` as their last byte. -/
def DependsOnText (text : List UInt8) (last nColumns : ℕ) : Prop :=
  ∀ alloc m m', Mem.StrAt m 0 text → m last = 0 → Mem.StrAt m' 0 text → m' last = 0 →
    csvRows alloc m last nColumns = csvRows alloc m' last nColumns

lemma allocRows_of_true (k n : ℕ) : allocRows (fun _ => true) k n = .ok () := by
  induction n generalizing k with
  | zero => rfl
  | succ n ih => rw [allocRows, reject_of_not (by simp), ok_bind, ih]

lemma not_dependsOnText (hlast : last + 1 < 2 ^ 64) (hn : nColumns ≠ 0)
    (htext : ∀ b ∈ text, b ≠ 0) (hle : text.length + 1 < last)
    (hend : endsBlank (dropBom text) = true) : ¬ DependsOnText text last nColumns := by
  intro hdep
  have hzero : (ofBytes text).StrAt 0 text :=
    ⟨slice_ofBytes_self text, ofBytes_of_le (by omega), htext⟩
  have hmore : (ofBytes (text ++ [0, 0x62])).StrAt 0 text := by
    refine ⟨?_, ?_, htext⟩
    · simpa using slice_ofBytes [] text [0, 0x62]
    · rw [ofBytes_of_lt (by simp)]
      simp
  have hnul : ofBytes text last = 0 := ofBytes_of_le (by omega)
  have hnul' : ofBytes (text ++ [0, 0x62]) last = 0 :=
    ofBytes_of_le (by simp only [length_append, length_cons, length_nil]; omega)
  have hbyte : ofBytes (text ++ [0, 0x62]) (text.length + 1) = 0x62 := by
    rw [ofBytes_of_lt (by simp)]
    simp
  have heq := hdep (fun _ => true) _ _ hzero hnul hmore hnul'
  rw [csvRows_eq_pieceRows _ hlast (by omega) hnul hn,
    csvRows_eq_pieceRows _ hlast (by omega) hnul' hn, allocRows_of_true, allocRows_of_true, csvBody_stays hlast (by omega) hzero (by omega)
    (.inr (.inl (ofBytes_of_le (by omega)))), csvBody_pieceRows hlast (by omega) hmore (by omega),
    if_pos ⟨hend, by omega⟩] at heq
  -- the string behind the text would have no row, but starts with a letter
  have hnone := self_eq_append_right.mp (Except.ok.inj heq)
  refine (hasRow_iff_pieceRows nColumns _).mp ?_ hnone
  obtain ⟨k, hk⟩ : ∃ k, last - (text.length + 1) = k + 1 := ⟨last - text.length - 2, by omega⟩
  rw [hk, slice_succ, hbyte]
  exact trivial

/-- The rows `parse_csv_data` returns depend on the text in front of the first `NUL` alone exactly if
the text does not end in a blank line or there is no other byte behind the `NUL`. -/
theorem parseCsvData_dependsOnText_iff (text : List UInt8) (last nColumns : ℕ)
    (hlast : last + 1 < 2 ^ 64) (htext : ∀ b ∈ text, b ≠ 0) (hle : text.length ≤ last) :
    DependsOnText text last nColumns ↔
      nColumns = 0 ∨ last ≤ text.length + 1 ∨ endsBlank (dropBom text) = false := by
  constructor
  · intro h
    by_contra hcond
    push Not at hcond
    obtain ⟨hn, hlt, hend⟩ := hcond
    exact not_dependsOnText hlast hn htext hlt (by simpa using hend) h
  · intro hcond alloc m m' hm hnul hm' hnul'
    by_cases hinvalid : last = 0 ∨ nColumns = 0
    · rw [csvRows_of_invalid hinvalid, csvRows_of_invalid hinvalid]
    have hstay : ∀ {u : Mem}, u last = 0 →
        last = text.length ∨ u (text.length + 1) = 0 ∨ endsBlank (dropBom text) = false := by
      intro u hu
      rcases hcond.resolve_left (by omega) with hshort | hend
      · rcases Nat.eq_or_lt_of_le hle with heq | hlt
        · exact .inl heq.symm
        · rw [← Nat.le_antisymm hshort hlt]
          exact .inr (.inl hu)
      · exact .inr (.inr hend)
    rw [csvRows_eq_pieceRows alloc hlast (by omega) hnul (by omega),
      csvRows_eq_pieceRows alloc hlast (by omega) hnul' (by omega),
      csvBody_stays hlast (by omega) hm hle (hstay hnul),
      csvBody_stays hlast (by omega) hm' hle (hstay hnul')]

def crlfBuffer (behind : String) : Mem := ofBytes (ofText "a,1\r\n" ++ 0 :: ofText behind)

/-- The second half of the line end and the `NUL` are taken for an empty line, and what stands
behind for the next one. -/
theorem crlfBuffer_row_behind_nul :
    csvRows (fun _ => true) (crlfBuffer "") 9 2 = .ok [[ofText "a", ofText "1"]] ∧
      csvRows (fun _ => true) (crlfBuffer "b,2") 9 2 =
        .ok [[ofText "a", ofText "1"], [ofText "b", ofText "2"]] ∧
      ¬ DependsOnText (ofText "a,1\r\n") 9 2 := by
  have hzero : csvRows (fun _ => true) (crlfBuffer "") 9 2 = .ok [[ofText "a", ofText "1"]] := by
    decide +kernel
  have hmore : csvRows (fun _ => true) (crlfBuffer "b,2") 9 2 =
      .ok [[ofText "a", ofText "1"], [ofText "b", ofText "2"]] := by
    decide +kernel
  have htext : (crlfBuffer "").StrAt 0 (ofText "a,1\r\n") :=
    ⟨by decide +kernel, by decide +kernel, by decide +kernel⟩
  have htext' : (crlfBuffer "b,2").StrAt 0 (ofText "a,1\r\n") :=
    ⟨by decide +kernel, by decide +kernel, by decide +kernel⟩
  refine ⟨hzero, hmore, fun h => ?_⟩
  have heq := h (fun _ => true) (crlfBuffer "") (crlfBuffer "b,2") htext (by decide) htext'
    (by decide)
  rw [hzero, hmore] at heq
  cases heq

theorem parseCsvData_dependsOnText_iff_line :
    DependsOnText (ofText "a,1\n") 9 2 ∧ ¬ DependsOnText (ofText "a,1\r\n") 9 2 := by
  have hline := parseCsvData_dependsOnText_iff (ofText "a,1\n") 9 2 (by decide) (by decide +kernel)
    (by decide)
  have hcrlf := parseCsvData_dependsOnText_iff (ofText "a,1\r\n") 9 2 (by decide)
    (by decide +kernel) (by decide)
  rw [hline, hcrlf]
  decide +kernel

end Shim.Sbat
