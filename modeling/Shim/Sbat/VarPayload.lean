import Shim.Sbat.CsvBytes
import Shim.Sbat.Level

/-!
# What the list of `SbatLevel` depends on

`parse_sbat_var` parses the stored variable, or a candidate that is to become it. The variable is
read into zeroed memory, with zeroes behind it. The candidate is copied into memory that is not
initialised, without its `NUL`, and parsed with the byte behind it.
-/

namespace Shim.Sbat

open Lib List Mem

variable {m : Mem} {s : List UInt8} {pool : Pool}

def stringsEntry (strs : List (List UInt8)) : VarEntry :=
  ⟨strs.getD 0 [], strs.getD 1 [], if strs.length = sbatVarColumns then some (strs.getD 2 []) else none⟩

def rowsEntries (table : Bool) (rows : List (List (List UInt8))) : Except EfiStatus (List VarEntry) := do
  reject (¬ ∀ row ∈ rows, ColumnsOk sbatVarRequiredColumns row) .invalidParameter
  reject (table = false) .outOfResources
  return rows.map stringsEntry

lemma column_eq {row : List ℕ} {i : ℕ} (h : i < row.length) :
    column m row i = (row.map m.cstr).getD i [] := by
  have h' : i < (row.map m.cstr).length := by rwa [length_map]
  rw [column, getD_eq_getElem _ _ h, getD_eq_getElem _ _ h', getElem_map]

lemma parseSbatVarData_eq (pool : Pool) (m : Mem) (last : ℕ) :
    parseSbatVarData pool m (last + 1) =
      csvRows pool.row m last sbatVarColumns >>= rowsEntries pool.table := by
  unfold parseSbatVarData csvRows
  rw [reject_of_not (Nat.succ_ne_zero _), ok_bind, bind_assoc, Nat.add_sub_cancel]
  refine bind_congr fun r => ?_
  obtain ⟨m', rows⟩ := r
  have hok : (∀ row ∈ rows, RowOk m' sbatVarRequiredColumns row) ↔
      ∀ strs ∈ rows.map (·.map m'.cstr), ColumnsOk sbatVarRequiredColumns strs := by
    rw [forall_mem_map]
    exact forall₂_congr fun row _ => rowOk_iff
  simp only [ok_bind, rowsEntries, hok]
  by_cases hall : ∀ strs ∈ rows.map (·.map m'.cstr), ColumnsOk sbatVarRequiredColumns strs
  swap
  · rw [reject, if_pos hall]
    rfl
  rw [reject_of_not (not_not.mpr hall), ok_bind, ok_bind, map_map]
  refine bind_congr fun _ => congrArg Except.ok (map_congr_left fun row hrow => ?_)
  have hlen : 2 ≤ row.length := (hok.mpr hall row hrow).1
  have hdate : (if row.length = sbatVarColumns then some (column m' row 2) else none) =
      if (row.map m'.cstr).length = sbatVarColumns then some ((row.map m'.cstr).getD 2 [])
      else none := by
    rw [length_map]
    split_ifs with hthree
    · rw [column_eq (by rw [hthree]; decide)]
    · rfl
  rw [Function.comp_apply, stringsEntry, ← hdate, column_eq (by omega), column_eq (by omega)]

def variableBuffer (fresh : Mem) (data : List UInt8) : Mem :=
  (fresh.fill 0 (data.length + 3) 0).copy 0 (ofBytes data) 0 data.length

def parseSbatVarEntries (pool : Pool) (fails : Option EfiStatus) (level : Option Variable)
    (candidate : Option (List UInt8)) : Except EfiStatus (List VarEntry) :=
  match candidate with
  | none => do
    let v ← getVariable fails level
    parseSbatVarData pool (variableBuffer pool.fresh v.data) (v.data.length + 1)
  | some s => parseSbatVar pool s

lemma parseSbatVarEntries_some (pool : Pool) (fails : Option EfiStatus) (level : Option Variable)
    (s : List UInt8) : parseSbatVarEntries pool fails level (some s) = parseSbatVar pool s := rfl

def Independent (fails : Option EfiStatus) (level : Option Variable)
    (candidate : Option (List UInt8)) : Prop :=
  ∀ (pool : Pool) (fresh fresh' : Mem),
    (parseSbatVarEntries { pool with fresh := fresh } fails level candidate).toOption =
      (parseSbatVarEntries { pool with fresh := fresh' } fails level candidate).toOption

lemma variableBuffer_of_lt (fresh : Mem) {data : List UInt8} {i : ℕ} (h : i < data.length + 3) :
    variableBuffer fresh data i = ofBytes data i := by
  unfold variableBuffer copy fill
  by_cases hi : i < data.length
  · rw [if_pos ⟨Nat.zero_le i, by omega⟩, Nat.sub_zero, Nat.zero_add]
  · rw [if_neg (by omega), if_pos ⟨Nat.zero_le i, by omega⟩, ofBytes_of_le (by omega)]

lemma parseSbatVarData_variable (pool : Pool) (fresh : Mem) (data : List UInt8)
    (hdata : data.length + 1 < 2 ^ 64) :
    parseSbatVarData pool (variableBuffer fresh data) (data.length + 1) =
      parseSbatVarData pool (ofBytes data) (data.length + 1) := by
  rw [parseSbatVarData_eq, parseSbatVarData_eq]
  rcases Nat.eq_zero_or_pos data.length with hnil | hpos
  · rw [csvRows_of_invalid (.inl hnil), csvRows_of_invalid (.inl hnil)]
  have hnul : ofBytes data data.length = 0 := ofBytes_of_le le_rfl
  have hnul' : variableBuffer fresh data data.length = 0 := by
    rw [variableBuffer_of_lt fresh (by omega), hnul]
  have hslice : (variableBuffer fresh data).slice 0 data.length =
      (ofBytes data).slice 0 data.length := by
    rw [slice_eq_iff]
    intro i hi
    rw [Nat.zero_add, variableBuffer_of_lt fresh (by omega)]
  rw [csvRows_eq_pieceRows pool.row hdata hpos hnul' (by decide),
    csvRows_eq_pieceRows pool.row hdata hpos hnul (by decide), csvBody_eq hdata hpos hnul',
    csvBody_eq hdata hpos hnul, hslice]

/-! ## Candidates -/

lemma candidate_strAt (fresh : Mem) (hs : ∀ b ∈ s, b ≠ 0) :
    ((fresh.copy 0 (ofBytes s) 0 s.length).store s.length 1 0).StrAt 0 s := by
  refine ⟨?_, ?_, hs⟩
  · rw [slice_store_of_disjoint _ _ (by omega), slice_copy_self, slice_ofBytes_self]
  · rw [Nat.zero_add, store_one_nul]

lemma parseSbatVar_eq (pool : Pool) (hs : ∀ b ∈ s, b ≠ 0) (hpos : 0 < s.length)
    (hlt : s.length + 1 < 2 ^ 64) :
    parseSbatVar pool s = (do
      allocRows pool.row 0 (openRows sbatVarColumns s (pool.fresh s.length)).length
      rowsEntries pool.table (openRows sbatVarColumns s (pool.fresh s.length))) := by
  have hlast : (pool.fresh.copy 0 (ofBytes s) 0 s.length) s.length = pool.fresh s.length := by
    rw [copy, if_neg (by omega)]
  unfold parseSbatVar
  rw [parseSbatVarData_eq, csvRows_eq_openRows pool.row hlt hpos (by decide)
    (candidate_strAt pool.fresh hs) rfl, hlast, bind_assoc]
  rfl

lemma parseSbatVar_nil (pool : Pool) : parseSbatVar pool [] = .error .invalidParameter := by
  unfold parseSbatVar
  rw [length_nil, parseSbatVarData_eq, csvRows_of_invalid (.inl rfl)]
  rfl

lemma rowsEntries_toOption_of_bad {rows : List (List (List UInt8))} {row : List (List UInt8)}
    (k : ℕ) (hmem : row ∈ rows) (hbad : ¬ ColumnsOk sbatVarRequiredColumns row) :
    (allocRows pool.row 0 k >>= fun _ => rowsEntries pool.table rows).toOption = none := by
  have herror : rowsEntries pool.table rows = .error .invalidParameter := by
    rw [rowsEntries, reject, if_pos fun hall => hbad (hall row hmem)]
    rfl
  cases allocRows pool.row 0 k with
  | error status => rfl
  | ok _ => rw [ok_bind, herror]; rfl

abbrev VarLine (line : List UInt8) : Prop := FieldsOk sbatVarRequiredColumns sbatVarColumns line

/-- Candidates that are parsed alike whatever stands behind them: no start of a byte order mark, and
no well-formed one that ends in a blank line. -/
def Harmless (s : List UInt8) : Prop :=
  s ≠ [0xef] ∧ s ≠ [0xef, 0xbb] ∧
    ¬ (endsBlank (dropBom s) = true ∧ ∀ line ∈ csvLines (dropBom s), VarLine line)

instance (s : List UInt8) : Decidable (Harmless s) := inferInstanceAs (Decidable (_ ∧ _ ∧ _))

lemma columnsOk_csvRow_iff (line : List UInt8) :
    ColumnsOk sbatVarRequiredColumns (csvRow sbatVarColumns line) ↔ VarLine line :=
  csvRow_ok_iff (by decide) (by decide) line

lemma openRows_of_ne (hpos : 0 < s.length) (h₁ : s ≠ [0xef]) (h₂ : s ≠ [0xef, 0xbb]) (b : UInt8) :
    openRows sbatVarColumns s b =
      (csvLines (dropBom s)).map (csvRow sbatVarColumns) ++ openRow (dropBom s) b := by
  unfold openRows
  rw [if_neg]
  rintro ⟨hshort, heq⟩
  have hs : s = utf8Bom.take s.length := by
    have htake := congrArg (List.take s.length) heq
    rwa [take_left' rfl, take_take, Nat.min_eq_left (Nat.le_succ _)] at htake
  rcases (by omega : s.length = 1 ∨ s.length = 2) with hlen | hlen
  · rw [hlen] at hs
    exact h₁ hs
  · rw [hlen] at hs
    exact h₂ hs

lemma parseSbatVar_working (fresh : Mem) (hs : ∀ b ∈ s, b ≠ 0) (hpos : 0 < s.length)
    (hlt : s.length + 1 < 2 ^ 64) :
    (parseSbatVar ⟨fun _ => true, true, true, fresh⟩ s).toOption.isSome = true ↔
      ∀ row ∈ openRows sbatVarColumns s (fresh s.length), ColumnsOk sbatVarRequiredColumns row := by
  rw [parseSbatVar_eq _ hs hpos hlt, allocRows_of_true, ok_bind, rowsEntries]
  by_cases hall : ∀ row ∈ openRows sbatVarColumns s (fresh s.length),
      ColumnsOk sbatVarRequiredColumns row
  · rw [reject_of_not (not_not.mpr hall), ok_bind]
    exact iff_of_true rfl hall
  · rw [reject, if_pos hall]
    exact iff_of_false Bool.false_ne_true hall

def constMem (b : UInt8) : Mem := fun _ => b

section

variable {fails : Option EfiStatus} {level : Option Variable}

lemma Independent.rows_iff (h : Independent fails level (some s)) (hs : ∀ b ∈ s, b ≠ 0)
    (hpos : 0 < s.length) (hlt : s.length + 1 < 2 ^ 64) (b : UInt8) :
    (∀ row ∈ openRows sbatVarColumns s 0, ColumnsOk sbatVarRequiredColumns row) ↔
      ∀ row ∈ openRows sbatVarColumns s b, ColumnsOk sbatVarRequiredColumns row := by
  have heq := h ⟨fun _ => true, true, true, constMem 0⟩ (constMem 0) (constMem b)
  have hzero := parseSbatVar_working (constMem 0) hs hpos hlt
  have hbyte := parseSbatVar_working (constMem b) hs hpos hlt
  rw [parseSbatVarEntries_some, parseSbatVarEntries_some] at heq
  rw [heq] at hzero
  exact hzero.symm.trans hbyte

lemma Independent.harmless (h : Independent fails level (some s)) (hs : ∀ b ∈ s, b ≠ 0)
    (hlt : s.length + 1 < 2 ^ 64) : Harmless s := by
  refine ⟨?_, ?_, ?_⟩
  · rintro rfl
    exact absurd (h.rows_iff hs (by decide) hlt 0xbb) (by decide +kernel)
  · rintro rfl
    exact absurd (h.rows_iff hs (by decide) hlt 0xbf) (by decide +kernel)
  · rintro ⟨hend, hlines⟩
    have hpos : 0 < s.length := by
      rw [length_pos_iff]
      rintro rfl
      exact absurd hend (by decide +kernel)
    -- the fields are not empty, so the candidate is no start of a byte order mark
    have h₁ : s ≠ [0xef] := by
      rintro rfl
      exact absurd hend (by decide +kernel)
    have h₂ : s ≠ [0xef, 0xbb] := by
      rintro rfl
      exact absurd hend (by decide +kernel)
    have hiff := h.rows_iff hs hpos hlt 0x0a
    rw [openRows_of_ne hpos h₁ h₂, openRows_of_ne hpos h₁ h₂] at hiff
    have hzero : openRow (dropBom s) 0 = [] := by
      rw [openRow, if_neg]
      exact fun hc => absurd hc.2 (by decide)
    have hextra : openRow (dropBom s) 0x0a = [[]] := by rw [openRow, if_pos ⟨hend, rfl⟩]
    have hgood : ∀ row ∈ (csvLines (dropBom s)).map (csvRow sbatVarColumns),
        ColumnsOk sbatVarRequiredColumns row := by
      rw [forall_mem_map]
      exact fun line hline => (columnsOk_csvRow_iff line).mpr (hlines line hline)
    rw [hzero, append_nil, hextra] at hiff
    exact absurd (hiff.mp hgood [] (mem_append_right _ mem_cons_self)) (by decide)

lemma Harmless.independent (h : Harmless s) (hs : ∀ b ∈ s, b ≠ 0) (hlt : s.length + 1 < 2 ^ 64) :
    Independent fails level (some s) := by
  intro pool fresh fresh'
  rw [parseSbatVarEntries_some, parseSbatVarEntries_some]
  obtain ⟨h₁, h₂, hblank⟩ := h
  rcases Nat.eq_zero_or_pos s.length with hnil | hpos
  · rw [length_eq_zero_iff.mp hnil, parseSbatVar_nil, parseSbatVar_nil]
  rw [parseSbatVar_eq _ hs hpos hlt, parseSbatVar_eq _ hs hpos hlt, openRows_of_ne hpos h₁ h₂,
    openRows_of_ne hpos h₁ h₂]
  cases hend : endsBlank (dropBom s) with
  | false =>
    have hnone : ∀ b, openRow (dropBom s) b = [] := by
      intro b
      rw [openRow, hend, if_neg]
      exact fun hc => absurd hc.1 Bool.false_ne_true
    rw [hnone, hnone]
  | true =>
    -- some line is bad, with every byte behind the text
    have hbad : ∃ line ∈ csvLines (dropBom s), ¬ VarLine line := by
      by_contra hall
      push Not at hall
      exact hblank ⟨hend, hall⟩
    obtain ⟨line, hmem, hline⟩ := hbad
    have hrow : ¬ ColumnsOk sbatVarRequiredColumns (csvRow sbatVarColumns line) :=
      fun hok => hline ((columnsOk_csvRow_iff line).mp hok)
    rw [rowsEntries_toOption_of_bad _ (mem_append_left _ (mem_map_of_mem hmem)) hrow,
      rowsEntries_toOption_of_bad _ (mem_append_left _ (mem_map_of_mem hmem)) hrow]

end

/-- The list that a candidate is parsed into does not depend on what was in memory iff the candidate
is harmless. The list of a variable never does. -/
theorem parseSbatVarEntries_independent_iff (fails : Option EfiStatus) (level : Option Variable)
    (candidate : Option (List UInt8)) (hlevel : ∀ v ∈ level, v.data.length + 1 < 2 ^ 64)
    (hcandidate : ∀ s ∈ candidate, (∀ b ∈ s, b ≠ 0) ∧ s.length + 1 < 2 ^ 64) :
    Independent fails level candidate ↔ ∀ s ∈ candidate, Harmless s := by
  cases candidate with
  | none =>
    refine iff_of_true (fun pool fresh fresh' => ?_) fun s hs => absurd hs (Option.not_mem_none s)
    unfold parseSbatVarEntries
    cases hget : getVariable fails level with
    | error status =>
      show (none : Option (List VarEntry)) = none
      rfl
    | ok v =>
      have hv : v.data.length + 1 < 2 ^ 64 := hlevel v (getVariable_mem hget)
      simp only [ok_bind]
      rw [parseSbatVarData_variable _ _ _ hv, parseSbatVarData_variable _ _ _ hv,
        parseSbatVarData_eq, parseSbatVarData_eq]
  | some s =>
    obtain ⟨hs, hlt⟩ := hcandidate s rfl
    constructor
    · intro h s' hs'
      obtain rfl : s = s' := Option.some.inj hs'
      exact h.harmless hs hlt
    · intro h
      exact (h s rfl).independent hs hlt

def littered (pos : ℕ) (b : UInt8) : Pool :=
  ⟨fun _ => true, true, true, fun i => if i = pos then b else 0⟩

def crlfCandidate : List UInt8 := ofText "sbat,1,2021030218\r\n"

/-- A candidate in CRLF has its entry if the byte behind its copy is zero, and is rejected if it is
a line feed. -/
theorem crlfCandidate_depends :
    (parseSbatVarEntries (littered 19 0) none none (some crlfCandidate)).toOption =
        some [⟨ofText "sbat", ofText "1", some (ofText "2021030218")⟩] ∧
      (parseSbatVarEntries (littered 19 0x0a) none none (some crlfCandidate)).toOption = none ∧
      ¬ Independent none none (some crlfCandidate) := by
  have hzero : (parseSbatVarEntries (littered 19 0) none none (some crlfCandidate)).toOption =
        some [⟨ofText "sbat", ofText "1", some (ofText "2021030218")⟩] := by
    decide +kernel
  have hfeed :
      (parseSbatVarEntries (littered 19 0x0a) none none (some crlfCandidate)).toOption = none := by
    decide +kernel
  refine ⟨hzero, hfeed, fun h => ?_⟩
  have heq := h (littered 19 0) (littered 19 0).fresh (littered 19 0x0a).fresh
  change (parseSbatVarEntries (littered 19 0) none none _).toOption =
    (parseSbatVarEntries (littered 19 0x0a) none none _).toOption at heq
  rw [hzero, hfeed] at heq
  cases heq

theorem parseSbatVarEntries_independent_original : (∀ b ∈ ofText "sbat,1,2021030218\n", b ≠ 0) ∧
      Independent none none (some (ofText "sbat,1,2021030218\n")) ∧
      ¬ Independent none none (some (ofText "sbat,1,2021030218\r\n")) := by
  have htext : ∀ b ∈ ofText "sbat,1,2021030218\n", b ≠ 0 := by decide +kernel
  have hcrlf : ∀ b ∈ ofText "sbat,1,2021030218\r\n", b ≠ 0 := by decide +kernel
  have horiginal := parseSbatVarEntries_independent_iff none none
    (some (ofText "sbat,1,2021030218\n")) (fun v hv => absurd hv (Option.not_mem_none v))
    (fun s hs => Option.some.inj hs ▸ ⟨htext, by decide +kernel⟩)
  have hother := parseSbatVarEntries_independent_iff none none
    (some (ofText "sbat,1,2021030218\r\n")) (fun v hv => absurd hv (Option.not_mem_none v))
    (fun s hs => Option.some.inj hs ▸ ⟨hcrlf, by decide +kernel⟩)
  refine ⟨htext, horiginal.mpr fun s hs => ?_, fun h => ?_⟩
  · obtain rfl := Option.some.inj hs
    decide +kernel
  · exact absurd (hother.mp h _ rfl) (by decide +kernel)

end Shim.Sbat
