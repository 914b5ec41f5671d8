import Shim.Lib.Layout
import Shim.Sbat.CsvText
import Shim.Sbat.Entries

/-!
# The table of the section entries

`parse_sbat_section` counts the bytes it needs, allocates them once, and lays out in them a table of
pointers, the entries, and their strings. A pointer into the allocation is its address `base` and an
offset.
-/

namespace Shim.Sbat

open Lib List Mem Pool

/-! ## The layout -/

def pointerSize : ℕ := 8

def sectionEntrySize : ℕ := 48

def csvRowSize : ℕ := 72

def tableSize (m : Mem) (rows : List (List ℕ)) : ℕ :=
  rows.foldl (fun allocsz row =>
    row.foldl (fun allocsz c => addW 64 allocsz (addW 64 (m.strlen c) 1))
      (addW 64 (addW 64 allocsz pointerSize) sectionEntrySize)) 0

def columnWrites (base : ℕ) (m : Mem) (entry : ℕ) : ℕ → ℕ → List ℕ → List Write × ℕ
  | _, strtab, [] => ([], strtab)
  | i, strtab, c :: cs =>
    let r := columnWrites base m entry (i + 1) (strtab + (m.cstr c).length + 1) cs
    (⟨entry + pointerSize * i, numberBytes 8 (base + strtab)⟩ :: ⟨strtab, m.cstr c ++ [0]⟩ :: r.1,
      r.2)

def rowWrites (base : ℕ) (m : Mem) : ℕ → ℕ → ℕ → List (List ℕ) → List Write
  | _, _, _, [] => []
  | n, entry, strtab, row :: rows =>
    let r := columnWrites base m entry 0 strtab row
    r.1 ++ ⟨pointerSize * n, numberBytes 8 (base + entry)⟩ ::
      rowWrites base m (n + 1) (entry + sectionEntrySize) r.2 rows

structure SectionTable where
  n : ℕ
  allocsz : ℕ
  writes : List Write
  deriving DecidableEq

def rowsTable (base : ℕ) (m : Mem) (rows : List (List ℕ)) : SectionTable :=
  let entries := pointerSize * rows.length
  ⟨rows.length, tableSize m rows,
    rowWrites base m 0 entries (entries + sectionEntrySize * rows.length) rows⟩

def parseSbatSectionTable (pool : Pool) (base : ℕ) (m : Mem) (size : ℕ) :
    Except EfiStatus SectionTable := do
  reject (size = 0) .invalidParameter
  let (m, rows) ← parseCsvData pool.row m (size - 1) sbatSectionColumns
  reject (¬ ∀ row ∈ rows, RowOk m sbatSectionColumns row) .invalidParameter
  if rows = [] then return ⟨0, 0, []⟩
  else do
    reject (pool.table = false) .outOfResources
    return rowsTable base m rows

def readEntry (base : ℕ) (t : Mem) (p : ℕ) : SectionEntry :=
  let field := fun i => t.cstr (t.u64 (p + pointerSize * i) - base)
  ⟨field 0, field 1, field 2, field 3, field 4, field 5⟩

def readEntries (base : ℕ) (t : Mem) : ℕ → ℕ → List SectionEntry
  | _, 0 => []
  | n, k + 1 => readEntry base t (t.u64 (pointerSize * n) - base) :: readEntries base t (n + 1) k

def SectionTable.entries (base : ℕ) (table : SectionTable) : List SectionEntry :=
  readEntries base (Mem.writes (fun _ => 0) table.writes) 0 table.n

def rowBytes (m : Mem) (row : List ℕ) : ℕ := (row.map fun c => (m.cstr c).length + 1).sum

def rowsBytes (m : Mem) (rows : List (List ℕ)) : ℕ := (rows.map (rowBytes m)).sum

variable {m t : Mem} {base entry i n strtab : ℕ} {row : List ℕ} {rows : List (List ℕ)}

@[simp] lemma rowBytes_nil : rowBytes m [] = 0 := rfl

@[simp] lemma rowBytes_cons (c : ℕ) :
    rowBytes m (c :: row) = (m.cstr c).length + 1 + rowBytes m row := by
  simp [rowBytes]

@[simp] lemma rowsBytes_nil : rowsBytes m [] = 0 := rfl

@[simp] lemma rowsBytes_cons : rowsBytes m (row :: rows) = rowBytes m row + rowsBytes m rows := by
  simp [rowsBytes]

lemma length_cstr (m : Mem) (pos : ℕ) : (m.cstr pos).length = m.strlen pos :=
  length_slice _ _ _

lemma foldl_rowBytes {a : ℕ} (h : a + rowBytes m row < 2 ^ 64) :
    row.foldl (fun allocsz c => addW 64 allocsz (addW 64 (m.strlen c) 1)) a =
      a + rowBytes m row := by
  induction row generalizing a with
  | nil => rfl
  | cons c row ih =>
    rw [rowBytes_cons, length_cstr] at h
    have hstep : addW 64 a (addW 64 (m.strlen c) 1) = a + (m.strlen c + 1) := by
      rw [addW_of_lt (by omega : m.strlen c + 1 < 2 ^ 64), addW_of_lt (by omega)]
    rw [foldl_cons, hstep, ih (by omega), rowBytes_cons, length_cstr]
    omega

lemma tableSize_eq
    (h : (pointerSize + sectionEntrySize) * rows.length + rowsBytes m rows < 2 ^ 64) :
    tableSize m rows = (pointerSize + sectionEntrySize) * rows.length + rowsBytes m rows := by
  have hrun : ∀ a, a + ((pointerSize + sectionEntrySize) * rows.length + rowsBytes m rows) < 2 ^ 64 →
      rows.foldl (fun allocsz row =>
        row.foldl (fun allocsz c => addW 64 allocsz (addW 64 (m.strlen c) 1))
          (addW 64 (addW 64 allocsz pointerSize) sectionEntrySize)) a =
        a + ((pointerSize + sectionEntrySize) * rows.length + rowsBytes m rows) := by
    clear h
    induction rows with
    | nil =>
      intro a _
      rfl
    | cons row rows ih =>
      intro a ha
      rw [length_cons, Nat.mul_succ, rowsBytes_cons] at ha
      have hsizes : addW 64 (addW 64 a pointerSize) sectionEntrySize =
          a + pointerSize + sectionEntrySize := by
        rw [addW_of_lt (by omega : a + pointerSize < 2 ^ 64), addW_of_lt (by omega)]
      rw [foldl_cons, hsizes, foldl_rowBytes (by omega), ih _ (by omega), length_cons,
        Nat.mul_succ, rowsBytes_cons]
      omega
  have htotal := hrun 0 (by omega)
  rwa [Nat.zero_add] at htotal

/-! ## The parts are filled -/

lemma columnWrites_snd : (columnWrites base m entry i strtab row).2 = strtab + rowBytes m row := by
  induction row generalizing i strtab with
  | nil => rfl
  | cons c row ih =>
    rw [columnWrites, ih, rowBytes_cons]
    omega

lemma columnWrites_tiles (base : ℕ) (m : Mem) (entry i strtab : ℕ) (row : List ℕ) :
    ∃ fields strings, (columnWrites base m entry i strtab row).1.Perm (fields ++ strings) ∧
      Tiles (entry + pointerSize * i) (entry + pointerSize * (i + row.length)) fields ∧
      Tiles strtab (strtab + rowBytes m row) strings := by
  induction row generalizing i strtab with
  | nil => exact ⟨[], [], List.Perm.nil, rfl, rfl⟩
  | cons c row ih =>
    obtain ⟨fields, strings, hperm, hfields, hstrings⟩ :=
      ih (i + 1) (strtab + (m.cstr c).length + 1)
    refine ⟨⟨entry + pointerSize * i, numberBytes 8 (base + strtab)⟩ :: fields,
      ⟨strtab, m.cstr c ++ [0]⟩ :: strings, ?_, ⟨rfl, ?_⟩, ⟨rfl, ?_⟩⟩
    · refine List.Perm.cons _ ?_
      exact (hperm.cons _).trans perm_middle.symm
    · have hstop : entry + pointerSize * i + (numberBytes 8 (base + strtab)).length =
          entry + pointerSize * (i + 1) := by
        rw [length_numberBytes]
        unfold pointerSize
        omega
      have hlen : i + (c :: row).length = i + 1 + row.length := by
        rw [length_cons]
        omega
      rw [Write.stop, hstop, hlen]
      exact hfields
    · have hstop : strtab + (m.cstr c ++ [0]).length = strtab + (m.cstr c).length + 1 := by
        rw [length_append, length_singleton, Nat.add_assoc]
      have hend : strtab + rowBytes m (c :: row) =
          strtab + (m.cstr c).length + 1 + rowBytes m row := by
        rw [rowBytes_cons]
        omega
      rw [Write.stop, hstop, hend]
      exact hstrings

lemma rowWrites_tiles (base : ℕ) (m : Mem) (n entry strtab : ℕ) (rows : List (List ℕ))
    (hrows : ∀ row ∈ rows, row.length = sbatSectionColumns) :
    ∃ pointers fields strings,
      (rowWrites base m n entry strtab rows).Perm (pointers ++ (fields ++ strings)) ∧
      Tiles (pointerSize * n) (pointerSize * (n + rows.length)) pointers ∧
      Tiles entry (entry + sectionEntrySize * rows.length) fields ∧
      Tiles strtab (strtab + rowsBytes m rows) strings := by
  induction rows generalizing n entry strtab with
  | nil => exact ⟨[], [], [], List.Perm.nil, rfl, rfl, rfl⟩
  | cons row rows ih =>
    obtain ⟨hrow, hrows⟩ := forall_mem_cons.mp hrows
    obtain ⟨fields, strings, hperm, hfields, hstrings⟩ :=
      columnWrites_tiles base m entry 0 strtab row
    obtain ⟨pointers', fields', strings', hperm', hpointers', hfields', hstrings'⟩ :=
      ih (n + 1) (entry + sectionEntrySize) (strtab + rowBytes m row) hrows
    refine ⟨⟨pointerSize * n, numberBytes 8 (base + entry)⟩ :: pointers', fields ++ fields',
      strings ++ strings', ?_, ⟨rfl, ?_⟩, ?_, ?_⟩
    · -- the pointer first; then fields and strings are sorted out of each row
      rw [rowWrites, columnWrites_snd, cons_append]
      refine perm_middle.trans (List.Perm.cons _ ?_)
      refine (hperm.append hperm').trans (perm_iff_count.mpr fun w => ?_)
      simp only [count_append]
      omega
    · have hstop : pointerSize * n + (numberBytes 8 (base + entry)).length =
          pointerSize * (n + 1) := by
        rw [length_numberBytes]
        rfl
      have hlen : n + (row :: rows).length = n + 1 + rows.length := by
        rw [length_cons]
        omega
      rw [Write.stop, hstop, hlen]
      exact hpointers'
    · have hmid : entry + pointerSize * (0 + row.length) = entry + sectionEntrySize := by
        rw [hrow]
        rfl
      have hend : entry + sectionEntrySize * (row :: rows).length =
          entry + sectionEntrySize + sectionEntrySize * rows.length := by
        rw [length_cons, Nat.mul_succ]
        omega
      rw [hmid] at hfields
      rw [hend]
      exact hfields.append hfields'
    · have hend : strtab + rowsBytes m (row :: rows) =
          strtab + rowBytes m row + rowsBytes m rows := by
        rw [rowsBytes_cons]
        omega
      rw [hend]
      exact hstrings.append hstrings'

/-! ## The entries are read back -/

lemma cstr_ne_nul (m : Mem) (pos : ℕ) : ∀ b ∈ m.cstr pos, b ≠ 0 := by
  intro b hb
  obtain ⟨j, hj, rfl⟩ := mem_map.mp hb
  have hbefore := (m.scan_spec (· == 0) pos (2 ^ 64)).1 j (mem_range.mp hj)
  simpa using hbefore

lemma columnWrites_read (hback : ReadsBack t (columnWrites base m entry i strtab row).1)
    (hroom : base + (strtab + rowBytes m row) ≤ 2 ^ 64) {j : ℕ} (hj : j < row.length) :
    t.cstr (t.u64 (entry + pointerSize * (i + j)) - base) = m.cstr row[j] := by
  induction row generalizing i strtab j with
  | nil => exact absurd hj (Nat.not_lt_zero j)
  | cons c row ih =>
    rw [columnWrites] at hback
    rw [rowBytes_cons] at hroom
    cases j with
    | zero =>
      have hpointer : t.u64 (entry + pointerSize * i) = base + strtab :=
        hback.load_eq (mem_cons_self) (by omega)
      have hstr : t.StrAt strtab (m.cstr c) :=
        hback.strAt (mem_cons_of_mem _ mem_cons_self) (cstr_ne_nul m c)
      rw [Nat.add_zero, hpointer, Nat.add_sub_cancel_left, hstr.cstr_eq (by omega)]
      rfl
    | succ j =>
      have hrest : ReadsBack t
          (columnWrites base m entry (i + 1) (strtab + (m.cstr c).length + 1) row).1 :=
        hback.subset fun w hw => mem_cons_of_mem _ (mem_cons_of_mem _ hw)
      have hfield := ih hrest (by omega) (Nat.lt_of_succ_lt_succ hj)
      rw [show i + (j + 1) = i + 1 + j by omega, hfield]
      rfl

def rowEntry (m : Mem) (row : List ℕ) : SectionEntry :=
  ⟨column m row 0, column m row 1, column m row 2, column m row 3, column m row 4, column m row 5⟩

lemma readEntry_columnWrites (hback : ReadsBack t (columnWrites base m entry 0 strtab row).1)
    (hroom : base + (strtab + rowBytes m row) ≤ 2 ^ 64) (hrow : row.length = sbatSectionColumns) :
    readEntry base t entry = rowEntry m row := by
  have hfield : ∀ j < 6, t.cstr (t.u64 (entry + pointerSize * j) - base) = column m row j := by
    intro j hj
    have hlt : j < row.length := by
      rw [hrow]
      exact hj
    have hread := columnWrites_read hback hroom hlt
    rw [Nat.zero_add] at hread
    rw [hread, column, getD_eq_getElem _ _ hlt]
  unfold readEntry rowEntry
  simp only [hfield 0 (by decide), hfield 1 (by decide), hfield 2 (by decide), hfield 3 (by decide),
    hfield 4 (by decide), hfield 5 (by decide)]

lemma readEntries_rowWrites (hback : ReadsBack t (rowWrites base m n entry strtab rows))
    (hrows : ∀ row ∈ rows, row.length = sbatSectionColumns)
    (hroom : base + (strtab + rowsBytes m rows) ≤ 2 ^ 64)
    (hentry : entry + sectionEntrySize * rows.length ≤ strtab) :
    readEntries base t n rows.length = rows.map (rowEntry m) := by
  induction rows generalizing n entry strtab with
  | nil => rfl
  | cons row rows ih =>
    obtain ⟨hrow, hrows⟩ := forall_mem_cons.mp hrows
    rw [rowWrites, columnWrites_snd] at hback
    rw [rowsBytes_cons] at hroom
    rw [length_cons, Nat.mul_succ] at hentry
    have hpointer : t.u64 (pointerSize * n) = base + entry := by
      refine hback.load_eq (mem_append_right _ mem_cons_self) ?_
      have hpos : 0 < sectionEntrySize := by decide
      omega
    have hhead : readEntry base t entry = rowEntry m row :=
      readEntry_columnWrites (hback.subset fun w hw => mem_append_left _ hw) (by omega) hrow
    have htail : readEntries base t (n + 1) rows.length = rows.map (rowEntry m) :=
      ih (hback.subset fun w hw => mem_append_right _ (mem_cons_of_mem _ hw)) hrows
        (by omega) (by omega)
    rw [length_cons, readEntries, hpointer, Nat.add_sub_cancel_left, hhead, htail,
      map_cons]

/-- The parts of the allocation: the pointers, the entries and the strings fill it without a gap and
without an overlap. -/
def SectionTable.Filled (table : SectionTable) : Prop :=
  ∃ pointers fields strings, table.writes.Perm (pointers ++ (fields ++ strings)) ∧
    Tiles 0 (pointerSize * table.n) pointers ∧
    Tiles (pointerSize * table.n) (pointerSize * table.n + sectionEntrySize * table.n) fields ∧
    Tiles (pointerSize * table.n + sectionEntrySize * table.n) table.allocsz strings

lemma SectionTable.Filled.readsBack {table : SectionTable} (h : table.Filled) (t : Mem) :
    ReadsBack (t.writes table.writes) table.writes := by
  obtain ⟨pointers, fields, strings, hperm, hpointers, hfields, hstrings⟩ := h
  have htiles := hpointers.append (hfields.append hstrings)
  exact ReadsBack.of_writes t (Write.pairwise_apart_of_perm hperm htiles.pairwise_apart)

lemma rowsTable_filled (base : ℕ) (hrows : ∀ row ∈ rows, row.length = sbatSectionColumns)
    (hsize : (pointerSize + sectionEntrySize) * rows.length + rowsBytes m rows < 2 ^ 64) :
    (rowsTable base m rows).Filled := by
  obtain ⟨pointers, fields, strings, hperm, hpointers, hfields, hstrings⟩ :=
    rowWrites_tiles base m 0 (pointerSize * rows.length)
      (pointerSize * rows.length + sectionEntrySize * rows.length) rows hrows
  rw [Nat.mul_zero, Nat.zero_add] at hpointers
  refine ⟨pointers, fields, strings, hperm, hpointers, hfields, ?_⟩
  dsimp only [rowsTable]
  rw [tableSize_eq hsize, Nat.add_mul]
  exact hstrings

lemma rowsTable_entries (hrows : ∀ row ∈ rows, row.length = sbatSectionColumns)
    (hsize : (pointerSize + sectionEntrySize) * rows.length + rowsBytes m rows < 2 ^ 64)
    (hbase : base + (rowsTable base m rows).allocsz ≤ 2 ^ 64) :
    (rowsTable base m rows).entries base = rows.map (rowEntry m) := by
  have hback := (rowsTable_filled base hrows hsize).readsBack fun _ => 0
  have halloc : (rowsTable base m rows).allocsz =
      pointerSize * rows.length + sectionEntrySize * rows.length + rowsBytes m rows := by
    dsimp only [rowsTable]
    rw [tableSize_eq hsize, Nat.add_mul]
  rw [halloc] at hbase
  exact readEntries_rowWrites hback hrows hbase le_rfl

/-- What an allocation promises of the rows: their table is an object in the address space. -/
def TableFits (base : ℕ) (m : Mem) (rows : List (List ℕ)) : Prop :=
  (pointerSize + sectionEntrySize) * rows.length + rowsBytes m rows < 2 ^ 64 ∧
    base + (rowsTable base m rows).allocsz ≤ 2 ^ 64

instance (base : ℕ) (m : Mem) (rows : List (List ℕ)) : Decidable (TableFits base m rows) :=
  inferInstanceAs (Decidable (_ ∧ _))

/-- What is read back from the one allocation is what the parser on lists returns. -/
theorem parseSbatSection_eq_table (pool : Pool) (base : ℕ) (m : Mem) (size : ℕ)
    (hfits : ∀ m' rows, parseCsvData pool.row m (size - 1) sbatSectionColumns = .ok (m', rows) →
      TableFits base m' rows) :
    parseSbatSection pool m size =
      (parseSbatSectionTable pool base m size).map (SectionTable.entries base) := by
  unfold parseSbatSection parseSbatSectionTable
  by_cases hsize : size = 0
  · rw [reject, if_pos hsize]
    rfl
  rw [reject_of_not hsize, ok_bind, ok_bind]
  cases hparse : parseCsvData pool.row m (size - 1) sbatSectionColumns with
  | error status => rfl
  | ok r =>
    obtain ⟨m', rows⟩ := r
    simp only [ok_bind]
    by_cases hok : ∀ row ∈ rows, RowOk m' sbatSectionColumns row
    swap
    · rw [reject, if_pos hok]
      rfl
    rw [reject_of_not (not_not.mpr hok), ok_bind, ok_bind]
    by_cases hnil : rows = []
    · rw [if_pos hnil, if_pos hnil]
      rfl
    rw [if_neg hnil, if_neg hnil]
    cases htable : pool.table with
    | false => rfl
    | true =>
      have hrows : ∀ row ∈ rows, row.length = sbatSectionColumns := by
        intro row hrow
        exact Nat.le_antisymm (parseCsvData_row_length_le hparse row hrow) (hok row hrow).1
      obtain ⟨hbytes, hbase⟩ := hfits m' rows hparse
      have hentries := rowsTable_entries hrows hbytes hbase
      exact congrArg Except.ok hentries.symm

/-! ## The table of a text -/

abbrev SectionLine (line : List UInt8) : Prop := FieldsOk sbatSectionColumns sbatSectionColumns line

def lineEntry (line : List UInt8) : SectionEntry :=
  let field := fun i => (line.splitOn comma).getD i []
  ⟨field 0, field 1, field 2, field 3, field 4, field 5⟩

section

variable (text : List UInt8) {lo hi : ℕ} {lines : List (List UInt8)}

lemma sum_splitOnP (p : UInt8 → Bool) (l : List UInt8) :
    ((l.splitOnP p).map fun s => s.length + 1).sum = l.length + 1 := by
  induction l with
  | nil => simp
  | cons b l ih =>
    rw [splitOnP_cons_eq_if_modifyHead]
    by_cases hb : p b = true
    · rw [if_pos hb, map_cons, sum_cons, ih, length_cons, length_nil]
      omega
    rw [if_neg hb]
    obtain ⟨s, rest, hsplit⟩ := exists_cons_of_ne_nil (splitOnP_ne_nil p l)
    rw [hsplit, map_cons, sum_cons] at ih
    rw [hsplit, modifyHead_cons, map_cons, sum_cons, length_cons,
      length_cons]
    omega

lemma sum_csvRow_le (n : ℕ) (line : List UInt8) :
    ((csvRow n line).map fun f => f.length + 1).sum ≤ line.length + 1 := by
  unfold csvRow
  split_ifs
  · have htake := sum_take_add_sum_drop ((line.splitOn comma).map fun f => f.length + 1) n
    have hall : ((line.splitOn comma).map fun f => f.length + 1).sum = line.length + 1 :=
      sum_splitOnP _ line
    rw [← map_take] at htake
    omega
  · exact Nat.zero_le _

lemma sum_csvLines_le :
    ((csvLines text).map fun line => line.length + 1).sum ≤ text.length + 1 := by
  rw [← sum_splitOnP isLineEnd text]
  exact (filter_sublist.map _).sum_le_sum fun _ _ => Nat.zero_le _

lemma length_dropBom_le : (dropBom text).length ≤ text.length := by
  unfold dropBom
  split_ifs
  · rw [length_drop]
    exact Nat.sub_le _ _
  · exact le_rfl

lemma rowBytes_eq {strs : List (List UInt8)} (h : RowAt m lo hi row strs) (hhi : hi < 2 ^ 64) :
    rowBytes m row = (strs.map fun f => f.length + 1).sum := by
  rw [← h.map_cstr hhi, map_map]
  rfl

lemma rowsBytes_le (h : RowsAt m lo hi rows (lines.map (csvRow n))) (hhi : hi < 2 ^ 64) :
    rowsBytes m rows ≤ (lines.map fun line => line.length + 1).sum := by
  induction lines generalizing rows with
  | nil =>
    cases h
    exact le_rfl
  | cons line lines ih =>
    cases h with
    | cons hrow hrows =>
      have hline := sum_csvRow_le n line
      have hlines := ih hrows
      rw [rowsBytes_cons, rowBytes_eq hrow hhi, map_cons, sum_cons]
      omega

lemma rowEntry_eq {line : List UInt8} (h : RowAt m lo hi row (csvRow sbatSectionColumns line))
    (hhi : hi < 2 ^ 64) (hline : SectionLine line) : rowEntry m row = lineEntry line := by
  rw [csvRow_of_fieldsOk (by decide) hline] at h
  have hlen := List.Forall₂.length_eq h
  rw [length_take, Nat.min_eq_left hline.1] at hlen
  have hmap := h.map_cstr hhi
  have hcolumn : ∀ j < sbatSectionColumns, column m row j = (line.splitOn comma).getD j [] := by
    intro j hj
    have hrow : j < row.length := by rwa [hlen]
    have hfield : j < (line.splitOn comma).length := Nat.lt_of_lt_of_le hj hline.1
    have hget : (row.map m.cstr)[j]? = ((line.splitOn comma).take sbatSectionColumns)[j]? := by
      rw [hmap]
    rw [getElem?_map, getElem?_eq_getElem hrow, getElem?_take_of_lt hj,
      getElem?_eq_getElem hfield] at hget
    rw [column, getD_eq_getElem _ _ hrow, getD_eq_getElem _ _ hfield]
    exact Option.some.inj hget
  unfold rowEntry lineEntry
  simp only [hcolumn 0 (by decide), hcolumn 1 (by decide), hcolumn 2 (by decide),
    hcolumn 3 (by decide), hcolumn 4 (by decide), hcolumn 5 (by decide)]

lemma rowsEntries_eq (h : RowsAt m lo hi rows (lines.map (csvRow sbatSectionColumns)))
    (hhi : hi < 2 ^ 64) (hlines : ∀ line ∈ lines, SectionLine line) :
    rows.map (rowEntry m) = lines.map lineEntry := by
  induction lines generalizing rows with
  | nil =>
    cases h
    rfl
  | cons line lines ih =>
    obtain ⟨hline, hlines⟩ := forall_mem_cons.mp hlines
    cases h with
    | cons hrow hrows =>
      rw [map_cons, map_cons, rowEntry_eq hrow hhi hline, ih hrows hlines]

lemma rowsOk_iff (h : RowsAt m lo hi rows (lines.map (csvRow sbatSectionColumns)))
    (hhi : hi < 2 ^ 64) :
    (∀ row ∈ rows, RowOk m sbatSectionColumns row) ↔ ∀ line ∈ lines, SectionLine line := by
  induction lines generalizing rows with
  | nil =>
    cases h
    simp
  | cons line lines ih =>
    cases h with
    | cons hrow hrows =>
      rw [forall_mem_cons, forall_mem_cons, ih hrows, rowOk_iff, hrow.map_cstr hhi,
        ColumnsOk, csvRow_ok_iff (by decide) le_rfl]

end

lemma allocRows_of_forall {alloc : ℕ → Bool} (h : ∀ k, alloc k = true) (k n : ℕ) :
    allocRows alloc k n = .ok () := by
  obtain rfl : alloc = fun _ => true := funext h
  exact allocRows_of_true k n

lemma parseSbatSectionTable_eq_ok_iff {pool : Pool} {m' : Mem} {size : ℕ} {table : SectionTable}
    (hsize : size ≠ 0) (htable : pool.table = true)
    (hparse : parseCsvData pool.row m (size - 1) sbatSectionColumns = .ok (m', rows)) :
    parseSbatSectionTable pool base m size = .ok table ↔
      (∀ row ∈ rows, RowOk m' sbatSectionColumns row) ∧ rowsTable base m' rows = table := by
  unfold parseSbatSectionTable
  rw [reject_of_not hsize, ok_bind, hparse, ok_bind, reject_bind_eq_ok, not_not]
  refine and_congr_right fun _ => ?_
  by_cases hnil : rows = []
  · rw [if_pos hnil, hnil]
    exact ⟨Except.ok.inj, congrArg Except.ok⟩
  · rw [if_neg hnil, reject_of_not (by simp [htable]), ok_bind]
    exact ⟨Except.ok.inj, congrArg Except.ok⟩

/-- For a text in front of `NUL`s there is a table iff every line has six fields and the first six
are not empty. It then holds these fields, in order, and its parts fill the allocation. -/
theorem parseSbatSectionTable_text (pool : Pool) (base : ℕ) (m : Mem) (text : List UInt8) (size : ℕ)
    (hrow : ∀ k, pool.row k = true) (htable : pool.table = true) (htext : m.StrAt 0 text)
    (hnul : ∀ i, text.length ≤ i → i < size → m i = 0) (hlen : text.length < size)
    (hsize : 2 ≤ size)
    (hspace : size + csvRowSize * (csvLines (dropBom text)).length < 2 ^ 64)
    (hbase : ∀ table, parseSbatSectionTable pool base m size = .ok table →
      base + table.allocsz ≤ 2 ^ 64) :
    ((∃ table, parseSbatSectionTable pool base m size = .ok table) ↔
      ∀ line ∈ csvLines (dropBom text), SectionLine line) ∧
    ∀ table, parseSbatSectionTable pool base m size = .ok table →
      table.entries base = (csvLines (dropBom text)).map lineEntry ∧ table.Filled := by
  have hstay : size - 1 = text.length ∨ m (text.length + 1) = 0 ∨
      endsBlank (dropBom text) = false := by
    rcases Nat.eq_or_lt_of_le (show text.length + 1 ≤ size from hlen) with heq | hlt
    · exact .inl (by omega)
    · exact .inr (.inl (hnul _ (by omega) hlt))
  have hlast : size - 1 + 1 < 2 ^ 64 := by omega
  obtain ⟨m', rows, hat, hparse⟩ := parseCsvData_pieces pool.row hlast (by omega)
    (hnul _ (by omega) (by omega)) (show sbatSectionColumns ≠ 0 by decide)
  rw [csvBody_stays hlast (by omega) htext (by omega) hstay] at hat
  rw [allocRows_of_forall hrow, ok_bind] at hparse
  have hok : ∀ table, parseSbatSectionTable pool base m size = .ok table ↔
      (∀ line ∈ csvLines (dropBom text), SectionLine line) ∧ rowsTable base m' rows = table := by
    intro table
    rw [parseSbatSectionTable_eq_ok_iff (by omega) htable hparse, rowsOk_iff hat (by omega)]
  refine ⟨⟨fun ⟨table, h⟩ => ((hok table).mp h).1, fun h => ⟨_, (hok _).mpr ⟨h, rfl⟩⟩⟩, ?_⟩
  intro table htab
  have hfits := hbase table htab
  obtain ⟨hlines, rfl⟩ := (hok table).mp htab
  have hcount : rows.length = (csvLines (dropBom text)).length := by
    rw [List.Forall₂.length_eq hat, length_map]
  have hsix : ∀ row ∈ rows, row.length = sbatSectionColumns := by
    intro row hmem
    exact Nat.le_antisymm (parseCsvData_row_length_le hparse row hmem)
      (((rowsOk_iff hat (by omega)).mpr hlines) row hmem).1
  -- the rows of the CSV parser take more room than the entries, and the section is as large as the
  -- strings
  have hbytes : (pointerSize + sectionEntrySize) * rows.length + rowsBytes m' rows < 2 ^ 64 := by
    have hstrings := rowsBytes_le hat (by omega)
    have htotal := sum_csvLines_le (dropBom text)
    have hbom := length_dropBom_le text
    have hsmall : (pointerSize + sectionEntrySize) * rows.length ≤ csvRowSize * rows.length :=
      Nat.mul_le_mul_right _ (by decide)
    rw [hcount] at hsmall
    rw [hcount]
    omega
  refine ⟨?_, rowsTable_filled base hsix hbytes⟩
  rw [rowsTable_entries hsix hbytes hfits, rowsEntries_eq hat (by omega) hlines]

def bomSection : List UInt8 := utf8Bom ++ ofText "a,1,b,c,d,e\r\nf,2,g,h,i,j,k\n"

theorem parseSbatSectionTable_bomSection :
    (∀ i, bomSection.length ≤ i → i < 40 → ofBytes bomSection i = 0) ∧
    ((∃ table, parseSbatSectionTable working 4096 (ofBytes bomSection) 40 = .ok table) ↔
      ∀ line ∈ csvLines (dropBom bomSection), SectionLine line) ∧
    ∀ table, parseSbatSectionTable working 4096 (ofBytes bomSection) 40 = .ok table →
      table.entries 4096 = (csvLines (dropBom bomSection)).map lineEntry ∧ table.Filled := by
  have hstr : (ofBytes bomSection).StrAt 0 bomSection :=
    ⟨slice_ofBytes_self _, by decide +kernel, by decide +kernel⟩
  have hnul : ∀ i, bomSection.length ≤ i → i < 40 → ofBytes bomSection i = 0 :=
    fun i hi _ => ofBytes_of_le hi
  have hsize : (parseSbatSectionTable working 4096 (ofBytes bomSection) 40).map
      SectionTable.allocsz = .ok 136 := by
    decide +kernel
  refine ⟨hnul, parseSbatSectionTable_text working 4096 _ bomSection 40 (fun _ => rfl) rfl hstr hnul
    (by decide +kernel) (by decide) (by decide +kernel) fun table htable => ?_⟩
  rw [htable] at hsize
  have halloc : table.allocsz = 136 := Except.ok.inj hsize
  rw [halloc]
  decide

theorem parseSbatSection_eq_table_bomSection :
    ((parseCsvData working.row (ofBytes bomSection) 39 sbatSectionColumns).map fun r =>
      decide (TableFits 4096 r.1 r.2)) = .ok true ∧
    parseSbatSection working (ofBytes bomSection) 40 =
      (parseSbatSectionTable working 4096 (ofBytes bomSection) 40).map
        (SectionTable.entries 4096) := by
  have hfits : ((parseCsvData working.row (ofBytes bomSection) 39 sbatSectionColumns).map
      fun r => decide (TableFits 4096 r.1 r.2)) = .ok true := by decide +kernel
  refine ⟨hfits, parseSbatSection_eq_table working 4096 _ 40 fun m' rows hparse => ?_⟩
  rw [hparse] at hfits
  exact of_decide_eq_true (Except.ok.inj hfits)

end Shim.Sbat
