import Shim.Lib.Decimal
import Shim.Sbat.CsvText

/-!
# SBAT entries and the generation check

The rows of a `.sbat` section and of the `SbatLevel` variable become entries; an image passes when
none of its components has a generation below the one that the variable asks for.
-/

namespace Shim.Sbat

open Lib

/-! ## Entries -/

structure SectionEntry where
  componentName : List UInt8
  componentGeneration : List UInt8
  vendorName : List UInt8
  vendorPackageName : List UInt8
  vendorVersion : List UInt8
  vendorUrl : List UInt8
  deriving DecidableEq

structure VarEntry where
  componentName : List UInt8
  componentGeneration : List UInt8
  sbatDatestamp : Option (List UInt8)
  deriving DecidableEq

structure Pool where
  row : ℕ → Bool
  table : Bool
  copy : Bool
  /-- Memory that has just been allocated. -/
  fresh : Mem

/-- There is memory, and it is cleared. -/
def Pool.working : Pool := ⟨fun _ => true, true, true, fun _ => 0⟩

def RowOk (m : Mem) (required : ℕ) (row : List ℕ) : Prop :=
  required ≤ row.length ∧ ∀ c ∈ row, m c ≠ 0

instance (m : Mem) (required : ℕ) (row : List ℕ) : Decidable (RowOk m required row) :=
  inferInstanceAs (Decidable (_ ∧ _))

def ColumnsOk (required : ℕ) (strs : List (List UInt8)) : Prop :=
  required ≤ strs.length ∧ ∀ f ∈ strs, f ≠ []

instance (required : ℕ) (strs : List (List UInt8)) : Decidable (ColumnsOk required strs) :=
  inferInstanceAs (Decidable (_ ∧ _))

lemma cstr_eq_nil_iff (m : Mem) (pos : ℕ) : m.cstr pos = [] ↔ m pos = 0 := by
  constructor
  · intro h
    have hlen : m.strlen pos = 0 := by
      rw [← Mem.length_slice m pos (m.strlen pos)]
      exact congrArg List.length h
    by_contra hne
    have hpos : 0 < m.strlen pos := Mem.scan_pos (by simpa using hne) (by norm_num)
    exact absurd hlen (Nat.ne_of_gt hpos)
  · intro h
    unfold Mem.cstr
    rw [Mem.strlen_eq (by norm_num : 0 < 2 ^ 64) (fun j hj => absurd hj (Nat.not_lt_zero j)) h]
    rfl

lemma rowOk_iff {m : Mem} {required : ℕ} {row : List ℕ} :
    RowOk m required row ↔ ColumnsOk required (row.map m.cstr) := by
  unfold RowOk ColumnsOk
  rw [List.length_map, List.forall_mem_map]
  simp only [ne_eq, cstr_eq_nil_iff]

def column (m : Mem) (row : List ℕ) (i : ℕ) : List UInt8 := m.cstr (row.getD i 0)

def sbatSectionColumns : ℕ := 6

def sbatVarColumns : ℕ := 3

def sbatVarRequiredColumns : ℕ := sbatVarColumns - 1

def parseSbatSection (pool : Pool) (m : Mem) (size : ℕ) : Except EfiStatus (List SectionEntry) := do
  reject (size = 0) .invalidParameter
  let (m, rows) ← parseCsvData pool.row m (size - 1) sbatSectionColumns
  reject (¬ ∀ row ∈ rows, RowOk m sbatSectionColumns row) .invalidParameter
  if rows = [] then return []
  else do
    reject (pool.table = false) .outOfResources
    return rows.map fun row =>
      ⟨column m row 0, column m row 1, column m row 2, column m row 3, column m row 4,
        column m row 5⟩

def parseSbatVarData (pool : Pool) (m : Mem) (datasize : ℕ) : Except EfiStatus (List VarEntry) := do
  reject (datasize = 0) .invalidParameter
  let (m, rows) ← parseCsvData pool.row m (datasize - 1) sbatVarColumns
  reject (¬ ∀ row ∈ rows, RowOk m sbatVarRequiredColumns row) .invalidParameter
  reject (pool.table = false) .outOfResources
  return rows.map fun row =>
    ⟨column m row 0, column m row 1, if row.length = sbatVarColumns then some (column m row 2) else none⟩

lemma csvRound_failsWith (alloc : ℕ → Bool) (nColumns last : ℕ) (st : CsvState) :
    FailsWith (· ≠ .success) (csvRound alloc nColumns last st) := by
  unfold csvRound
  simp only
  split_ifs
  · exact .ok _
  all_goals exact .reject_bind (by decide) <| .ok _

lemma csvLoop_failsWith (alloc : ℕ → Bool) (nColumns last n : ℕ) (st : CsvState) :
    FailsWith (· ≠ .success) (csvLoop alloc nColumns last n st) := by
  induction n generalizing st with
  | zero => exact .ok _
  | succ n ih =>
    unfold csvLoop
    split_ifs
    · refine .bind (csvRound_failsWith alloc nColumns last st) fun r => ?_
      obtain ⟨stop, st'⟩ := r
      cases stop with
      | false => exact ih st'
      | true => exact .ok _
    · exact .ok _

lemma parseSbatSection_failsWith (pool : Pool) (m : Mem) (size : ℕ) :
    FailsWith (· ≠ .success) (parseSbatSection pool m size) := by
  unfold parseSbatSection parseCsvData
  refine .reject_bind (by decide) <| .bind ?_ fun r => ?_
  · refine .reject_bind (by decide) <|
      .bind (csvLoop_failsWith _ _ _ _ _) fun _ => .ok _
  · refine .reject_bind (by decide) ?_
    split_ifs
    · exact .ok _
    · exact .reject_bind (by decide) <| .ok _

section

variable {pool : Pool} {m : Mem} {size : ℕ} (hsize : size + 1 < 2 ^ 64) (hpos : 0 < size)
  (hnul : m size = 0)
include hsize hpos hnul

lemma parseSbatSection_of_not_hasRow (h : ¬ HasRow false (csvBody m size)) :
    parseSbatSection pool m (size + 1) = .ok [] := by
  obtain ⟨m', hcsv⟩ := parseCsvData_of_not_hasRow pool.row hsize hpos hnul
    (show sbatSectionColumns ≠ 0 by decide) h
  unfold parseSbatSection
  rw [reject_of_not (by omega), Nat.add_sub_cancel, hcsv]
  rfl

lemma parseSbatSection_of_hasRow {es : List SectionEntry} (h : HasRow false (csvBody m size))
    (hes : parseSbatSection pool m (size + 1) = .ok es) : es ≠ [] := by
  unfold parseSbatSection at hes
  rw [reject_bind_eq_ok, bind_eq_ok] at hes
  obtain ⟨_, ⟨m', rows⟩, hcsv, hes⟩ := hes
  have hrows : rows ≠ [] := parseCsvData_of_hasRow _ hsize hpos hnul (by decide) h hcsv
  rw [reject_bind_eq_ok, if_neg hrows, reject_bind_eq_ok] at hes
  obtain ⟨_, _, hes⟩ := hes
  cases hes
  simpa using hrows

end

/-! ## Generations -/

section

variable (atoi : List UInt8 → ℤ)

def generation16 (s : List UInt8) : ℕ := (atoi s % 2 ^ 16).toNat

def verifySingleEntry (entry : SectionEntry) (v : VarEntry) : EfiStatus × Bool :=
  if entry.componentName = v.componentName then
    if generation16 atoi entry.componentGeneration < generation16 atoi v.componentGeneration then
      (.securityViolation, true)
    else (.success, true)
  else (.success, false)

def verifyEntry (entry : SectionEntry) : List VarEntry → EfiStatus
  | [] => .success
  | v :: vs =>
    match verifySingleEntry atoi entry v with
    | (.success, true) => .success
    | (.success, false) => verifyEntry entry vs
    | (status, _) => status

def verifyEntries (vs : List VarEntry) : List SectionEntry → EfiStatus
  | [] => .success
  | entry :: entries =>
    match verifyEntry atoi entry vs with
    | .success => verifyEntries vs entries
    | status => status

def verifySbatHelper (localSbatVar : List VarEntry) (entries : List SectionEntry) : EfiStatus :=
  if localSbatVar = [] then .success else verifyEntries atoi localSbatVar entries

variable {atoi} {vs : List VarEntry} {entries : List SectionEntry}

def varEntry (name generation : String) : VarEntry := ⟨ofText name, ofText generation, none⟩

end

end Shim.Sbat
