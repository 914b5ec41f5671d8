import Shim.Lib.Check
import Shim.Lib.CStr
import Shim.Lib.Word
import Shim.Efi

/-!
# The CSV parser

`parse_csv_data` splits a buffer into lines and columns, in place: it overwrites line ends and commas
by `NUL`s and keeps pointers, here offsets from the start of the buffer. `max` is a 64-bit number that
wraps, as it does in the source when the cursor has run over the last byte.
-/

namespace Shim.Sbat

open Lib List Mem

def strnchrnul (m : Mem) (s max : ℕ) (c : UInt8) : ℕ :=
  if max = 0 then s
  else
    let i := m.scan (fun b => b == 0 || b == c) s max
    s + (if i = max then i - 1 else i)

structure Token where
  valid : Bool
  /-- The buffer, with the delimiter overwritten. -/
  m : Mem
  state : UInt8

def strntoken (m : Mem) (str max : ℕ) (delim : UInt8) (first : Bool) (state : UInt8) : Token :=
  if max = 0 then ⟨false, m, state⟩
  else
    let special := first && max == 1 && m str == 0
    let stateIsDelim := special || (!first && delim == state)
    let tokend := min (addW 64 str (max - 1)) (strnchrnul m str max delim)
    if m tokend = delim then ⟨true, m.store tokend 1 0, delim⟩ else ⟨stateIsDelim, m, state⟩

def comma : UInt8 := 0x2c

def parseCsvLineFrom (m : Mem) (next max : ℕ) (first : Bool) (state : UInt8) : ℕ → Mem × List ℕ
  | 0 => (m, [])
  | n + 1 =>
    let t := strntoken m next max comma first state
    if t.valid then
      let len := t.m.strlen next + 1
      let r := parseCsvLineFrom t.m (next + len) (subW 64 max len) false t.state n
      (r.1, next :: r.2)
    else (t.m, [])

def parseCsvLine (m : Mem) (line max nColumns : ℕ) : Mem × List ℕ :=
  parseCsvLineFrom m line max true 0 nColumns

def isLineEnd (b : UInt8) : Bool := b == 0x0d || b == 0x0a

def room (endp line : ℕ) : ℕ := addW 64 (subW 64 endp line) (if line < endp then 1 else 0)

def lineEnd (m : Mem) (line max endp : ℕ) : ℕ :=
  min (min endp (strnchrnul m line max 0x0d)) (strnchrnul m line max 0x0a)

structure CsvState where
  m : Mem
  line : ℕ
  rows : List (List ℕ)

variable {k n nColumns : ℕ} {alloc : ℕ → Bool} {rows : List (List ℕ)} {st : CsvState}

/-- One round of the line loop; the flag says that it ended in `break`. `alloc k` is whether the
allocation of row `k` succeeds. -/
def csvRound (alloc : ℕ → Bool) (nColumns dataEnd : ℕ) (st : CsvState) :
    Except EfiStatus (Bool × CsvState) :=
  let max := room dataEnd st.line
  -- the delimiters of the previous line
  let skipped := st.m.scan (fun b => !isLineEnd b) st.line max
  let line := st.line + skipped
  let endp := lineEnd st.m line (max - skipped) dataEnd
  let max := room endp line
  let eof := st.m endp == 0
  let m := st.m.store endp 1 0
  if line = dataEnd ∨ max = 0 then .ok (false, ⟨m, endp + 1, st.rows⟩)
  else do
    reject (alloc st.rows.length = false) .outOfResources
    let endp := lineEnd m line max endp
    let (m, columns) := parseCsvLine m line max nColumns
    .ok (eof, ⟨m, if eof then line else endp + 1, st.rows ++ [columns]⟩)

/-- The line loop. Every round moves the cursor on, so `dataEnd + 1` rounds are enough. -/
def csvLoop (alloc : ℕ → Bool) (nColumns dataEnd : ℕ) : ℕ → CsvState → Except EfiStatus CsvState
  | 0, st => .ok st
  | n + 1, st =>
    if st.line ≤ dataEnd ∧ st.m st.line ≠ 0 then do
      let (stop, st) ← csvRound alloc nColumns dataEnd st
      if stop then .ok st else csvLoop alloc nColumns dataEnd n st
    else .ok st

def utf8Bom : List UInt8 := [0xef, 0xbb, 0xbf]

def isUtf8Bom (m : Mem) (bufsize : ℕ) : Bool := m.slice 0 (min 3 bufsize) == utf8Bom.take bufsize

def csvStart (m : Mem) (dataEnd : ℕ) : ℕ := if isUtf8Bom m (room dataEnd 0) then 3 else 0

/-- The rows of a buffer whose last byte is at `dataEnd`, as pointers into the buffer the parser
leaves behind. -/
def parseCsvData (alloc : ℕ → Bool) (m : Mem) (dataEnd nColumns : ℕ) :
    Except EfiStatus (Mem × List (List ℕ)) := do
  reject (dataEnd = 0 ∨ nColumns = 0) .invalidParameter
  let st ← csvLoop alloc nColumns dataEnd (dataEnd + 1) ⟨m, csvStart m dataEnd, []⟩
  .ok (st.m, st.rows)

variable {m : Mem} {line last : ℕ}

lemma room_of_le (hlast : last + 1 < 2 ^ 64) (h : line ≤ last) :
    room last line = last - line + (if line < last then 1 else 0) := by
  unfold room
  rw [subW_of_le (by omega) h, addW_of_lt]
  split_ifs <;> omega

lemma room_of_lt (hlast : last + 1 < 2 ^ 64) (h : line < last) :
    room last line = last - line + 1 := by
  rw [room_of_le hlast h.le, if_pos h]

lemma strnchrnul_of_nul {s max : ℕ} {c : UInt8} (hk : k < max) (hnul : m (s + k) = 0) :
    strnchrnul m s max c = s + m.scan (fun b => b == 0 || b == c) s max := by
  have hle : m.scan (fun b => b == 0 || b == c) s max ≤ k := scan_le_of (by simp [hnul])
  unfold strnchrnul
  rw [if_neg (by omega)]
  simp only
  rw [if_neg (by omega)]

lemma strnchrnul_eq_min (c : UInt8) (h : line ≤ last) : strnchrnul m line (last - line + 1) c =
      min last (line + m.scan (fun b => b == 0 || b == c) line (last - line + 1)) := by
  have hle := m.scan_le (fun b => b == 0 || b == c) line (last - line + 1)
  unfold strnchrnul
  rw [if_neg (Nat.succ_ne_zero _)]
  simp only
  split_ifs <;> omega

lemma scan_lineEnd (m : Mem) (line n : ℕ) : m.scan (fun b => b == 0 || isLineEnd b) line n =
      min (m.scan (fun b => b == 0 || b == 0x0d) line n)
        (m.scan (fun b => b == 0 || b == 0x0a) line n) := by
  rw [← scan_or]
  congr 1
  funext b
  cases hzero : b == 0 <;> simp [isLineEnd]

lemma lineEnd_eq_min (h : line ≤ last) : lineEnd m line (last - line + 1) last =
      min last (line + m.scan (fun b => b == 0 || isLineEnd b) line (last - line + 1)) := by
  unfold lineEnd
  rw [strnchrnul_eq_min _ h, strnchrnul_eq_min _ h, scan_lineEnd]
  omega

lemma lineEnd_eq (hnul : m last = 0) (h : line ≤ last) : lineEnd m line (last - line + 1) last =
      line + m.scan (fun b => b == 0 || isLineEnd b) line (last - line + 1) := by
  have hle : m.scan (fun b => b == 0 || isLineEnd b) line (last - line + 1) ≤ last - line := by
    apply scan_le_of
    rw [Nat.add_sub_cancel' h, hnul]
    rfl
  rw [lineEnd_eq_min h]
  omega

/-! ## Buffers without a row -/

/-- Among the bytes is one that is neither a line end nor `NUL`, reached over line ends, and over a
`NUL` only directly behind a line end (`behind`). -/
def HasRow (behind : Bool) : List UInt8 → Prop
  | [] => False
  | b :: bs =>
    if isLineEnd b then HasRow true bs
    else if b = 0 then behind = true ∧ HasRow false bs
    else True

instance (behind : Bool) (bs : List UInt8) : Decidable (HasRow behind bs) := by
  induction bs generalizing behind with
  | nil => exact .isFalse id
  | cons b bs ih =>
    unfold HasRow
    infer_instance

lemma skip_eq (hk : line + k ≤ last)
    (hends : ∀ j < k, isLineEnd (m (line + j)) = true) (hend : isLineEnd (m (line + k)) = false) :
    m.scan (fun b => !isLineEnd b) line (last - line + 1) = k := by
  apply scan_unique (by omega)
  · intro j hj
    simp [hends j hj]
  · right
    simp [hend]

lemma csvRound_blank
    (hlast : last + 1 < 2 ^ 64) (hnul : m last = 0) (hk : line + k ≤ last) (hpos : 0 < k)
    (hends : ∀ j < k, isLineEnd (m (line + j)) = true) (hstop : m (line + k) = 0) :
    csvRound alloc nColumns last ⟨m, line, rows⟩ = .ok (false, ⟨m, line + k + 1, rows⟩) := by
  have hroom : room last line = last - line + 1 := room_of_lt hlast (by omega)
  have hskip := skip_eq hk hends (by rw [hstop]; rfl)
  have hrest : last - line + 1 - k = last - (line + k) + 1 := by omega
  have hend : lineEnd m (line + k) (last - (line + k) + 1) last = line + k := by
    rw [lineEnd_eq hnul hk, scan_eq_zero (by simp [hstop]), Nat.add_zero]
  have hzero : room (line + k) (line + k) = 0 := by
    rw [room_of_le (by omega) le_rfl]
    simp
  simp only [csvRound, hroom, hskip, hrest, hend, hzero, store_nul hstop, or_true, if_true]

lemma length_parseCsvLineFrom_le (m : Mem) (next max : ℕ) (first : Bool) (state : UInt8) (n : ℕ) :
    (parseCsvLineFrom m next max first state n).2.length ≤ n := by
  induction n generalizing m next max first state with
  | zero => exact le_rfl
  | succ n ih =>
    rw [parseCsvLineFrom]
    simp only
    split_ifs
    · exact Nat.succ_le_succ (ih _ _ _ _ _)
    · exact Nat.zero_le _

lemma csvRound_columns {st' : CsvState} {stop : Bool}
    (h : csvRound alloc nColumns last st = .ok (stop, st'))
    (hrows : ∀ row ∈ st.rows, row.length ≤ nColumns) :
    ∀ row ∈ st'.rows, row.length ≤ nColumns := by
  unfold csvRound at h
  simp only at h
  split_ifs at h
  · cases h
    exact hrows
  all_goals
    rw [reject_bind_eq_ok] at h
    cases h.2
    exact forall_mem_append.mpr ⟨hrows, forall_mem_singleton.mpr
      (length_parseCsvLineFrom_le _ _ _ _ _ _)⟩

lemma csvLoop_columns {st' : CsvState} (h : csvLoop alloc nColumns last n st = .ok st')
    (hrows : ∀ row ∈ st.rows, row.length ≤ nColumns) :
    ∀ row ∈ st'.rows, row.length ≤ nColumns := by
  induction n generalizing st with
  | zero =>
    cases h
    exact hrows
  | succ n ih =>
    unfold csvLoop at h
    split_ifs at h with hc
    · obtain ⟨⟨stop, st₁⟩, hround, h⟩ := bind_eq_ok.mp h
      have hrows₁ := csvRound_columns hround hrows
      cases stop with
      | true =>
        cases h
        exact hrows₁
      | false => exact ih h hrows₁
    · cases h
      exact hrows

lemma parseCsvData_row_length_le {m' : Mem}
    (h : parseCsvData alloc m last nColumns = .ok (m', rows)) :
    ∀ row ∈ rows, row.length ≤ nColumns := by
  unfold parseCsvData at h
  rw [reject_bind_eq_ok, bind_eq_ok] at h
  obtain ⟨_, st, hloop, h⟩ := h
  cases h
  exact csvLoop_columns hloop (forall_mem_nil _)

def csvBody (m : Mem) (last : ℕ) : List UInt8 :=
  m.slice (csvStart m last) (last - csvStart m last)

def dropBom (text : List UInt8) : List UInt8 :=
  if text.take 3 = utf8Bom then text.drop 3 else text

lemma csvBody_eq (hlast : last + 1 < 2 ^ 64) (hpos : 0 < last) (hnul : m last = 0) :
    csvBody m last = dropBom (m.slice 0 last) := by
  have hroom : room last 0 = last + 1 := room_of_lt hlast hpos
  by_cases h3 : 3 ≤ last
  · have hsplit : m.slice 0 last = m.slice 0 3 ++ m.slice 3 (last - 3) := by
      have := m.slice_add 0 3 (last - 3)
      rwa [Nat.add_sub_cancel' h3, Nat.zero_add] at this
    have hbom : isUtf8Bom m (last + 1) = decide (m.slice 0 3 = utf8Bom) := by
      unfold isUtf8Bom
      rw [Nat.min_eq_left (by omega), take_of_length_le (by simp [utf8Bom]; omega)]
      exact Bool.eq_iff_iff.mpr (by simp)
    have htake : (m.slice 0 last).take 3 = m.slice 0 3 := by
      rw [hsplit, take_left' (by simp)]
    have hdrop : (m.slice 0 last).drop 3 = m.slice 3 (last - 3) := by
      rw [hsplit, drop_left' (by simp)]
    unfold csvBody csvStart dropBom
    rw [hroom, hbom, htake, hdrop]
    by_cases h : m.slice 0 3 = utf8Bom <;> simp [h]
  · have hshort : (m.slice 0 last).take 3 ≠ utf8Bom := by
      intro h
      have := congrArg List.length h
      simp [utf8Bom] at this
      omega
    have hbom : isUtf8Bom m (last + 1) = false := by
      have hlast' : last = 1 ∨ last = 2 := by omega
      rcases hlast' with rfl | rfl <;> simp [isUtf8Bom, utf8Bom, Mem.slice, range_succ, hnul]
    unfold csvBody csvStart dropBom
    rw [hroom, hbom, if_neg hshort]
    rfl

end Shim.Sbat
