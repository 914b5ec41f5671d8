import Shim.Sbat.CsvText

/-!
# What the CSV parser makes of a buffer without a `NUL`

A candidate for `SbatLevel` is copied into a buffer that is one byte longer, and nothing is written
into that byte. So the parser gets a text up to its last byte, with whatever in that byte.
-/

namespace Shim.Sbat

open Lib List Mem

variable {m : Mem} {line last nColumns fuel : ℕ} {text : List UInt8} {alloc : ℕ → Bool}
  {rows : List (List ℕ)}

/-- The row that is made of nothing: behind a text that ends in a blank line stands another line
end, as the last byte of the buffer. -/
def openRow (text : List UInt8) (b : UInt8) : List (List (List UInt8)) :=
  if endsBlank text = true ∧ isLineEnd b = true then [[]] else []

lemma le_strnchrnul (m : Mem) (pos max : ℕ) (c : UInt8) : pos ≤ strnchrnul m pos max c := by
  unfold strnchrnul
  split_ifs
  · exact le_rfl
  · exact Nat.le_add_right _ _

lemma lineEnd_of_le (m : Mem) (max : ℕ) (h : last ≤ line) : lineEnd m line max last = last := by
  have hcr := le_strnchrnul m line max 0x0d
  have hlf := le_strnchrnul m line max 0x0a
  unfold lineEnd
  omega

section

variable (hlast : last + 1 < 2 ^ 64)
include hlast

lemma csvRound_end {k : ℕ} (hk : line + k = last)
    (hends : ∀ j < k, isLineEnd (m (line + j)) = true) (hb : k = 0 ∨ isLineEnd (m last) = false) :
    csvRound alloc nColumns last ⟨m, line, rows⟩ =
      .ok (false, ⟨m.store last 1 0, last + 1, rows⟩) := by
  have hskip : m.scan (fun b => !isLineEnd b) line (room last line) = k := by
    rcases hb with rfl | hb
    · rw [room_of_le hlast (by omega), if_neg (by omega), show last - line + 0 = 0 by omega]
      rfl
    rcases Nat.eq_zero_or_pos k with rfl | hpos
    · rw [room_of_le hlast (by omega), if_neg (by omega), show last - line + 0 = 0 by omega]
      rfl
    · rw [room_of_lt hlast (by omega)]
      exact skip_eq (by omega) hends (by rwa [hk])
  simp only [csvRound, hskip, hk, lineEnd_of_le m _ le_rfl, true_or, if_true]

lemma parseCsvLine_behind (hpos : 0 < last)
    (hend : isLineEnd (m (last - 1)) = true) :
    parseCsvLine m (last + 1) (2 ^ 64 - 1) nColumns = (m, []) := by
  cases nColumns with
  | zero => rfl
  | succ n =>
    have htokend : min (addW 64 (last + 1) (2 ^ 64 - 1 - 1))
        (strnchrnul m (last + 1) (2 ^ 64 - 1) comma) = last - 1 := by
      have hle := le_strnchrnul m (last + 1) (2 ^ 64 - 1) comma
      have hwrap : addW 64 (last + 1) (2 ^ 64 - 1 - 1) = last - 1 := by
        unfold addW
        omega
      rw [hwrap]
      omega
    have hcomma : m (last - 1) ≠ comma := by
      intro heq
      rw [heq] at hend
      exact absurd hend (by decide)
    have htoken : strntoken m (last + 1) (2 ^ 64 - 1) comma true 0 = ⟨false, m, 0⟩ := by
      unfold strntoken
      rw [if_neg (by norm_num)]
      simp only [htokend]
      rw [if_neg hcomma]
      rfl
    rw [parseCsvLine, parseCsvLineFrom, htoken]
    rfl

/-- Over line ends up to the last byte, which is one too, a round runs out of the buffer: `max`
wraps, and a row of no columns is added. -/
theorem csvRound_wraps {k : ℕ} (hk : line + k = last) (hpos : 0 < k)
    (hends : ∀ j < k, isLineEnd (m (line + j)) = true) (hb : isLineEnd (m last) = true) :
    csvRound alloc nColumns last ⟨m, line, rows⟩ = (do
      reject (alloc rows.length = false) .outOfResources
      .ok (false, ⟨m.store last 1 0, last + 1, rows ++ [[]]⟩)) := by
  have hall : ∀ j < k + 1, (!isLineEnd (m (line + j))) = false := by
    intro j hj
    rcases Nat.eq_or_lt_of_le (Nat.le_of_lt_succ hj) with rfl | hlt
    · rw [hk, hb]
      rfl
    · rw [hends j hlt]
      rfl
  have hskip : m.scan (fun b => !isLineEnd b) line (last - line + 1) = k + 1 :=
    scan_unique (by omega) hall (.inl (by omega))
  have hline : line + (k + 1) = last + 1 := by omega
  have hroom : room last (last + 1) = 2 ^ 64 - 1 := by
    unfold room subW addW
    rw [if_neg (by omega)]
    omega
  have heof : (m last == 0) = false := by
    rw [beq_eq_false_iff_ne]
    intro heq
    rw [heq] at hb
    exact absurd hb (by decide)
  have hprev : isLineEnd ((m.store last 1 0) (last - 1)) = true := by
    have hbyte := hends (k - 1) (by omega)
    rw [store_one_of_ne (by omega)]
    rwa [show line + (k - 1) = last - 1 by omega] at hbyte
  simp only [csvRound, room_of_lt hlast (show line < last by omega), hskip, hline,
    lineEnd_of_le _ _ (Nat.le_succ last), hroom, heof,
    parseCsvLine_behind hlast (by omega : 0 < last) hprev]
  rw [if_neg (by omega)]
  rfl

lemma csvLoop_open_blank (alloc : ℕ → Bool) (nColumns : ℕ) (rows : List (List ℕ))
    (h : (m.store last 1 0).StrAt line text)
    (hlen : line + text.length = last) (hfuel : last < line + fuel)
    (hblank : ∀ b ∈ text, isLineEnd b = true) :
    LoopRows alloc nColumns last fuel ⟨m, line, rows⟩ (openRow text (m last)) := by
  have hends : ∀ j < text.length, isLineEnd (m (line + j)) = true := by
    intro j hj
    have hbyte := h.byte hj
    rw [store_one_of_ne (by omega)] at hbyte
    rw [hbyte]
    exact hblank _ (getElem_mem hj)
  have hout : last < last + 1 ∨ (m.store last 1 0) (last + 1) = 0 := .inl (Nat.lt_succ_self _)
  have hframe : ∀ i < line, m.store last 1 0 i = m i := fun i hi => store_one_of_ne (by omega)
  by_cases hzero : m line = 0
  · -- a line end is no `NUL`, so this is the last byte
    obtain rfl : text = [] := by
      by_contra hne
      exact text_ne_nul h hne hlen hzero
    exact loopRows_nil (.inr hzero)
  rw [openRow]
  by_cases hwrap : endsBlank text = true ∧ isLineEnd (m last) = true
  · have hpos : 0 < text.length := by
      rw [length_pos_iff]
      rintro rfl
      simp [endsBlank] at hwrap
    rw [if_pos hwrap]
    refine ⟨m.store last 1 0, [[]], last + 1, ?_, hframe, ?_⟩
    · exact List.Forall₂.cons List.Forall₂.nil List.Forall₂.nil
    · rw [csvLoop_of_ne_nul hzero (by omega) hfuel, csvRound_wraps hlast hlen hpos hends hwrap.2]
      simp [allocRows, bind_assoc, csvLoop_of_nul hout]
  · rw [if_neg hwrap]
    have hb : text.length = 0 ∨ isLineEnd (m last) = false := by
      rcases Nat.eq_zero_or_pos text.length with hnil | hpos
      · exact .inl hnil
      · right
        rw [← Bool.not_eq_true]
        exact fun hend => hwrap ⟨endsBlank_of_lineEnds (length_pos_iff.mp hpos) hblank, hend⟩
    refine ⟨m.store last 1 0, [], last + 1, List.Forall₂.nil, hframe, ?_⟩
    rw [csvLoop_of_ne_nul hzero (by omega) hfuel, csvRound_end hlast hlen hends hb]
    simp [allocRows, csvLoop_of_nul hout]

lemma csvLoop_open (h : (m.store last 1 0).StrAt line text) (hlen : line + text.length = last)
    (hfuel : last < line + fuel) :
    LoopRows alloc nColumns last fuel ⟨m, line, rows⟩
      ((csvLines text).map (csvRow nColumns) ++ openRow text (m last)) := by
  unfold openRow
  rw [ite_and]
  refine csvLoop_lines hlast le_rfl (.inl rfl) ?_ h hlen hfuel
  intro m' line' fuel' e rows' hsame he hends hlen' hfuel'
  have hblank := csvLoop_open_blank hlast alloc nColumns rows' he hlen' hfuel' hends
  rwa [openRow, ite_and, hsame last le_rfl] at hblank

end

/-- The rows of a text with the byte `b` behind it. A text of one or two bytes may be the start of a
byte order mark that `b` completes; then it has no row. -/
def openRows (nColumns : ℕ) (text : List UInt8) (b : UInt8) : List (List (List UInt8)) :=
  if text.length < 3 ∧ text ++ [b] = utf8Bom.take (text.length + 1) then []
  else (csvLines (dropBom text)).map (csvRow nColumns) ++ openRow (dropBom text) b

lemma slice_open (h : (m.store last 1 0).StrAt 0 text) (hlen : text.length = last) :
    m.slice 0 (last + 1) = text ++ [m last] := by
  have hbytes := h.bytes
  rw [hlen, slice_store_of_disjoint _ _ (by omega)] at hbytes
  rw [slice_add, hbytes, Nat.zero_add]
  rfl

lemma csvStart_open (hlast : last + 1 < 2 ^ 64) (hlong : 3 ≤ last) :
    csvStart m last = csvStart (m.store last 1 0) last := by
  unfold csvStart isUtf8Bom
  rw [room_of_lt hlast (by omega), Nat.min_eq_left (by omega),
    slice_store_of_disjoint _ _ (by omega)]

lemma csvRows_eq_openRows (alloc : ℕ → Bool) (hlast : last + 1 < 2 ^ 64) (hpos : 0 < last)
    (hn : nColumns ≠ 0) (h : (m.store last 1 0).StrAt 0 text) (hlen : text.length = last) :
    csvRows alloc m last nColumns = (do
      allocRows alloc 0 (openRows nColumns text (m last)).length
      .ok (openRows nColumns text (m last))) := by
  suffices hrows : LoopRows alloc nColumns last (last + 1) ⟨m, csvStart m last, []⟩
      (openRows nColumns text (m last)) by
    obtain ⟨m', cols, line', hfound, _, hloop⟩ := hrows
    have hmap := hfound.map_cstr (by omega)
    unfold csvRows parseCsvData
    rw [reject_of_not (by omega), ok_bind, hloop]
    simp only [bind_assoc, ok_bind, nil_append, length_nil, hmap]
  unfold openRows
  rcases Nat.lt_or_ge last 3 with hshort | hlong
  · have hbom : isUtf8Bom m (room last 0) =
        decide (text ++ [m last] = utf8Bom.take (text.length + 1)) := by
      rw [room_of_lt hlast hpos, isUtf8Bom, Nat.sub_zero, Nat.min_eq_right (by omega),
        slice_open h hlen, hlen]
      exact Bool.eq_iff_iff.mpr (by simp)
    by_cases heq : text ++ [m last] = utf8Bom.take (text.length + 1)
    · have hstart : csvStart m last = 3 := by rw [csvStart, hbom, decide_eq_true heq, if_pos rfl]
      rw [if_pos ⟨by omega, heq⟩, hstart]
      exact loopRows_nil (.inl hshort)
    have hstart : csvStart m last = 0 := by
      rw [csvStart, hbom, decide_eq_false heq, if_neg Bool.false_ne_true]
    have hdrop : dropBom text = text := by
      rw [dropBom, if_neg]
      intro htake
      have hlen' := congrArg List.length htake
      rw [length_take] at hlen'
      change min 3 text.length = 3 at hlen'
      omega
    rw [if_neg fun hc => heq hc.2, hstart, hdrop]
    exact csvLoop_open hlast h (by omega) (by omega)
  · rw [if_neg (by omega), csvStart_open hlast hlong]
    obtain ⟨hstr, hsum⟩ := csvStart_text hlast hpos h hlen.le
    exact csvLoop_open hlast hstr (by omega) (by omega)

end Shim.Sbat
