import Mathlib.Data.List.Basic

/-!
# The lines of `boot.csv`

`try_boot_csv` puts a `NUL` at the end of each line of the file, has `populate_stanza` register the
entry of the line, and takes the `NUL` away again. `populate_stanza` looks for three fields, and puts a
`NUL` at the end of each. The buffer is the list of its characters from `start` on.
-/

namespace Shim.Fallback

open List Option

def isComma (c : UInt16) : Bool := c == 0x2c

def isEol (c : UInt16) : Bool := c == 0xd || c == 0xa

/-- `StrCSpn`: what is in front of the first rejected character or `NUL`, this character, and what
is behind. Without one the search leaves the buffer. -/
def strCSpn (reject : UInt16 → Bool) : List UInt16 → Option (List UInt16 × UInt16 × List UInt16)
  | [] => none
  | c :: s =>
    if c = 0 ∨ reject c = true then some ([], c, s)
    else (strCSpn reject s).map fun r => (c :: r.1, r.2)

structure CsvEntry where
  file : List UInt16
  label : List UInt16
  arguments : List UInt16
  deriving DecidableEq

structure Stanza where
  entry : Option CsvEntry
  csv : List UInt16
  reach : ℕ
  deriving DecidableEq

def populateStanza (csv : List UInt16) : Option Stanza := do
  let (file, _, csv₁) ← strCSpn isComma csv
  if file = [] then return ⟨none, csv, 1⟩
  let (label, _, csv₂) ← strCSpn isComma csv₁
  if label = [] then return ⟨none, file ++ 0 :: csv₁, file.length + 2⟩
  let (arguments, _, csv₃) ← strCSpn isComma csv₂
  return ⟨some ⟨file, label, arguments⟩, file ++ 0 :: (label ++ 0 :: (arguments ++ 0 :: csv₃)),
    file.length + label.length + arguments.length + 3⟩

structure CsvRound where
  length : ℕ
  reach : ℕ
  entry : Option CsvEntry
  deriving DecidableEq

def csvRounds : ℕ → List UInt16 → Option (List CsvRound)
  | 0, _ => none
  | fuel + 1, start => do
    let (line, c, rest) ← strCSpn isEol (start.dropWhile isEol)
    if line = [] then return []
    let st ← populateStanza (line ++ 0 :: rest)
    (csvRounds fuel (c :: st.csv.drop (line.length + 1))).map
      (⟨line.length, st.reach, st.entry⟩ :: ·)

def dropBom (s : List UInt16) : List UInt16 := if s.head? = some 0xfeff then s.tail else s

def tryBootCsv (buffer : List UInt16) : Option (List CsvRound) :=
  csvRounds (buffer.length + 1) (dropBom buffer)

def textLines (text : List UInt16) : List (List UInt16) := (text.splitOnP isEol).filter (· ≠ [])

def lineEntry (line : List UInt16) : Option CsvEntry :=
  match line.splitOnP isComma with
  | file :: label :: arguments :: _ =>
    if file = [] ∨ label = [] then none else some ⟨file, label, arguments⟩
  | _ => none

def LineOk (line : List UInt16) : Prop :=
  match line.splitOnP isComma with
  | [_] => False
  | [file, label] => file = [] ∨ label = []
  | _ => True

/-- What is registered is the entries of the lines, and nothing behind the end of a line is read or
written for it. -/
def Linewise (rounds : Option (List CsvRound)) (lines : List (List UInt16)) : Prop :=
  ∃ rs, rounds = some rs ∧ (∀ r ∈ rs, r.reach ≤ r.length + 1) ∧
    rs.filterMap CsvRound.entry = lines.filterMap lineEntry

variable {line rest : List UInt16} {c : UInt16}

lemma strCSpn_piece (reject : UInt16 → Bool) {text : List UInt16} (hnul : 0 ∉ text)
    (rest : List UInt16) :
    (text.splitOnP reject = [text] ∧ strCSpn reject (text ++ 0 :: rest) = some (text, 0, rest)) ∨
      ∃ piece c tail, text = piece ++ c :: tail ∧ reject c = true ∧
        text.splitOnP reject = piece :: tail.splitOnP reject ∧
        strCSpn reject (text ++ 0 :: rest) = some (piece, c, tail ++ 0 :: rest) := by
  induction text with
  | nil => exact .inl ⟨rfl, by simp [strCSpn]⟩
  | cons x text ih =>
    have hx : x ≠ 0 := (ne_of_not_mem_cons hnul).symm
    have hnul := not_mem_of_not_mem_cons hnul
    by_cases hreject : reject x = true
    · exact .inr ⟨[], x, text, rfl, hreject, by simp [splitOnP_cons_eq_if_modifyHead, hreject],
        by simp [strCSpn, hreject]⟩
    rcases ih hnul with ⟨hsplit, hspan⟩ | ⟨piece, c, tail, rfl, hc, hsplit, hspan⟩
    · left
      simp [splitOnP_cons_eq_if_modifyHead, strCSpn, hreject, hsplit, hspan, hx]
    · refine .inr ⟨x :: piece, c, tail, rfl, hc, ?_, ?_⟩
      · simp [splitOnP_cons_eq_if_modifyHead, hreject, hsplit]
      · rw [cons_append, strCSpn, hspan]
        simp [hreject, hx]

lemma populateStanza_file {csv file csv₁ : List UInt16}
    (hfile : strCSpn isComma csv = some (file, c, csv₁)) (hne : file ≠ []) :
    populateStanza csv = (strCSpn isComma csv₁).bind fun r =>
      if r.1 = [] then some ⟨none, file ++ 0 :: csv₁, file.length + 2⟩
      else (strCSpn isComma r.2.2).map fun r' => ⟨some ⟨file, r.1, r'.1⟩,
        file ++ 0 :: (r.1 ++ 0 :: (r'.1 ++ 0 :: r'.2.2)), file.length + r.1.length + r'.1.length + 3⟩ := by
  unfold populateStanza
  rw [hfile]
  simp [hne, map_eq_bind, Function.comp_def]

lemma populateStanza_of_lineOk (hnul : 0 ∉ line) (hok : LineOk line) (rest : List UInt16) :
    ∃ st line', populateStanza (line ++ 0 :: rest) = some st ∧ st.csv = line' ++ 0 :: rest ∧
      line'.length = line.length ∧ st.reach ≤ line.length + 1 ∧ st.entry = lineEntry line := by
  unfold LineOk at hok
  unfold lineEntry
  rcases strCSpn_piece isComma hnul rest with ⟨hsplit, -⟩ | ⟨file, c, tail, rfl, -, hsplit, hfile⟩
  · rw [hsplit] at hok
    exact hok.elim
  rw [hsplit] at hok ⊢
  by_cases hempty : file = []
  · subst hempty
    refine ⟨⟨none, c :: (tail ++ 0 :: rest), 1⟩, c :: tail, ?_, rfl, rfl, by simp, ?_⟩
    · rw [populateStanza, hfile]
      rfl
    · rcases tail.splitOnP isComma with _ | ⟨label, _ | ⟨args, l⟩⟩ <;> simp
  rw [populateStanza_file hfile hempty]
  have hnul' : 0 ∉ tail := fun hx => hnul (by simp [hx])
  rcases strCSpn_piece isComma hnul' rest with
    ⟨hsplit', htail⟩ | ⟨label, c', more, rfl, -, hsplit', htail⟩
  · rw [hsplit'] at hok ⊢
    obtain rfl := hok.resolve_left hempty
    rw [htail]
    exact ⟨_, file ++ [0], rfl, by simp, by simp, by simp, rfl⟩
  rw [hsplit', htail]
  have hnul'' : 0 ∉ more := fun hx => hnul' (by simp [hx])
  by_cases hlabel : label = []
  · subst hlabel
    refine ⟨_, file ++ 0 :: c' :: more, rfl, by simp, by simp, by simp, ?_⟩
    rcases more.splitOnP isComma with _ | ⟨args, l⟩ <;> simp
  simp only [bind_some, if_neg hlabel]
  rcases strCSpn_piece isComma hnul'' rest with
    ⟨hsplit'', hmore⟩ | ⟨args, _, tail, rfl, -, hsplit'', hmore⟩
  · rw [hmore, hsplit'']
    refine ⟨_, file ++ 0 :: (label ++ 0 :: more), rfl, by simp, by simp, ?_, by simp [hempty, hlabel]⟩
    simp only [length_append, length_cons]
    omega
  · rw [hmore, hsplit'']
    refine ⟨_, file ++ 0 :: (label ++ 0 :: (args ++ 0 :: tail)), rfl, by simp, by simp, ?_,
      by simp [hempty, hlabel]⟩
    simp only [length_append, length_cons]
    omega

lemma populateStanza_of_not_lineOk {st : Stanza} (hnul : 0 ∉ line) (hne : line ≠ [])
    (hok : ¬ LineOk line) (h : populateStanza (line ++ 0 :: rest) = some st) :
    line.length + 1 < st.reach := by
  unfold LineOk at hok
  rcases strCSpn_piece isComma hnul rest with ⟨-, hfile⟩ | ⟨file, c, tail, rfl, -, hsplit, hfile⟩
  · rw [populateStanza_file hfile hne] at h
    obtain ⟨r, -, h⟩ := bind_eq_some_iff.mp h
    split at h
    · cases h
      simp
    · obtain ⟨r', -, rfl⟩ := map_eq_some_iff.mp h
      simp
      omega
  · rw [hsplit] at hok
    have hnul' : 0 ∉ tail := fun hx => hnul (by simp [hx])
    rcases strCSpn_piece isComma hnul' rest with ⟨hsplit', htail⟩ | ⟨label, _, more, rfl, -, hsplit', -⟩
    · rw [hsplit'] at hok
      obtain ⟨hempty, hlabel⟩ := not_or.mp hok
      rw [populateStanza_file hfile hempty, htail] at h
      simp only [bind_some, if_neg hlabel] at h
      obtain ⟨r', -, rfl⟩ := map_eq_some_iff.mp h
      simp
      omega
    · rw [hsplit'] at hok
      refine absurd ?_ hok
      rcases hmore : more.splitOnP isComma with _ | ⟨args, l⟩
      · exact absurd hmore (splitOnP_ne_nil _ _)
      · simp

lemma textLines_cons (hc : isEol c = true) (text : List UInt16) :
    textLines (c :: text) = textLines text := by
  rw [textLines, ← nil_append (c :: text), splitOnP_append_cons_of_forall_mem (by simp) c hc]
  simp [textLines]

lemma textLines_dropWhile (text : List UInt16) :
    textLines (text.dropWhile isEol) = textLines text := by
  induction text with
  | nil => rfl
  | cons c text ih =>
    by_cases hc : isEol c = true
    · rw [dropWhile_cons_of_pos hc, ih, textLines_cons hc]
    · rw [dropWhile_cons_of_neg hc]

lemma exists_firstLine {text : List UInt16} (hnul : 0 ∉ text) (hne : text ≠ [])
    (hhead : ∀ c ∈ text.head?, isEol c = false) (rest : List UInt16) :
    ∃ line tail c post, text = line ++ tail ∧ line ≠ [] ∧ textLines text = line :: textLines tail ∧
      strCSpn isEol (text ++ 0 :: rest) = some (line, c, post) ∧ tail ++ 0 :: rest = c :: post := by
  rcases strCSpn_piece isEol hnul rest with ⟨hsplit, hspan⟩ | ⟨line, c, tail, rfl, hc, hsplit, hspan⟩
  · refine ⟨text, [], 0, rest, by simp, hne, ?_, hspan, rfl⟩
    simp [textLines, hsplit, hne]
  have hline : line ≠ [] := by
    rintro rfl
    simp [hhead c rfl] at hc
  refine ⟨line, c :: tail, c, _, rfl, hline, ?_, hspan, rfl⟩
  rw [textLines_cons hc, textLines, hsplit]
  simp [textLines, hline]

lemma linewise_cons {r : CsvRound} {rounds : Option (List CsvRound)} {lines : List (List UInt16)}
    (hreach : r.reach ≤ r.length + 1) (hentry : r.entry = lineEntry line) :
    Linewise (rounds.map (r :: ·)) (line :: lines) ↔ Linewise rounds lines := by
  have hcons : ∀ rs : List CsvRound, (r :: rs).filterMap CsvRound.entry =
      (line :: lines).filterMap lineEntry ↔
        rs.filterMap CsvRound.entry = lines.filterMap lineEntry := by
    intro rs
    cases hline : lineEntry line <;> simp [hentry, hline]
  constructor
  · rintro ⟨rs, hrs, hall, heq⟩
    obtain ⟨rs, rfl, rfl⟩ := map_eq_some_iff.mp hrs
    exact ⟨rs, rfl, fun r' hr' => hall r' (mem_cons_of_mem _ hr'), (hcons rs).mp heq⟩
  · rintro ⟨rs, rfl, hall, heq⟩
    exact ⟨r :: rs, rfl, forall_mem_cons.mpr ⟨hreach, hall⟩, (hcons rs).mpr heq⟩

lemma csvRounds_linewise (fuel : ℕ) (text : List UInt16) (hfuel : text.length < fuel)
    (hnul : 0 ∉ text) :
    Linewise (csvRounds fuel (text ++ 0 :: rest)) (textLines text) ↔
      ∀ line ∈ textLines text, LineOk line := by
  induction fuel generalizing text with
  | zero => omega
  | succ fuel ih =>
    have hdrop : (text ++ 0 :: rest).dropWhile isEol = text.dropWhile isEol ++ 0 :: rest := by
      rw [dropWhile_append]
      split <;> simp_all [isEol]
    have hhead : ∀ c ∈ (text.dropWhile isEol).head?, isEol c = false := by
      intro c hc
      have := List.head?_dropWhile_not isEol text
      rw [hc] at this
      exact this
    have hnul' : 0 ∉ text.dropWhile isEol := fun h => hnul (dropWhile_subset _ h)
    have hlen : (text.dropWhile isEol).length ≤ text.length := (dropWhile_suffix _).length_le
    rw [csvRounds, hdrop, ← textLines_dropWhile]
    generalize text.dropWhile isEol = text' at *
    by_cases hne : text' = []
    · subst hne
      simp [strCSpn, Linewise, textLines]
    obtain ⟨line, tail, c, post, rfl, hline, hlines, hspan, hpost⟩ :=
      exists_firstLine hnul' hne hhead rest
    have hline' : 0 ∉ line := fun h => hnul' (mem_append_left _ h)
    rw [hspan, hlines, forall_mem_cons]
    simp only [bind_eq_bind, bind_some, if_neg hline]
    by_cases hok : LineOk line
    · obtain ⟨st, line', hst, hcsv, hlen', hreach, hentry⟩ :=
        populateStanza_of_lineOk hline' hok post
      have hpos := length_pos_iff.mpr hline
      rw [length_append] at hlen
      have htail := ih tail (by omega) fun h => hnul' (mem_append_right _ h)
      have hnext : st.csv.drop (line.length + 1) = post := by
        rw [hcsv, ← hlen']
        simp
      rw [hst, bind_some, hnext, ← hpost, linewise_cons hreach hentry, htail]
      exact (and_iff_right hok).symm
    · refine iff_of_false ?_ fun h => hok h.1
      rintro ⟨rs, hrs, hall, -⟩
      obtain ⟨st, hst, hrs⟩ := bind_eq_some_iff.mp hrs
      obtain ⟨rounds, -, rfl⟩ := map_eq_some_iff.mp hrs
      have hreach := hall _ mem_cons_self
      have := populateStanza_of_not_lineOk hline' hline hok hst
      simp only at hreach
      omega

/-- For every text, and whatever is behind its `NUL` in the buffer: what is registered is the entries
of the lines, and for no line anything behind its end is read or written, iff all lines are all
right. -/
theorem tryBootCsv_linewise_iff (text : { s : List UInt16 // 0 ∉ s }) (rest : List UInt16) :
    Linewise (tryBootCsv (text.1 ++ 0 :: rest)) (textLines (dropBom text.1)) ↔
      ∀ line ∈ textLines (dropBom text.1), LineOk line := by
  obtain ⟨text, hnul⟩ := text
  have hbom : dropBom (text ++ 0 :: rest) = dropBom text ++ 0 :: rest := by
    cases text with
    | nil => rfl
    | cons c text => by_cases hc : c = 0xfeff <;> simp [dropBom, hc]
  have hsuffix : dropBom text <:+ text := by
    unfold dropBom
    split
    · exact tail_suffix text
    · exact suffix_rfl
  have hlen := hsuffix.length_le
  show Linewise (csvRounds ((text ++ 0 :: rest).length + 1) _) _ ↔ _
  rw [hbom]
  refine csvRounds_linewise _ _ ?_ fun h => hnul (hsuffix.subset h)
  rw [length_append]
  omega

/-- Three lines, `a`, `b,c,` and `d,e,`: the first two get what they lack from the next one, and the
last is lost. -/
theorem tryBootCsv_takes_next_line :
    (tryBootCsv [0x61, 0xa, 0x62, 0x2c, 0x63, 0x2c, 0xa, 0x64, 0x2c, 0x65, 0x2c, 0]).map
        (·.filterMap CsvRound.entry) =
          some [⟨[0x61], [0x62], [0x63]⟩, ⟨[0x62], [0x63], [0xa, 0x64]⟩] ∧
      (textLines [0x61, 0xa, 0x62, 0x2c, 0x63, 0x2c, 0xa, 0x64, 0x2c, 0x65, 0x2c]).filterMap lineEntry =
        [⟨[0x62], [0x63], []⟩, ⟨[0x64], [0x65], []⟩] := by
  decide

end Shim.Fallback
