import Shim.GeneratePath

/-!
# Is this path our own?

A shell puts the path of shim in front of its arguments. `parse_load_options` skips a first argument
that names the running image, which `is_our_path` decides: it generates the path of the argument and
compares it with the text of shim's device path, over the length of that text.
-/

namespace Shim.LoadOptions

open Lib List

def isOurPath (pool : Option (ℕ → UInt16)) (dppath : Option (List UInt16))
    (bootpath path : List UInt16) : Except OutOfRange Bool :=
  match dppath with
  | none => return false
  | some dppath => do
    match ← generatePathFromImagePath pool bootpath path with
    | .error _ => return true
    | .ok pathName =>
      let cmp ← strnCaseCmp (← strLen dppath) dppath pathName
      return cmp = 0

def SameText (s t : List UInt16) : Prop := s.map upper = t.map upper

instance (s t : List UInt16) : Decidable (SameText s t) := inferInstanceAs (Decidable (_ = _))

def NamesUs (dev path : List UInt16) : Prop := SameText (generatedPath dev path) dev

instance (dev path : List UInt16) : Decidable (NamesUs dev path) :=
  inferInstanceAs (Decidable (SameText _ _))

/-- The front of a path names the image, and characters follow: of a full path any of them, of
another one those of its file name. -/
def GoesOn (dev path : List UInt16) : Prop :=
  if efiDirectory <+: path then
    ∃ name extra, path = name ++ extra ∧ extra ≠ [] ∧ SameText name dev
  else
    ∃ name extra, filePart path = name ++ extra ∧ extra ≠ [] ∧
      SameText (squeeze (dirPart (dev.map toBackslash)) ++ name) dev

def Extends (t s : List UInt16) : Prop :=
  ∃ name extra, t = name ++ extra ∧ extra ≠ [] ∧ SameText name s

lemma SameText.length_eq {s t : List UInt16} (h : SameText s t) : s.length = t.length := by
  have hlen := congrArg List.length h
  rwa [length_map, length_map] at hlen

lemma Extends.not_sameText {s t : List UInt16} (h : Extends t s) : ¬ SameText t s := by
  obtain ⟨name, extra, rfl, hne, hname⟩ := h
  intro hsame
  have hlen := hsame.length_eq
  have hlen' := hname.length_eq
  have hpos := length_pos_iff.mpr hne
  rw [length_append] at hlen
  omega

lemma map_upper_prefix_iff {s t : List UInt16} :
    s.map upper <+: t.map upper ↔ SameText t s ∨ Extends t s := by
  constructor
  · rintro ⟨rest, hrest⟩
    obtain ⟨name, extra, rfl, hname, -⟩ := map_eq_append_iff.mp hrest.symm
    by_cases hnil : extra = []
    · left
      rw [hnil, append_nil]
      exact hname
    · exact .inr ⟨name, extra, rfl, hnil, hname⟩
  · rintro (hsame | ⟨name, extra, rfl, -, hname⟩)
    · rw [← hsame]
    · rw [map_append, hname]
      exact prefix_append _ _

lemma length_squeeze_dirPart_le (dev : List UInt16) :
    (squeeze (dirPart (dev.map toBackslash))).length ≤ dev.length := by
  have hsqueeze := (destutter_sublist (fun a b => ¬ (a = backslash ∧ b = backslash))
    (dirPart (dev.map toBackslash))).length_le
  have hdir := (List.rdropWhile_prefix (· ≠ backslash) (dev.map toBackslash)).length_le
  rw [length_map] at hdir
  exact hsqueeze.trans hdir

/-- The directory in a generated path is not longer than the text of the device path, so a path that
goes on does so in its file name. -/
theorem goesOn_iff (dev path : List UInt16) :
    GoesOn dev path ↔ Extends (generatedPath dev path) dev := by
  unfold GoesOn generatedPath
  by_cases hefi : efiDirectory <+: path
  · rw [if_pos hefi, if_pos hefi]
    rfl
  rw [if_neg hefi, if_neg hefi]
  have hle := length_squeeze_dirPart_le dev
  generalize squeeze (dirPart (dev.map toBackslash)) = d at hle
  constructor
  · rintro ⟨name, extra, hfile, hne, hsame⟩
    refine ⟨d ++ name, extra, ?_, hne, hsame⟩
    rw [hfile, append_assoc]
  · rintro ⟨front, extra, happ, hne, hsame⟩
    have hlen := hsame.length_eq
    rcases append_eq_append_iff.mp happ with ⟨name, rfl, hfile⟩ | ⟨rest, hd, hextra⟩
    · exact ⟨name, extra, hfile, hne, hsame⟩
    -- the front ends with the directory
    have hrest : rest = [] := by
      rw [hd, length_append] at hle
      exact length_eq_zero_iff.mp (by omega)
    subst hrest
    rw [append_nil] at hd
    rw [nil_append] at hextra
    refine ⟨[], extra, hextra.symm, hne, ?_⟩
    rw [append_nil, hd]
    exact hsame

lemma isOurPath_none (dev path : Text) :
    isOurPath none (some dev.buffer) dev.buffer path.buffer = .ok true := by
  unfold isOurPath
  dsimp only
  rw [generatePathFromImagePath_none, ok_bind]
  rfl

lemma isOurPath_some (content : ℕ → UInt16) (dev path : Text) :
    ∃ b, isOurPath (some content) (some dev.buffer) dev.buffer path.buffer = .ok b ∧
      (b = true ↔ NamesUs dev.chars path.chars ∨ GoesOn dev.chars path.chars) := by
  obtain ⟨spare, hgenerate⟩ := generatePathFromImagePath_some dev path content
  obtain ⟨z, hz, hiff⟩ := strnCaseCmp_eq_zero_iff dev.noNul (nul_not_mem_generatedPath dev path)
    [] spare
  refine ⟨decide (z = 0), ?_, ?_⟩
  · unfold isOurPath
    dsimp only
    rw [hgenerate, ok_bind]
    unfold Text.buffer
    dsimp only
    rw [strLen_of_text dev.noNul, ok_bind, hz]
    rfl
  · rw [decide_eq_true_iff, hiff, map_upper_prefix_iff, goesOn_iff]
    rfl

/-- The function tells whether a path names the running image iff the path does not name it with more
characters behind, and there is memory for the generated path or the path names the image. -/
theorem isOurPath_names_iff (pool : Option (ℕ → UInt16)) (dev path : Text) :
    ∃ b, isOurPath pool (some dev.buffer) dev.buffer path.buffer = .ok b ∧
      ((b = true ↔ NamesUs dev.chars path.chars) ↔
        ¬ GoesOn dev.chars path.chars ∧ (pool = none → NamesUs dev.chars path.chars)) := by
  have hnot : GoesOn dev.chars path.chars → ¬ NamesUs dev.chars path.chars := fun h =>
    ((goesOn_iff _ _).mp h).not_sameText
  cases pool with
  | none =>
    refine ⟨true, isOurPath_none dev path, ?_⟩
    constructor
    · intro h
      have hnames := h.mp rfl
      exact ⟨fun hon => hnot hon hnames, fun _ => hnames⟩
    · rintro ⟨-, hnames⟩
      exact iff_of_true rfl (hnames rfl)
  | some content =>
    obtain ⟨b, hb, hiff⟩ := isOurPath_some content dev path
    refine ⟨b, hb, ?_⟩
    rw [hiff]
    constructor
    · intro h
      exact ⟨fun hon => hnot hon (h.mp (.inr hon)), fun hnone => by cases hnone⟩
    · rintro ⟨hon, -⟩
      exact or_iff_left hon

def wideText (s : String) : List UInt16 := s.toList.map fun c => UInt16.ofNat c.toNat

/-- `BOOTX64.EFI.OLD` is taken for `BOOTX64.EFI`. -/
theorem isOurPath_takes_longer_name :
    let dev := wideText "\\EFI\\BOOT\\BOOTX64.EFI"
    let path := wideText "BOOTX64.EFI.OLD"
    isOurPath (some fun _ => 0) (some (dev ++ [0])) (dev ++ [0]) (path ++ [0]) = .ok true ∧
      ¬ NamesUs dev path := by
  decide +kernel

end Shim.LoadOptions
