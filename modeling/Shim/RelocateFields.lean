import Shim.Lib.Fields
import Shim.Relocated

/-!
# Relocation as arithmetic on fields

`relocate_coff` adds the distance between where the image is and where it was linked for to each field
that the table lists. For a table in order (`TableOk`) this module says what an image is afterwards,
and that moving it twice is moving it once. The code compares the place of the table, in the file,
with the size of the image; so that decides whether the table is seen at all (`TableSeen`).
-/

namespace Shim

open Lib Pe List

namespace Pe

inductive FixupType where
  | high
  | low
  | highLow
  | dir64
  deriving DecidableEq

def FixupType.width : FixupType → ℕ
  | .high => 2
  | .low => 2
  | .highLow => 4
  | .dir64 => 8

/-- What is added to the field: the distance, its low half, or the upper half of its low 32 bits. -/
def FixupType.addend (adjust : ℕ) : FixupType → ℕ
  | .high => adjust / 2 ^ 16 % 2 ^ 16
  | .low => adjust % 2 ^ 16
  | .highLow => adjust
  | .dir64 => adjust

structure Field where
  type : FixupType
  offset : ℕ
  deriving DecidableEq

def Field.width (x : Field) : ℕ := x.type.width

def Field.moved (adjust : ℕ) (x : Field) (v : ℕ) : ℕ := v + x.type.addend adjust

def fieldOf (va word : ℕ) : Option (Option Field) :=
  match word / 4096 with
  | 0 => some none
  | 1 => some (some ⟨.high, va + word % 4096⟩)
  | 2 => some (some ⟨.low, va + word % 4096⟩)
  | 3 => some (some ⟨.highLow, va + word % 4096⟩)
  | 10 => some (some ⟨.dir64, va + word % 4096⟩)
  | _ => none

def Field.fixup (adjust : ℕ) (x : Field) : Fixup :=
  ⟨x.offset, x.width, match x.type with
    | .high => adjust % 2 ^ 32 / 2 ^ 16
    | .low => adjust % 2 ^ 16
    | .highLow => adjust % 2 ^ 32
    | .dir64 => adjust⟩

lemma relocEntry_eq_fieldOf (adjust va word : ℕ) :
    relocEntry adjust va word = (fieldOf va word).map (Option.map (Field.fixup adjust)) := by
  unfold relocEntry fieldOf
  generalize word / 4096 = type
  match type with
  | 0 | 1 | 2 | 3 | 4 | 5 | 6 | 7 | 8 | 9 | 10 | n + 11 => rfl

lemma Field.apply_fixup (adjust : ℕ) (x : Field) (m : Mem) : (x.fixup adjust).apply m =
      Mem.modify Field.offset Field.width (fun x v => x.moved adjust v % 256 ^ x.width) m x := by
  obtain ⟨type, offset⟩ := x
  have hmod : ∀ v, (v + (Field.fixup adjust ⟨type, offset⟩).amount) % 256 ^ type.width =
      (v + type.addend adjust) % 256 ^ type.width := by
    intro v
    unfold Field.fixup FixupType.addend FixupType.width
    cases type with
    | high =>
      dsimp only
      omega
    | low => rfl
    | highLow =>
      dsimp only
      omega
    | dir64 => rfl
  unfold Fixup.apply Mem.modify
  exact congrArg (m.store offset type.width) (hmod _)

/-- The blocks from `b` to `stop`: each has room for its header and for whole entries, and the next
one is right behind it. -/
def IsTable (m : Mem) (stop : ℕ) : ℕ → List ℕ → Prop
  | b, [] => b = stop
  | b, d :: blocks =>
    d = b ∧ 8 ≤ m.u32 (b + 4) ∧ 2 ∣ m.u32 (b + 4) ∧ IsTable m stop (b + m.u32 (b + 4)) blocks

instance decidableIsTable (m : Mem) (stop : ℕ) : ∀ b blocks, Decidable (IsTable m stop b blocks)
  | b, [] => inferInstanceAs (Decidable (b = stop))
  | b, _ :: blocks =>
    have := decidableIsTable m stop (b + m.u32 (b + 4)) blocks
    inferInstanceAs (Decidable (_ ∧ _ ∧ _ ∧ _))

def entriesOf (m : Mem) (b : ℕ) : ℕ := (m.u32 (b + 4) - 8) / 2

def blockEntry (m : Mem) (b k : ℕ) : Option (Option Field) :=
  fieldOf (m.u32 b) (m.u16 (b + 8 + 2 * k))

def fieldsOf (m : Mem) (blocks : List ℕ) : List Field :=
  blocks.flatMap fun b => (List.range (entriesOf m b)).filterMap fun k => (blockEntry m b k).join

/-- The table has blocks, which fill the place that the directory gives; their pages are in the
image, their types known; the fields they name are in the image, and no two overlap. -/
structure TableOk (f : File) (imageSize start dirSize : ℕ) (blocks : List ℕ) : Prop where
  table : IsTable f.mem (start + dirSize) start blocks
  nonempty : blocks ≠ []
  file : start + dirSize ≤ f.datasize
  pages : ∀ b ∈ blocks, f.mem.u32 b < imageSize
  known : ∀ b ∈ blocks, ∀ k < entriesOf f.mem b, blockEntry f.mem b k ≠ none
  fields : ∀ x ∈ fieldsOf f.mem blocks, x.offset + x.width ≤ imageSize
  disjoint : (fieldsOf f.mem blocks).Pairwise (Mem.Apart Field.offset Field.width)

/-- The table ends where `relocate_coff` takes the image to end; its `int size` is negative from 2
GiB on. -/
def TableSeen (f : File) (imageSize stop : ℕ) : Prop :=
  if imageSize < 2 ^ 31 then stop ≤ imageSize else f.addr + imageSize < 2 ^ 32

section

variable {m : Mem} {stop b d : ℕ} {blocks : List ℕ}

lemma IsTable.le (h : IsTable m stop b blocks) : b ≤ stop := by
  induction blocks generalizing b with
  | nil => exact Nat.le_of_eq h
  | cons d blocks ih =>
    obtain ⟨rfl, -, -, hrest⟩ := h
    have := ih hrest
    omega

lemma IsTable.of_mem (h : IsTable m stop b blocks) (hd : d ∈ blocks) :
    b ≤ d ∧ d + m.u32 (d + 4) ≤ stop ∧ 8 ≤ m.u32 (d + 4) ∧ 2 ∣ m.u32 (d + 4) := by
  induction blocks generalizing b with
  | nil => exact absurd hd not_mem_nil
  | cons a blocks ih =>
    obtain ⟨rfl, hheader, heven, hrest⟩ := h
    rcases mem_cons.mp hd with rfl | hd
    · exact ⟨le_rfl, hrest.le, hheader, heven⟩
    · obtain ⟨hle, hmem⟩ := ih hrest hd
      exact ⟨by omega, hmem⟩

end

/-! ## The walk -/

namespace RelocTable

variable {t : RelocTable} {stop b n : ℕ} {blocks : List ℕ} {img m : Mem}

lemma fixups_eq_fieldsOf (heven : 2 ∣ t.mem.u32 (b + 4)) (hheader : 8 ≤ t.mem.u32 (b + 4)) :
    t.fixups b (t.entryCount b) = (fieldsOf t.mem [b]).map (Field.fixup t.adjust) := by
  have hcount : t.entryCount b = entriesOf t.mem b := by
    show (t.mem.u32 (b + 4) - 8 + 1) / 2 = (t.mem.u32 (b + 4) - 8) / 2
    omega
  have hentry : ∀ k, (t.entry b k).join = (blockEntry t.mem b k).join.map (Field.fixup t.adjust) := by
    intro k
    have heq : t.entry b k = (blockEntry t.mem b k).map (Option.map (Field.fixup t.adjust)) :=
      relocEntry_eq_fieldOf _ _ _
    rw [heq]
    rcases blockEntry t.mem b k with _ | _ | x
    all_goals rfl
  unfold fixups fieldsOf
  rw [flatMap_singleton, map_filterMap, hcount]
  exact filterMap_congr fun k _ => hentry k

lemma walk_blocks (hstop : t.stop + 1 = stop) (htable : IsTable t.mem stop b blocks)
    (hok : ∀ b ∈ blocks, t.BlockOk b) (hn : t.stop - b ≤ n) :
    (t.walk n b img).Yields ((fieldsOf t.mem blocks).foldl
      (Mem.modify Field.offset Field.width fun x v => x.moved t.adjust v % 256 ^ x.width) img) := by
  induction blocks generalizing b n img with
  | nil =>
    obtain rfl : b = stop := htable
    cases n with
    | zero => exact Run.yields_pure.mpr rfl
    | succ n =>
      rw [walk, if_neg (by omega)]
      exact Run.yields_pure.mpr rfl
  | cons d blocks ih =>
    obtain ⟨rfl, hheader, heven, hrest⟩ := htable
    obtain ⟨hblock, hblocks⟩ := forall_mem_cons.mp hok
    have hle := hrest.le
    obtain ⟨n, rfl⟩ : ∃ k, n = k + 1 := ⟨n - 1, by omega⟩
    have hsize : t.sizeOfBlock d = t.mem.u32 (d + 4) := rfl
    obtain ⟨u, hu⟩ := (entries_yields img).mpr hblock.known
    have hfields : fieldsOf t.mem (d :: blocks) = fieldsOf t.mem [d] ++ fieldsOf t.mem blocks := by
      unfold fieldsOf
      rw [flatMap_cons, flatMap_singleton]
    have hmoved : u = (fieldsOf t.mem [d]).foldl (Mem.modify Field.offset Field.width
        fun x v => x.moved t.adjust v % 256 ^ x.width) img := by
      rw [entries_applied hu, fixups_eq_fieldsOf heven hheader, foldl_map]
      simp only [Field.apply_fixup]
    rw [walk, if_pos (by omega), Run.yields_bind, hfields, foldl_append, ← hmoved]
    exact ⟨(d + t.sizeOfBlock d, u),
      stepBlock_yields_iff.mpr ⟨hblock.size, hblock.page, hu, rfl⟩, ih hrest hblocks (by omega)⟩

lemma inside_of_walk (hstop : t.stop + 1 = stop) (htable : IsTable t.mem stop b blocks)
    (hne : blocks ≠ []) (hn : t.stop - b ≤ n) (h : (t.walk n b img).Yields m) :
    t.orig + stop ≤ t.imageEnd := by
  induction blocks generalizing b n img with
  | nil => exact absurd rfl hne
  | cons d blocks ih =>
    obtain ⟨rfl, hheader, heven, hrest⟩ := htable
    have hle := hrest.le
    obtain ⟨n, rfl⟩ : ∃ k, n = k + 1 := ⟨n - 1, by omega⟩
    rw [walk, if_pos (by omega), Run.yields_bind] at h
    obtain ⟨⟨b', u⟩, hstep, hwalk⟩ := h
    obtain ⟨hsize, -, -, rfl⟩ := stepBlock_yields_iff.mp hstep
    have hblock : t.sizeOfBlock d = t.mem.u32 (d + 4) := rfl
    by_cases hlast : blocks = []
    · subst hlast
      obtain rfl : d + t.mem.u32 (d + 4) = stop := hrest
      exact hsize.2.2
    · exact ih hrest hlast (by omega) hwalk

end RelocTable

lemma Field.moved_zero (x : Field) (v : ℕ) : x.moved 0 v = v := by
  obtain ⟨type, offset⟩ := x
  cases type
  all_goals rfl

/-- Distances add up in a field, unless its type keeps the upper half alone: that drops the carry
out of the lower one. -/
theorem Field.moved_moved {x : Field} (hx : x.type ≠ .high) (a d v : ℕ) :
    x.moved d (x.moved a v % 256 ^ x.width) % 256 ^ x.width =
      x.moved (addW 64 a d) v % 256 ^ x.width := by
  obtain ⟨type, offset⟩ := x
  unfold Field.moved Field.width FixupType.addend FixupType.width addW
  cases type with
  | high => exact absurd rfl hx
  | low =>
    dsimp only
    omega
  | highLow =>
    dsimp only
    omega
  | dir64 =>
    dsimp only
    omega

lemma modified_steps {fields : List Field} {a b d : ℕ} {img m₁ m₂ : Mem}
    (hlow : ∀ x ∈ fields, x.type ≠ .high)
    (h₁ : Mem.Modified Field.offset Field.width (Field.moved (subW 64 b a)) fields img m₁)
    (h₂ : Mem.Modified Field.offset Field.width (Field.moved (subW 64 d b)) fields m₁ m₂) :
    Mem.Modified Field.offset Field.width (Field.moved (subW 64 d a)) fields img m₂ := by
  refine (h₁.trans h₂).congr fun x hx v => ?_
  rw [Field.moved_moved (hlow x hx), addW_subW_subW]

/-! ## `relocate_coff` on a table in order -/

def relocate (f : File) (c : Context) (s : SectionHeader) (old new : ℕ) (img : Mem) :
    Run Access EfiStatus Mem :=
  relocateCoff f { c with imageAddress := old } s new img

abbrev movedTable (f : File) (c : Context) (s : SectionHeader) (old new : ℕ) : RelocTable :=
  RelocTable.of f { c with imageAddress := old } s new

def ImageAt (c : Context) (data : ℕ) : Prop := data ≠ 0 ∧ data + c.imageSize ≤ 2 ^ 64

section

variable {f : File} {c : Context} {s : SectionHeader} {blocks : List ℕ} {old new : ℕ} {img m : Mem}

abbrev DirectoryOk (f : File) (c : Context) (s : SectionHeader) (blocks : List ℕ) : Prop :=
  TableOk f c.imageSize s.pointerToRawData (f.dirSize c.relocDir) blocks

abbrev DirectorySeen (f : File) (c : Context) (s : SectionHeader) : Prop :=
  TableSeen f c.imageSize (s.pointerToRawData + f.dirSize c.relocDir)

lemma le_intSize {imageSize : ℕ} (h : imageSize < 2 ^ 32) : imageSize ≤ intSize imageSize := by
  unfold intSize
  split_ifs
  all_goals omega

lemma tableSeen_iff {imageSize stop : ℕ} (hsize : imageSize < 2 ^ 32) (hstop : stop < 2 ^ 32) :
    TableSeen f imageSize stop ↔
      stop ≤ intSize imageSize ∧ f.addr + stop ≤ addW 64 f.addr (intSize imageSize) := by
  have hfits := f.addr_fits
  unfold TableSeen intSize addW
  rw [Nat.mod_eq_of_lt hsize]
  by_cases hint : imageSize < 2 ^ 31
  · rw [if_pos hint, if_pos hint, Nat.mod_eq_of_lt (by omega)]
    omega
  · rw [if_neg hint, if_neg hint]
    omega

lemma TableOk.bounds {imageSize start dirSize : ℕ}
    (hok : TableOk f imageSize start dirSize blocks) : 8 ≤ dirSize ∧ start + dirSize < 2 ^ 32 := by
  obtain ⟨b, hb⟩ := exists_mem_of_ne_nil _ hok.nonempty
  obtain ⟨hlo, hhi, hheader, -⟩ := hok.table.of_mem hb
  have hfile := hok.file
  have hlt := f.datasize_lt
  exact ⟨by omega, by omega⟩

section

variable (hok : DirectoryOk f c s blocks)
include hok

lemma TableOk.stop_eq (old new : ℕ) :
    (movedTable f c s old new).stop + 1 = s.pointerToRawData + f.dirSize c.relocDir := by
  obtain ⟨hdir, hlt⟩ := hok.bounds
  have hne : f.dirSize c.relocDir ≠ 0 := by omega
  have hlast : (movedTable f c s old new).stop = s.pointerToRawData + f.dirSize c.relocDir - 1 :=
    stop_eq_last (c := { c with imageAddress := old }) hne hlt.le
  omega

lemma TableOk.null_iff (old new : ℕ) :
    (imageAddress f.addr (movedTable f c s old new).size (movedTable f c s old new).start = 0 ↔
        intSize c.imageSize ≤ s.pointerToRawData) ∧
      (imageAddress f.addr (movedTable f c s old new).size (movedTable f c s old new).stop = 0 ↔
        intSize c.imageSize < s.pointerToRawData + f.dirSize c.relocDir) := by
  obtain ⟨hdir, hlt⟩ := hok.bounds
  have hstop := hok.stop_eq old new
  constructor
  · exact imageAddress_eq_zero_iff f (.inr s.pointerToRawData_lt)
  · rw [imageAddress_eq_zero_iff f (.inr (by omega)), ← hstop, Nat.lt_succ_iff]
    rfl

lemma TableOk.blockOk (hsize : c.imageSize < 2 ^ 32)
    (hseen : DirectorySeen f c s) (hat : ImageAt c new) :
    ∀ b ∈ blocks, (movedTable f c s old new).BlockOk b := by
  obtain ⟨hdir, hlt⟩ := hok.bounds
  obtain ⟨-, hend⟩ := (tableSeen_iff hsize hlt).mp hseen
  intro b hb
  obtain ⟨hlo, hhi, hheader, heven⟩ := hok.table.of_mem hb
  refine ⟨⟨?_, ?_, ?_⟩, ?_, ?_⟩
  · show f.mem.u32 (b + 4) ≠ 0
    omega
  · show f.mem.u32 (b + 4) ≤ f.dirSize c.relocDir
    omega
  · show f.addr + (b + f.mem.u32 (b + 4)) ≤ addW 64 f.addr (intSize c.imageSize)
    omega
  · have hpage := hok.pages b hb
    have hle := le_intSize hsize
    obtain ⟨hne, hword⟩ := hat
    show imageAddress new (intSize c.imageSize) (f.mem.u32 b) ≠ 0
    rw [imageAddress_of_lt (by omega) (by omega)]
    omega
  · intro k hk
    have hcount : k < entriesOf f.mem b := by
      have hk' : k < (f.mem.u32 (b + 4) - 8 + 1) / 2 := hk
      unfold entriesOf
      omega
    have hknown := hok.known b hb k hcount
    show relocEntry _ (f.mem.u32 b) (f.mem.u16 (b + 8 + 2 * k)) ≠ none
    rw [relocEntry_eq_fieldOf]
    intro hnone
    exact hknown (Option.map_eq_none_iff.mp hnone)

lemma modified_relocated (hsize : c.imageSize < 2 ^ 32)
    (hseen : DirectorySeen f c s) (hat : ImageAt c new) :
    ∃ m, (relocate f c s old new img).Yields m ∧
      Mem.Modified Field.offset Field.width (Field.moved (subW 64 new old))
        (fieldsOf f.mem blocks) img m := by
  obtain ⟨hdir, hlt⟩ := hok.bounds
  obtain ⟨hinside, -⟩ := (tableSeen_iff hsize hlt).mp hseen
  obtain ⟨hstart, hend⟩ := hok.null_iff old new
  have hstart' := mt hstart.mp (by omega)
  have hend' := mt hend.mp (by omega)
  by_cases hadjust : (movedTable f c s old new).adjust = 0
  · refine ⟨img, ?_, ?_⟩
    · unfold relocate relocateCoff
      dsimp only
      rw [if_neg fun h => hstart' h.1, if_neg (not_or.mpr ⟨hstart', hend'⟩), if_pos hadjust]
      exact Run.yields_pure.mpr rfl
    · refine Mem.Modified.refl fun x _ v hv => ?_
      have hzero : subW 64 new old = 0 := hadjust
      rw [hzero, Field.moved_zero, Nat.mod_eq_of_lt hv]
  · refine ⟨_, (relocateCoff_yields rfl hadjust).mpr (.inr ⟨hstart', hend',
      RelocTable.walk_blocks (hok.stop_eq old new) hok.table (hok.blockOk hsize hseen hat) le_rfl⟩), ?_⟩
    exact (Mem.modified_foldl hok.disjoint).congr fun x _ v => Nat.mod_mod _ _

lemma directorySeen_of_walk (hsize : c.imageSize < 2 ^ 32)
    (hadjust : subW 64 new old ≠ 0) (h : (relocate f c s old new img).Yields m) :
    DirectorySeen f c s ∨ c.imageSize < 2 ^ 31 ∧ c.imageSize ≤ s.pointerToRawData ∧ m = img := by
  obtain ⟨hdir, hlt⟩ := hok.bounds
  obtain ⟨hstart, hend⟩ := hok.null_iff old new
  have hmoved : (movedTable f c s old new).adjust ≠ 0 := hadjust
  rcases (relocateCoff_yields rfl hmoved).mp h with ⟨hnull, -, rfl⟩ | ⟨-, hfound, hwalk⟩
  · have hle := hstart.mp hnull
    unfold intSize at hle
    split_ifs at hle with hint
    · exact .inr ⟨by omega, by omega, rfl⟩
    · omega
  · have hle := mt hend.mpr hfound
    exact .inl ((tableSeen_iff hsize hlt).mpr ⟨by omega,
      RelocTable.inside_of_walk (hok.stop_eq old new) hok.table hok.nonempty le_rfl hwalk⟩)

lemma relocate_unseen (hint : c.imageSize < 2 ^ 31)
    (hle : c.imageSize ≤ s.pointerToRawData) : (relocate f c s old new img).Yields img := by
  obtain ⟨hdir, hlt⟩ := hok.bounds
  obtain ⟨hstart, hend⟩ := hok.null_iff old new
  have hsize : intSize c.imageSize = c.imageSize := by
    unfold intSize
    rw [Nat.mod_eq_of_lt (by omega), if_pos hint]
  unfold relocate relocateCoff
  dsimp only
  rw [if_pos ⟨hstart.mpr (by omega), hend.mpr (by omega)⟩]
  exact Run.yields_pure.mpr rfl

end

end

def MovesFields (f : File) (c : Context) (s : SectionHeader) (fields : List Field) : Prop :=
  ∀ old new img, ImageAt c new → ∃ m, (relocate f c s old new img).Yields m ∧
    Mem.Modified Field.offset Field.width (Field.moved (subW 64 new old)) fields img m

def MovesInSteps (f : File) (c : Context) (s : SectionHeader) : Prop :=
  ∀ a b d img m₁ m₂, ImageAt c b → ImageAt c d → (relocate f c s a b img).Yields m₁ →
    (relocate f c s b d m₁).Yields m₂ → (relocate f c s a d img).Yields m₂

lemma Field.moved_ne (x : Field) (v : ℕ) : x.moved 0x10001 v % 256 ^ x.width ≠ v := by
  obtain ⟨type, offset⟩ := x
  unfold Field.moved Field.width FixupType.addend FixupType.width
  cases type
  all_goals
    dsimp only
    omega

/-- `relocate_coff` moves exactly the fields that a table in order names, and without entries for
upper halves moving twice is moving once, iff the table ends where the code takes the image to end.
-/
theorem relocateCoff_exact_iff (f : File) (c : Context) (s : SectionHeader) (blocks : List ℕ)
    (hsize : c.imageSize < 2 ^ 32)
    (hok : TableOk f c.imageSize s.pointerToRawData (f.dirSize c.relocDir) blocks) :
    (MovesFields f c s (fieldsOf f.mem blocks) ∧
        ((∀ x ∈ fieldsOf f.mem blocks, x.type ≠ .high) → MovesInSteps f c s)) ↔
      TableSeen f c.imageSize (s.pointerToRawData + f.dirSize c.relocDir) ∨
        fieldsOf f.mem blocks = [] ∧ c.imageSize < 2 ^ 31 ∧ c.imageSize ≤ s.pointerToRawData := by
  constructor
  · rintro ⟨hmoves, -⟩
    have hadjust : subW 64 0x20000 0xffff = 0x10001 := by decide
    obtain ⟨m, hyields, hmodified⟩ := hmoves 0xffff 0x20000 (fun _ => 0) ⟨by decide, by omega⟩
    rcases directorySeen_of_walk hok hsize (by decide) hyields with hseen | ⟨hint, hle, rfl⟩
    · exact .inl hseen
    refine .inr ⟨eq_nil_iff_forall_not_mem.mpr fun x hx => ?_, hint, hle⟩
    have hfield := hmodified.field x hx
    rw [hadjust] at hfield
    exact x.moved_ne _ hfield.symm
  · intro hcond
    have hmoves : MovesFields f c s (fieldsOf f.mem blocks) := by
      intro old new img hat
      rcases hcond with hseen | ⟨hnone, hint, hle⟩
      · exact modified_relocated hok hsize hseen hat
      · refine ⟨img, relocate_unseen hok hint hle, Mem.Modified.refl fun x hx => ?_⟩
        rw [hnone] at hx
        exact absurd hx not_mem_nil
    refine ⟨hmoves, fun hlow a b d img m₁ m₂ hb hd h₁ h₂ => ?_⟩
    obtain ⟨n₁, hn₁, hmod₁⟩ := hmoves a b img hb
    obtain rfl := hn₁.unique h₁
    obtain ⟨n₂, hn₂, hmod₂⟩ := hmoves b d n₁ hd
    obtain rfl := hn₂.unique h₂
    obtain ⟨n, hn, hmod⟩ := hmoves a d img hd
    rwa [(modified_steps hlow hmod₁ hmod₂).unique hmod]

end Pe

def frontImage : File := fixupImage nameReloc 336

def behindImage : File := fixupImage nameReloc 0x3000

abbrev tableSection (f : File) : SectionHeader := sectionAt f.mem 288

/-- A table in order starts behind the size of the image: `relocate_coff` succeeds, and its field is
not moved. -/
theorem relocateCoff_skips_table :
    DirectoryOk behindImage (behindImage.context 64) (tableSection behindImage) [0x3000] ∧
      fieldsOf behindImage.mem [0x3000] = [⟨.highLow, 0x1000⟩] ∧
      (relocate behindImage (behindImage.context 64) (tableSection behindImage) 0 0x100000
        fun _ => 0).out.map (fun m => m.load 0x1000 4) = .ok 0 ∧
      Field.moved 0x100000 ⟨.highLow, 0x1000⟩ 0 = 0x100000 :=
  ⟨⟨by decide +kernel, by decide, by decide +kernel, by decide +kernel, by decide +kernel,
    by decide +kernel, by decide +kernel⟩, by decide +kernel, by decide +kernel, by decide +kernel⟩

theorem relocateCoff_exact_front :
    MovesFields frontImage (frontImage.context 64) (tableSection frontImage)
        (fieldsOf frontImage.mem [336]) ∧
      MovesInSteps frontImage (frontImage.context 64) (tableSection frontImage) := by
  have hok : DirectoryOk frontImage (frontImage.context 64) (tableSection frontImage) [336] :=
    ⟨by decide +kernel, by decide, by decide +kernel, by decide +kernel, by decide +kernel,
      by decide +kernel, by decide +kernel⟩
  have hseen : DirectorySeen frontImage (frontImage.context 64) (tableSection frontImage) := by
    unfold DirectorySeen TableSeen
    decide +kernel
  obtain ⟨hmoves, hsteps⟩ :=
    (relocateCoff_exact_iff _ _ _ _ (by decide +kernel) hok).mpr (.inl hseen)
  exact ⟨hmoves, hsteps (by decide +kernel)⟩

end Shim
