import Mathlib.Logic.Relation
import Shim.Lib.Run
import Shim.Pe.Image

/-!
# `relocate_coff` and the table it walks

`relocateCoff f c s data img` walks the relocation table of the section `s` in the file `f` and applies
its fixups to the image `img` at `data`. Its events are the ranges of the file it reads and the ranges
of the image it writes, also when it fails.

* `relocateCoff_reads_iff` — what a run reads of the file.
* `relocateCoff_writes_inside_iff` — when all that it writes lies in the image.
-/

namespace Shim.Pe

open Shim.Lib Run

/-- A field that is patched, and what is added to it. -/
structure Fixup where
  offset : ℕ
  width : ℕ
  amount : ℕ
  deriving DecidableEq

/-- The image with the field patched. -/
def Fixup.apply (x : Fixup) (m : Mem) : Mem :=
  m.store x.offset x.width ((m.load x.offset x.width + x.amount) % 256 ^ x.width)

/-- The `switch` on the type of an entry: `none` for an unknown type, `some none` for the padding
type `EFI_IMAGE_REL_BASED_ABSOLUTE`. -/
def relocEntry (adjust va word : ℕ) : Option (Option Fixup) :=
  let offset := va + word % 4096
  match word / 4096 with
  | 0 => some none
  | 1 => some (some ⟨offset, 2, adjust % 2 ^ 32 / 2 ^ 16⟩)
  | 2 => some (some ⟨offset, 2, adjust % 2 ^ 16⟩)
  | 3 => some (some ⟨offset, 4, adjust % 2 ^ 32⟩)
  | 10 => some (some ⟨offset, 8, adjust⟩)
  | _ => none

/-- What the walk of `relocate_coff` depends on. Pointers into the file are offsets from `orig`. -/
structure RelocTable where
  mem : Mem
  orig : ℕ
  data : ℕ
  size : ℕ
  dirSize : ℕ
  adjust : ℕ
  start : ℕ
  stop : ℕ

/-- The table in section `s`, for an image at `data`. -/
def RelocTable.of (f : File) (c : Context) (s : SectionHeader) (data : ℕ) : RelocTable where
  mem := f.mem
  orig := f.addr
  data := data
  size := intSize c.imageSize
  dirSize := f.dirSize c.relocDir
  adjust := subW 64 data c.imageAddress
  start := s.pointerToRawData
  stop := subW 32 (addW 32 s.pointerToRawData (f.dirSize c.relocDir)) 1

namespace RelocTable

variable (t : RelocTable)

/-- `ImageEnd` -/
def imageEnd : ℕ := addW 64 t.orig t.size

/-- `RelocBase->SizeOfBlock` -/
def sizeOfBlock (b : ℕ) : ℕ := t.mem.u32 (b + 4)

/-- `RelocBase->VirtualAddress` -/
def virtualAddress (b : ℕ) : ℕ := t.mem.u32 b

/-- The entry `k` of a block. -/
def word (b k : ℕ) : ℕ := t.mem.u16 (b + 8 + 2 * k)

/-- How often the entry loop runs: from behind the block header to its end, two bytes at a time,
the last entry possibly sticking out by one byte. -/
def entryCount (b : ℕ) : ℕ := (t.sizeOfBlock b - 8 + 1) / 2

/-- The tests on `SizeOfBlock`: not zero, not larger than the directory, the block not behind
`ImageEnd`. (`RelocEnd < orig` cannot hold.) -/
def SizeOk (b : ℕ) : Prop :=
  t.sizeOfBlock b ≠ 0 ∧ t.sizeOfBlock b ≤ t.dirSize ∧ t.orig + (b + t.sizeOfBlock b) ≤ t.imageEnd

instance (b : ℕ) : Decidable (t.SizeOk b) := by
  unfold SizeOk
  infer_instance

/-- `ImageAddress` accepts the page of the block. -/
def PageOk (b : ℕ) : Prop := imageAddress t.data t.size (t.virtualAddress b) ≠ 0

instance (b : ℕ) : Decidable (t.PageOk b) := by
  unfold PageOk
  infer_instance

/-- What the entry `k` of a block asks for. -/
def entry (b k : ℕ) : Option (Option Fixup) :=
  relocEntry t.adjust (t.virtualAddress b) (t.word b k)

/-- A round of the entry loop. -/
def stepEntry (b : ℕ) (img : Mem) (k : ℕ) : Run Access EfiStatus Mem := do
  .emit (.read (b + 8 + 2 * k) 2)
  match t.entry b k with
  | none => .fail .unsupported
  | some none => return img
  | some (some x) =>
    .emit (.write x.offset x.width)
    return x.apply img

/-- A round of the block loop. -/
def stepBlock (b : ℕ) (img : Mem) : Run Access EfiStatus (ℕ × Mem) := do
  .emit (.read (b + 4) 4)
  .check (¬ t.SizeOk b) .unsupported
  .emit (.read b 4)
  .check (¬ t.PageOk b) .unsupported
  let img ← (List.range (t.entryCount b)).foldlM (t.stepEntry b) img
  return (b + t.sizeOfBlock b, img)

/-- The block loop. A block is at least one byte long, so `stop - b` rounds are enough. -/
def walk : ℕ → ℕ → Mem → Run Access EfiStatus Mem
  | 0, _, img => return img
  | n + 1, b, img =>
    if b < t.stop then do
      let (b', img) ← t.stepBlock b img
      walk n b' img
    else return img

end RelocTable

/-- `relocate_coff` -/
def relocateCoff (f : File) (c : Context) (s : SectionHeader) (data : ℕ) (img : Mem) :
    Run Access EfiStatus Mem :=
  let t := RelocTable.of f c s data
  let relocBase := imageAddress f.addr t.size t.start
  let relocBaseEnd := imageAddress f.addr t.size t.stop
  if relocBase = 0 ∧ relocBaseEnd = 0 then return img
  else if relocBase = 0 ∨ relocBaseEnd = 0 then .fail .unsupported
  else if t.adjust = 0 then return img
  else t.walk (t.stop - t.start) t.start img

/-! ## What the walk reaches -/

namespace RelocTable

variable (t : RelocTable)

/-- The first `k` entries have known types. -/
def KnownBefore (b k : ℕ) : Prop := ∀ j < k, t.entry b j ≠ none

/-- The walk gets from a block to the one behind it. -/
structure Next (b b' : ℕ) : Prop where
  lt : b < t.stop
  sizeOk : t.SizeOk b
  pageOk : t.PageOk b
  known : t.KnownBefore b (t.entryCount b)
  eq : b' = b + t.sizeOfBlock b

/-- The walk is started: both ends of the table pass `ImageAddress` and there is something to
adjust. -/
def Live : Prop :=
  imageAddress t.orig t.size t.start ≠ 0 ∧ imageAddress t.orig t.size t.stop ≠ 0 ∧ t.adjust ≠ 0

/-- The walk gets to the block. -/
def Reached (b : ℕ) : Prop := t.Live ∧ Relation.ReflTransGen t.Next t.start b ∧ b < t.stop

/-- The walk gets to the entry. -/
structure EntryReached (b k : ℕ) : Prop where
  reached : t.Reached b
  sizeOk : t.SizeOk b
  pageOk : t.PageOk b
  lt : k < t.entryCount b
  known : t.KnownBefore b k

/-- What an entry does to the outside. -/
def EntryEvent (b k : ℕ) (r : Access) : Prop :=
  r = .read (b + 8 + 2 * k) 2 ∨ ∃ x, t.entry b k = some (some x) ∧ r = .write x.offset x.width

/-- What a block does to the outside. -/
def BlockEvent (b : ℕ) (r : Access) : Prop :=
  r = .read (b + 4) 4 ∨ t.SizeOk b ∧ (r = .read b 4 ∨
    t.PageOk b ∧ ∃ k < t.entryCount b, t.KnownBefore b k ∧ t.EntryEvent b k r)

variable {t} {b b' k n : ℕ} {img m : Mem} {r : Access}

lemma stepEntry_emits : (t.stepEntry b img k).Emits r ↔ t.EntryEvent b k r := by
  unfold stepEntry EntryEvent
  rcases h : t.entry b k with _ | _ | x
  · simp
  · simp
  · simp

lemma stepEntry_yields : (t.stepEntry b img k).Yields m ↔
      (t.entry b k = some none ∧ m = img) ∨ ∃ x, t.entry b k = some (some x) ∧ m = x.apply img := by
  unfold stepEntry
  rcases h : t.entry b k with _ | _ | x
  · simp
  · simp [eq_comm]
  · simp [eq_comm]

lemma entries_yields (img : Mem) :
    (∃ m, ((List.range n).foldlM (t.stepEntry b) img).Yields m) ↔ t.KnownBefore b n := by
  induction n with
  | zero => simp [KnownBefore]
  | succ n ih =>
    have hsplit : t.KnownBefore b (n + 1) ↔ t.KnownBefore b n ∧ t.entry b n ≠ none := by
      unfold KnownBefore
      exact Nat.forall_lt_succ_right
    rw [hsplit, ← ih]
    simp only [yields_foldlM_range_succ, stepEntry_yields]
    constructor
    · rintro ⟨m, u, hu, h⟩
      refine ⟨⟨u, hu⟩, ?_⟩
      rcases h with ⟨h, -⟩ | ⟨x, h, -⟩
      · simp [h]
      · simp [h]
    · rintro ⟨⟨u, hu⟩, hne⟩
      rcases h : t.entry b n with _ | _ | x
      · exact absurd h hne
      · exact ⟨u, u, hu, by simp⟩
      · exact ⟨x.apply u, u, hu, by simp⟩

lemma stepBlock_emits : (t.stepBlock b img).Emits r ↔ t.BlockEvent b r := by
  unfold stepBlock BlockEvent
  simp only [emits_bind, emits_emit, yields_emit, emits_check, yields_check,
    emits_pure, emits_foldlM_range, stepEntry_emits, not_not, true_and, exists_const,
    false_or, and_false, or_false]
  constructor
  · rintro (h | ⟨hs, h | ⟨hp, k, hk, u, hu, h⟩⟩)
    · exact .inl h
    · exact .inr ⟨hs, .inl h⟩
    · exact .inr ⟨hs, .inr ⟨hp, k, hk, (entries_yields img).mp ⟨u, hu⟩, h⟩⟩
  · rintro (h | ⟨hs, h | ⟨hp, k, hk, hu, h⟩⟩)
    · exact .inl h
    · exact .inr ⟨hs, .inl h⟩
    · obtain ⟨u, hu⟩ := (entries_yields img).mpr hu
      exact .inr ⟨hs, .inr ⟨hp, k, hk, u, hu, h⟩⟩

lemma stepBlock_yields_iff : (t.stepBlock b img).Yields (b', m) ↔ t.SizeOk b ∧ t.PageOk b ∧
        ((List.range (t.entryCount b)).foldlM (t.stepEntry b) img).Yields m ∧
        b' = b + t.sizeOfBlock b := by
  unfold stepBlock
  simp only [yields_bind, yields_emit, yields_check, yields_pure, not_not,
    true_and, exists_const, Prod.mk.injEq]
  refine and_congr_right fun _ => and_congr_right fun _ => ?_
  constructor
  · rintro ⟨u, hu, rfl, rfl⟩
    exact ⟨hu, rfl⟩
  · rintro ⟨hu, rfl⟩
    exact ⟨m, hu, rfl, rfl⟩

lemma stepBlock_yields (img : Mem) (h : b < t.stop) :
    (∃ m, (t.stepBlock b img).Yields (b', m)) ↔ t.Next b b' := by
  simp only [stepBlock_yields_iff]
  constructor
  · rintro ⟨m, hs, hp, hm, heq⟩
    exact ⟨h, hs, hp, (entries_yields img).mp ⟨m, hm⟩, heq⟩
  · rintro ⟨-, hs, hp, hk, heq⟩
    obtain ⟨m, hm⟩ := (entries_yields img).mpr hk
    exact ⟨m, hs, hp, hm, heq⟩

lemma not_reaches (hb : ¬ b < t.stop) :
    ¬ ∃ b', Relation.ReflTransGen t.Next b b' ∧ b' < t.stop ∧ t.BlockEvent b' r := by
  rintro ⟨b', hreach, hlt, -⟩
  rcases hreach.cases_head with rfl | ⟨d, hd, -⟩
  · exact hb hlt
  · exact hb hd.lt

lemma walk_emits (hn : t.stop - b ≤ n) : (t.walk n b img).Emits r ↔
      ∃ b', Relation.ReflTransGen t.Next b b' ∧ b' < t.stop ∧ t.BlockEvent b' r := by
  induction n generalizing b img with
  | zero => exact iff_of_false emits_pure (not_reaches (by omega))
  | succ n ih =>
    unfold walk
    split_ifs with hb
    · rw [emits_bind, stepBlock_emits]
      constructor
      · rintro (h | ⟨⟨d, m⟩, hd, h⟩)
        · exact ⟨b, .refl, hb, h⟩
        · have hnext : t.Next b d := (stepBlock_yields img hb).mp ⟨m, hd⟩
          have hpos := hnext.sizeOk.1
          obtain ⟨b', hreach, h⟩ := (ih (by have := hnext.eq; omega)).mp h
          exact ⟨b', .head hnext hreach, h⟩
      · rintro ⟨b', hreach, hlt, h⟩
        rcases hreach.cases_head with rfl | ⟨d, hd, hrest⟩
        · exact .inl h
        · have hpos := hd.sizeOk.1
          obtain ⟨m, hm⟩ := (stepBlock_yields img hb).mpr hd
          exact .inr ⟨(d, m), hm, (ih (by have := hd.eq; omega)).mpr ⟨b', hrest, hlt, h⟩⟩
    · exact iff_of_false emits_pure (not_reaches hb)

end RelocTable

section

variable {f : File} {c : Context} {s : SectionHeader} {data : ℕ} {img m : Mem} {r : Access}

lemma relocateCoff_emits : (relocateCoff f c s data img).Emits r ↔
      ∃ b, (RelocTable.of f c s data).Reached b ∧ (RelocTable.of f c s data).BlockEvent b r := by
  set t := RelocTable.of f c s data with ht
  unfold relocateCoff RelocTable.Reached RelocTable.Live
  rw [← ht, show f.addr = t.orig from rfl]
  dsimp only
  split_ifs with h₁ h₂ h₃
  · simp [h₁]
  · rcases h₂ with h₂ | h₂
    · simp [h₂]
    · simp [h₂]
  · simp [h₃]
  · rw [RelocTable.walk_emits le_rfl]
    have hlive : imageAddress t.orig t.size t.start ≠ 0 ∧
        imageAddress t.orig t.size t.stop ≠ 0 ∧ t.adjust ≠ 0 :=
      ⟨fun h => h₂ (.inl h), fun h => h₂ (.inr h), h₃⟩
    simp only [hlive, true_and, ne_eq, not_false_eq_true, and_assoc]

/-- What a run reads of the file: the fields of every block it reaches, and the entries it gets to.
-/
theorem relocateCoff_reads_iff {off len : ℕ} : (relocateCoff f c s data img).Emits (.read off len) ↔
      ∃ b, (RelocTable.of f c s data).Reached b ∧
        ((off = b + 4 ∧ len = 4) ∨ ((RelocTable.of f c s data).SizeOk b ∧ off = b ∧ len = 4) ∨
          ∃ k, (RelocTable.of f c s data).EntryReached b k ∧ off = b + 8 + 2 * k ∧ len = 2) := by
  rw [relocateCoff_emits]
  refine exists_congr fun b => and_congr_right fun hb => ?_
  unfold RelocTable.BlockEvent RelocTable.EntryEvent
  simp only [Access.read.injEq, reduceCtorEq, and_false, exists_false, or_false]
  constructor
  · rintro (h | ⟨hs, h | ⟨hp, k, hk, hknown, h⟩⟩)
    · exact .inl h
    · exact .inr (.inl ⟨hs, h⟩)
    · exact .inr (.inr ⟨k, ⟨hb, hs, hp, hk, hknown⟩, h⟩)
  · rintro (h | ⟨hs, h⟩ | ⟨k, hk, h⟩)
    · exact .inl h
    · exact .inr ⟨hs, .inl h⟩
    · exact .inr ⟨hk.sizeOk, .inr ⟨hk.pageOk, k, hk.lt, hk.known, h⟩⟩

lemma relocateCoff_writes_iff {off len : ℕ} :
    (relocateCoff f c s data img).Emits (.write off len) ↔
      ∃ b k x, (RelocTable.of f c s data).EntryReached b k ∧
        (RelocTable.of f c s data).entry b k = some (some x) ∧ off = x.offset ∧ len = x.width := by
  rw [relocateCoff_emits]
  unfold RelocTable.BlockEvent RelocTable.EntryEvent
  simp only [Access.write.injEq, reduceCtorEq, false_or]
  constructor
  · rintro ⟨b, hb, hs, hp, k, hk, hknown, x, hx, h⟩
    exact ⟨b, k, x, ⟨hb, hs, hp, hk, hknown⟩, hx, h⟩
  · rintro ⟨b, k, x, hk, hx, h⟩
    exact ⟨b, hk.reached, hk.sizeOk, hk.pageOk, k, hk.lt, hk.known, x, hx, h⟩

lemma relocateCoff_yields {t : RelocTable} (ht : RelocTable.of f c s data = t)
    (hadjust : t.adjust ≠ 0) : (relocateCoff f c s data img).Yields m ↔
      (imageAddress f.addr t.size t.start = 0 ∧ imageAddress f.addr t.size t.stop = 0 ∧ img = m) ∨
      (imageAddress f.addr t.size t.start ≠ 0 ∧ imageAddress f.addr t.size t.stop ≠ 0 ∧
        (t.walk (t.stop - t.start) t.start img).Yields m) := by
  unfold relocateCoff
  dsimp only
  rw [ht]
  by_cases hstart : imageAddress f.addr t.size t.start = 0
  · by_cases hstop : imageAddress f.addr t.size t.stop = 0
    · simp [hstart, hstop]
    · simp [hstart, hstop]
  · by_cases hstop : imageAddress f.addr t.size t.stop = 0
    · simp [hstart, hstop]
    · simp [hstart, hstop, hadjust]

end

/-- The width of the field that an entry of a type patches; zero if it patches nothing. -/
def fixupWidth : ℕ → ℕ
  | 1 => 2
  | 2 => 2
  | 3 => 4
  | 10 => 8
  | _ => 0

/-- An entry places a fixup iff its type has a width; the place is fixed by the page of the block
and the low twelve bits of the entry. -/
theorem relocEntry_eq_fixup (adjust va word : ℕ) {off len : ℕ} :
    (∃ x, relocEntry adjust va word = some (some x) ∧ off = x.offset ∧ len = x.width) ↔
      fixupWidth (word / 4096) ≠ 0 ∧ off = va + word % 4096 ∧ len = fixupWidth (word / 4096) := by
  unfold relocEntry
  generalize word / 4096 = type
  dsimp only
  split
  · simp [fixupWidth]
  · simp [fixupWidth]
  · simp [fixupWidth]
  · simp [fixupWidth]
  · simp [fixupWidth]
  · have hzero : fixupWidth type = 0 := by
      unfold fixupWidth
      split
      · contradiction
      · contradiction
      · contradiction
      · contradiction
      · rfl
    simp [hzero]

/-- Every field that is patched lies in the image. -/
def RelocTable.FixupsInside (t : RelocTable) (imageSize : ℕ) : Prop :=
  ∀ b k, t.EntryReached b k → fixupWidth (t.word b k / 4096) ≠ 0 →
    t.virtualAddress b + t.word b k % 4096 + fixupWidth (t.word b k / 4096) ≤ imageSize

/-- Every byte that `relocate_coff` writes lies in the image iff the page address of each block
*together with* the offset and the width of each of its entries stays below `ImageSize`. -/
theorem relocateCoff_writes_inside_iff (f : File) (c : Context) (s : SectionHeader) (data : ℕ)
    (img : Mem) :
    (∀ off len, (relocateCoff f c s data img).Emits (.write off len) → off + len ≤ c.imageSize) ↔
      (RelocTable.of f c s data).FixupsInside c.imageSize := by
  constructor
  · intro h b k hk hw
    obtain ⟨x, hx, hoff, hlen⟩ := (relocEntry_eq_fixup _ _ _).mpr ⟨hw, rfl, rfl⟩
    have hwrite := h x.offset x.width (relocateCoff_writes_iff.mpr ⟨b, k, x, hk, hx, rfl, rfl⟩)
    rwa [← hoff, ← hlen] at hwrite
  · intro h off len hwrite
    obtain ⟨b, k, x, hk, hx, hoff, hlen⟩ := relocateCoff_writes_iff.mp hwrite
    obtain ⟨hw, hoff', hlen'⟩ := (relocEntry_eq_fixup _ _ _).mp ⟨x, hx, hoff, hlen⟩
    rw [hoff', hlen']
    exact h b k hk hw

/-- An image with a fixup at its last byte. -/
def overrunImage : File :=
  PeFields.file
    { sizeOfImage := 0x3000
      baseReloc := (0x2000, 12)
      sections := [⟨nameText, 16, 0x1000, 8, 328, 0x60000020⟩,
        ⟨nameReloc, 12, 0x2000, 12, 336, 0x42000040⟩]
      body := [(336, 4, 0x2000), (340, 4, 12), (344, 2, 0xafff)] }
    348

/-- The entry passes every test, and eight bytes from the last byte of the image on are written. -/
theorem relocateCoff_writes_past_last_page :
    readHeader overrunImage .x64 0 true = .ok (overrunImage.context 64) ∧
      (overrunImage.context 64).imageSize = 0x3000 ∧
      (relocateCoff overrunImage (overrunImage.context 64) (sectionAt overrunImage.mem 288)
        0x100000 fun _ => 0).Emits (.write 0x2fff 8) := by
  decide +kernel

end Shim.Pe
