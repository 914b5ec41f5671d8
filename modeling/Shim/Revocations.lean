import Shim.Sbat.Ssp
import Shim.TrustFiles

/-!
# The pointers of a revocations file

`load_revocations_file` takes six pointers out of the section table and hands them on without a
length: to texts that are read up to a `NUL`, and to fields of eight or 131 bytes.
`check_section_helper` sets the pointer before it compares the size.
-/

namespace Shim

open Lib Pe Verify Sbat List

namespace RevSection

def isSbat : RevSection → Bool
  | sbatAutomatic | sbatLatest => true
  | sspvAutomatic | sspsAutomatic | sspvLatest | sspsLatest => false

/-- `minsize` of a section: `sizeof (SBAT_VAR_ORIGINAL)`, which counts the `NUL`, `SSPVER_SIZE` or
`SSPSIG_SIZE`. -/
def minsize : RevSection → ℕ
  | sbatAutomatic | sbatLatest => sbatVarOriginal.length + 1
  | sspvAutomatic | sspvLatest => sspverSize
  | sspsAutomatic | sspsLatest => sspsigSize

lemma minsize_pos (x : RevSection) : 0 < x.minsize := by
  cases x <;> simp [minsize, sspverSize, sspsigSize]

lemma isSbat_iff {x : RevSection} : x.isSbat = true ↔ x = sbatAutomatic ∨ x = sbatLatest := by
  cases x <;> simp [isSbat]

lemma mem_all (x : RevSection) : x ∈ all := by
  cases x <;> simp [all]

end RevSection

/-- The pointer is passed to `set_sbat_uefi_variable` or to `set_ssp_uefi_variable`, and is not
`NULL`. -/
def RevCalls.Hands (calls : RevCalls) (x : RevSection) : Prop :=
  calls.pointer x ≠ 0 ∧ (if x.isSbat then calls.setSbat else calls.setSsp) = true

/-- The section has the raw data that a callee reads of `x`: as many bytes as it must have, and for
a text a `NUL` among them. -/
structure Pe.SectionHeader.Serves (s : SectionHeader) (f : File) (x : RevSection) : Prop where
  name : s.name = x.name
  size : x.minsize ≤ s.sizeOfRawData
  nul : x.isSbat = true → ∃ j < s.sizeOfRawData, f.mem (s.pointerToRawData + j) = 0

def StartsSection (f : File) (c : Context) (x : RevSection) (p : ℕ) : Prop :=
  ∃ s ∈ f.sections c, s.Serves f x ∧ p = f.addr + s.pointerToRawData ∧
    s.pointerToRawData + s.sizeOfRawData ≤ f.datasize

namespace Pe.File

def lastNamed (f : File) (c : Context) (x : RevSection) : Option SectionHeader :=
  (f.sections c).reverse.find? fun s => s.name = x.name

def Locates (f : File) (c : Context) (x : RevSection) : Prop :=
  ∃ s, f.lastNamed c x = some s ∧ s.pointerToRawData < intSize f.datasize

/-- The file has `x`, together with what else is needed for a call: the other text, or a version
and its signers. -/
def Supplies (f : File) (c : Context) (x : RevSection) : Prop :=
  f.Locates c x ∧ if x.isSbat then f.Locates c .sbatLatest ∧ f.Locates c .sbatAutomatic
    else (f.Locates c .sspvAutomatic ∧ f.Locates c .sspsAutomatic) ∨
      (f.Locates c .sspvLatest ∧ f.Locates c .sspsLatest)

def ServesAt (f : File) (c : Context) (x : RevSection) : Prop :=
  ∃ l, f.lastNamed c x = some l ∧
    ∃ s ∈ f.sections c, s.Serves f x ∧ s.pointerToRawData = l.pointerToRawData

end Pe.File

section

variable {f : File} {c : Context} {rows rows' : RevRows} {i n : ℕ}

lemma foldl_update {p : RevSection → Prop} [DecidablePred p] {v : Option SectionHeader}
    (l : List RevSection) (rows : RevRows) (x : RevSection) :
    l.foldl (fun r y => if ¬ p y then r else Function.update r y v) rows x =
      if x ∈ l ∧ p x then v else rows x := by
  induction l generalizing rows with
  | nil => simp
  | cons y l ih =>
    rw [foldl_cons, ih]
    by_cases hmem : x ∈ l ∧ p x
    · rw [if_pos hmem, if_pos ⟨mem_cons_of_mem _ hmem.1, hmem.2⟩]
    rw [if_neg hmem]
    by_cases hxy : x = y
    · subst hxy
      by_cases hp : p x
      · simp [hp]
      · simp [hp]
    · by_cases hp : p y
      · simp [hp, hxy, hmem]
      · simp [hp, hxy, hmem]

lemma revStep_yields : (revStep f c rows i).Yields rows' ↔
      rows' = fun x => if (f.row c i).name = x.name then some (f.row c i) else rows x := by
  unfold revStep
  rw [Run.yields_foldlM_iff fun u x v => checkSectionHelper_yields]
  have hfold : RevSection.all.foldl _ rows = fun x => _ :=
    funext (foldl_update (p := fun x => (f.row c i).name = x.name) (v := some (f.row c i))
      RevSection.all rows)
  simp only [RevSection.mem_all, true_and] at hfold
  rw [← hfold]
  exact Iff.rfl

lemma revRows_yields :
    ((List.range c.numberOfSections).foldlM (revStep f c) fun _ => none).Yields rows ↔
      rows = f.lastNamed c := by
  rw [Run.yields_foldlM_iff fun u i v => revStep_yields]
  suffices hlast : ∀ n, (List.range n).foldl
      (fun (r : RevRows) i x => if (f.row c i).name = x.name then some (f.row c i) else r x)
      (fun _ => none) =
        fun x => ((List.range n).map (f.row c)).reverse.find? fun s => s.name = x.name by
    rw [hlast]
    rfl
  intro n
  induction n with
  | zero => rfl
  | succ n ih =>
    rw [range_succ, foldl_append, ih, map_append, reverse_append]
    funext x
    by_cases hname : (f.row c n).name = x.name
    · simp [hname]
    · simp [hname]

lemma handOver_yields {ss : List (Option SectionHeader)} {u : Unit} : (handOver f ss).Yields u :=
  rfl

lemma revPointer_lastNamed {x : RevSection} :
    revPointer f (f.lastNamed c x) ≠ 0 ↔ f.Locates c x := by
  unfold File.Locates
  cases h : f.lastNamed c x with
  | none => simp [revPointer]
  | some s =>
    simp only [revPointer, Option.some.injEq, exists_eq_left']
    rw [Ne, imageAddress_eq_zero_iff f (.inr s.pointerToRawData_lt), not_le]

end

section

variable {env : HandleEnv} {f : File} {c : Context} {calls : RevCalls}

def revCalls (f : File) (c : Context) : RevCalls :=
  let pointer := fun x => revPointer f (f.lastNamed c x)
  ⟨pointer, pointer .sbatLatest != 0 && pointer .sbatAutomatic != 0,
    (pointer .sspvAutomatic != 0 && pointer .sspsAutomatic != 0) ||
      (pointer .sspvLatest != 0 && pointer .sspsLatest != 0)⟩

lemma loadRevocationsFile_yields (h : verifyImage env f = .ok c) :
    (loadRevocationsFile env f).Yields calls ↔ calls = revCalls f c := by
  unfold loadRevocationsFile
  simp only [Run.yields_bind, Run.yields_lift, h, revRows_yields, handOver_yields, Run.yields_pure,
    Except.ok.injEq, exists_eq_left', exists_eq_left, true_and, exists_const]
  exact eq_comm

lemma revCalls_hands {x : RevSection} : (revCalls f c).Hands x ↔ f.Supplies c x := by
  unfold RevCalls.Hands File.Supplies
  cases hsbat : x.isSbat <;> simp [revCalls, ← revPointer_lastNamed]

lemma startsSection_revCalls {x : RevSection} (hraw : ∀ s ∈ f.sections c, s.sizeOfRawData ≠ 0 →
      s.pointerToRawData + s.sizeOfRawData ≤ f.datasize) (h : f.Supplies c x) :
    StartsSection f c x ((revCalls f c).pointer x) ↔ f.ServesAt c x := by
  obtain ⟨⟨l, hl, hin⟩, -⟩ := h
  have hpointer : (revCalls f c).pointer x = f.addr + l.pointerToRawData := by
    have hne : revPointer f (f.lastNamed c x) ≠ 0 := revPointer_lastNamed.mpr ⟨l, hl, hin⟩
    rw [hl] at hne
    show revPointer f (f.lastNamed c x) = _
    rw [hl]
    exact (imageAddress_ne_zero hne).2.2
  unfold StartsSection File.ServesAt
  rw [hpointer]
  constructor
  · rintro ⟨s, hs, hserves, hp, -⟩
    exact ⟨l, hl, s, hs, hserves, by omega⟩
  · rintro ⟨l', hl', s, hs, hserves, hp⟩
    obtain rfl : l = l' := Option.some.inj (hl.symm.trans hl')
    have hpos := x.minsize_pos
    have hsize := hserves.size
    exact ⟨s, hs, hserves, by omega, hraw s hs (by omega)⟩

/-- Every pointer that is handed on is the start of a section with as many bytes as it must have,
all in the file, and every text ends in its section, exactly if the sections that the file supplies
for the calls are such. -/
theorem loadRevocationsFile_hands_sections_iff (hverify : verifyImage env f = .ok c) :
    ∃ calls, (loadRevocationsFile env f).Yields calls ∧
      ((∀ x, calls.Hands x → StartsSection f c x (calls.pointer x)) ↔
        ∀ x, f.Supplies c x → f.ServesAt c x) := by
  obtain ⟨hread, r, input, hhash⟩ := verifyImage_ok hverify
  obtain ⟨-, hhashed⟩ := generateHash_ok hread hhash
  refine ⟨revCalls f c, (loadRevocationsFile_yields hverify).mpr rfl, forall_congr' fun x => ?_⟩
  rw [revCalls_hands]
  exact forall_congr' fun hsupplies => startsSection_revCalls hhashed.raw_le hsupplies

end

/-! ## Revocations files with two texts -/

def revocationsFile (raw text : ℕ) : File :=
  PeFields.file
    { sizeOfImage := 0x3000
      sections := [⟨0x61746162732e, raw, 0x1000, raw, 328, 0x40000040⟩,
        ⟨0x6c746162732e, raw, 0x2000, raw, 328 + raw, 0x40000040⟩]
      body := [(328, raw, text), (328 + raw, raw, text)] }
    (328 + 2 * raw)

def shortRevocations : File := revocationsFile 8 0x0a2c312c74616273

def openRevocations : File :=
  revocationsFile 24 0x312c6d6968730a383132303330313230322c312c74616273

def closedRevocations : File := revocationsFile 24 0x0a383132303330313230322c312c74616273

/-- Verified files whose texts are handed on: from a section of eight bytes, and from one without a
`NUL`. -/
theorem loadRevocationsFile_hands_unchecked : (let f := shortRevocations
     let c := f.context 64
     let env := secureEnv (f.mem.slice 312 32)
     verifyImage env f = .ok c ∧ ∃ calls, (loadRevocationsFile env f).Yields calls ∧
       calls.Hands .sbatAutomatic ∧
       ¬ StartsSection f c .sbatAutomatic (calls.pointer .sbatAutomatic)) ∧
    let f := openRevocations
    let c := f.context 64
    let env := secureEnv (f.mem.slice 344 32)
    verifyImage env f = .ok c ∧ ∃ calls, (loadRevocationsFile env f).Yields calls ∧
      calls.Hands .sbatLatest ∧ ¬ StartsSection f c .sbatLatest (calls.pointer .sbatLatest) := by
  constructor
  · intro f c env
    have hverify : verifyImage env f = .ok c := by decide +kernel
    have hsize : ∀ s ∈ f.sections c, s.sizeOfRawData = 8 := by decide +kernel
    refine ⟨hverify, _, (loadRevocationsFile_yields hverify).mpr rfl,
      ⟨by decide +kernel, by decide +kernel⟩, ?_⟩
    rintro ⟨s, hs, hserves, -⟩
    have hmin : 19 ≤ s.sizeOfRawData := hserves.size
    have heq := hsize s hs
    omega
  · intro f c env
    have hverify : verifyImage env f = .ok c := by decide +kernel
    have hopen : ∀ s ∈ f.sections c, ∀ j < s.sizeOfRawData, f.mem (s.pointerToRawData + j) ≠ 0 := by
      decide +kernel
    refine ⟨hverify, _, (loadRevocationsFile_yields hverify).mpr rfl,
      ⟨by decide +kernel, by decide +kernel⟩, ?_⟩
    rintro ⟨s, hs, hserves, -⟩
    obtain ⟨j, hj, hnul⟩ := hserves.nul rfl
    exact hopen s hs j hj hnul

lemma closedRevocations_serves {x : RevSection} {i : ℕ} (hi : i < 2)
    (hlast : closedRevocations.lastNamed (closedRevocations.context 64) x =
      some (closedRevocations.row (closedRevocations.context 64) i))
    (hserves : (closedRevocations.row (closedRevocations.context 64) i).Serves closedRevocations x) :
    closedRevocations.ServesAt (closedRevocations.context 64) x :=
  ⟨_, hlast, _, mem_map_of_mem (mem_range.mpr hi), hserves, rfl⟩

theorem loadRevocationsFile_hands_closed :
    let f := closedRevocations
    let c := f.context 64
    let env := secureEnv (f.mem.slice 344 32)
    verifyImage env f = .ok c ∧ f.Supplies c .sbatAutomatic ∧
      ∃ calls, (loadRevocationsFile env f).Yields calls ∧
        ∀ x, calls.Hands x → StartsSection f c x (calls.pointer x) := by
  intro f c env
  have hverify : verifyImage env f = .ok c := by decide +kernel
  have hsections : f.sections c = [f.row c 0, f.row c 1] := by
    rw [File.sections, show c.numberOfSections = 2 by decide +kernel]
    rfl
  have hname : (f.row c 0).name = RevSection.name .sbatAutomatic ∧
      (f.row c 1).name = RevSection.name .sbatLatest := by
    decide +kernel
  have hautomatic : f.lastNamed c .sbatAutomatic = some (f.row c 0) := by
    simp [File.lastNamed, hsections, hname, RevSection.name]
  have hlatest : f.lastNamed c .sbatLatest = some (f.row c 1) := by
    simp [File.lastNamed, hsections, hname, RevSection.name]
  have hstart : ∀ i < 2, (f.row c i).pointerToRawData < intSize f.datasize := by decide +kernel
  refine ⟨hverify, ⟨⟨_, hautomatic, hstart 0 (by omega)⟩, ⟨_, hlatest, hstart 1 (by omega)⟩,
    ⟨_, hautomatic, hstart 0 (by omega)⟩⟩, ?_⟩
  obtain ⟨calls, hcalls, hiff⟩ := loadRevocationsFile_hands_sections_iff hverify
  refine ⟨calls, hcalls, hiff.mpr fun x hsupplies => ?_⟩
  have hnone : ∀ y ∈ RevSection.all, y.isSbat = false → f.lastNamed c y = none := by decide +kernel
  cases hsbat : x.isSbat with
  | false =>
    obtain ⟨⟨s, hs, -⟩, -⟩ := hsupplies
    rw [hnone x x.mem_all hsbat] at hs
    cases hs
  | true =>
    rcases RevSection.isSbat_iff.mp hsbat with rfl | rfl
    · exact closedRevocations_serves (by omega) hautomatic
        ⟨by decide +kernel, by decide +kernel, fun _ => ⟨18, by decide +kernel, by decide +kernel⟩⟩
    · exact closedRevocations_serves (by omega) hlatest
        ⟨by decide +kernel, by decide +kernel, fun _ => ⟨18, by decide +kernel, by decide +kernel⟩⟩

end Shim
