import Shim.Lib.CStr
import Shim.Lib.Run
import Shim.Lib.Word

/-!
# Boot options that the firmware has masked

Some firmware hides a boot option by a bit of its attributes, a vendor node and an end node in front
of its device path. `check_masked_boot_option` compares such a candidate with the option that
fallback looks for. The events are the ranges of the two buffers that it reads.
-/

namespace Shim.Fallback

open Lib Run

inductive MaskRead where
  | candidate (off len : ℕ)
  | data (off len : ℕ)
  deriving DecidableEq

def amiMaskedDevicePathGuid : List UInt8 :=
  [0xe7, 0x75, 0xe2, 0x99, 0xa0, 0x75, 0x37, 0x4b, 0xa2, 0xe6, 0xc5, 0x38, 0x5e, 0x6c, 0x0, 0xcb]

def calcMaskedBootOptionSize (size : ℕ) : ℕ := addW 32 size 24

def loadOptionHidden : ℕ := 0x8

def strSizeAt (m : Mem) : ℕ → ℕ → Option ℕ
  | _, 0 => none
  | p, k + 1 => if m.u16 p = 0 then some 2 else (strSizeAt m (p + 2) k).map (· + 2)

section

variable (c : Mem) (n : ℕ) (data : Mem)

def devicePathType (dp : ℕ) : UInt8 := c dp &&& 0x7f

def isDevicePathEnd (dp : ℕ) : Bool := devicePathType c dp = 0x7f ∧ c (dp + 1) = 0xff

def checkMaskedHead (s : ℕ) : Run MaskRead Empty Bool :=
  let dp := 6 + s
  if n ≤ dp + 4 then return false else do
  .emit (.candidate dp 4)
  let nodeSize := subW 32 (c.u16 (dp + 2)) 4
  let minValidSize := addW 32 (dp + 4) nodeSize
  if n ≤ minValidSize ∨ devicePathType c dp ≠ 1 ∨ c (dp + 1) ≠ 4 ∨ nodeSize ≠ 16 then return false
  else do
  .emit (.candidate (dp + 4) 16)
  if c.slice (dp + 4) 16 ≠ amiMaskedDevicePathGuid then return false else do
  if n ≤ addW 32 minValidSize 4 then return false else do
  let next := dp + c.u16 (dp + 2)
  .emit (.candidate next 2)
  if isDevicePathEnd c next = false then return false else do
  .emit (.candidate 0 4)
  if c.u32 0 &&& loadOptionHidden = 0 then return false else do
  .emit (.data 0 4)
  if c.u32 0 &&& (2 ^ 32 - 1 - loadOptionHidden) ≠ data.u32 0 then return false else do
  .emit (.data 4 2)
  .emit (.candidate 4 2)
  if calcMaskedBootOptionSize (data.u16 4) ≠ c.u16 4 then return false else do
  .emit (.candidate 6 s)
  .emit (.data 6 s)
  return c.slice 6 s = data.slice 6 s

def readStrSize (m : Mem) (event : ℕ → ℕ → MaskRead) (p size : ℕ) : Run MaskRead Empty (Option ℕ) :=
  match strSizeAt m p ((size - p) / 2) with
  | none => do
    .emit (event p (size + 1 - p))
    return none
  | some s => do
    .emit (event p s)
    return some s

/-- Whether the candidate matches; `none` if the end of a string is not found. -/
def checkMaskedBootOption (dataSize : ℕ) : Run MaskRead Empty (Option Bool) :=
  if calcMaskedBootOptionSize dataSize ≠ n then return some false else do
  match ← readStrSize c .candidate 6 n with
  | none => return none
  | some s => do
    let head ← checkMaskedHead c n data s
    if head = false then return some false else do
    let dp := 6 + s + 20
    .emit (.candidate (dp + 2) 2)
    let cursor := dp + c.u16 (dp + 2)
    -- `data` has been moved to the description, and is moved by another character
    match ← readStrSize data .data 8 dataSize with
    | none => return none
    | some t => do
      .emit (.candidate cursor (n - (dp + 4)))
      .emit (.data (8 + t) (n - (dp + 4)))
      return some (c.slice cursor (n - (dp + 4)) = data.slice (8 + t) (n - (dp + 4)))

end

lemma hidden_of_checkMasked {c : Mem} {n : ℕ} {data : Mem} {dataSize : ℕ}
    (h : (checkMaskedBootOption c n data dataSize).value = some true) :
    c.u32 0 &&& loadOptionHidden ≠ 0 := by
  intro hzero
  have hhead (s : ℕ) : (checkMaskedHead c n data s).value = false := by
    unfold checkMaskedHead
    simp only [value_ite, value_bind, value_pure, hzero, if_true, ite_self]
  unfold checkMaskedBootOption at h
  split_ifs at h
  · cases h
  rw [value_bind] at h
  split at h
  · cases h
  · simp [value_bind, hhead] at h

/-- The option that is looked for: it fits into memory with the two nodes, and its description is not
empty (`populate_stanza`) and ends in it. -/
structure Reference where
  data : Mem
  size : ℕ
  descSize : ℕ
  fits : size < 2 ^ 31
  head : 6 ≤ size
  desc : strSizeAt data 6 ((size - 6) / 2) = some descSize
  nonempty : 2 < descSize

def MaskRead.Inside (n size : ℕ) : MaskRead → Prop
  | .candidate off len => off + len ≤ n
  | .data off len => off + len ≤ size

/-- The candidate is the option up to the masking: the bit, the length of the path, the description and
the two nodes. -/
structure MaskedHead (c : Mem) (n : ℕ) (data : Mem) (s : ℕ) : Prop where
  room : 30 + s < n
  hidden : c.u32 0 &&& loadOptionHidden ≠ 0 ∧
    c.u32 0 &&& (2 ^ 32 - 1 - loadOptionHidden) = data.u32 0
  listLength : c.u16 4 = data.u16 4 + 24
  description : c.slice 6 s = data.slice 6 s
  vendor : devicePathType c (6 + s) = 1 ∧ c (6 + s + 1) = 4 ∧ c.u16 (6 + s + 2) = 20 ∧
    c.slice (6 + s + 4) 16 = amiMaskedDevicePathGuid
  ended : isDevicePathEnd c (6 + s + 20) = true

/-- The last comparison succeeds, with an end node of `len` bytes. -/
def TailEqual (c : Mem) (n : ℕ) (data : Mem) (s len : ℕ) : Prop :=
  c.slice (6 + s + 20 + len) (n - (6 + s + 20 + 4)) = data.slice (6 + s) (n - (6 + s + 20 + 4))

def EndOk (c : Mem) (n : ℕ) (data : Mem) (s : ℕ) : Prop :=
  c.u16 (6 + s + 20 + 2) = 4 ∨
    c.u16 (6 + s + 20 + 2) < 4 ∧ ¬ TailEqual c n data s (c.u16 (6 + s + 20 + 2))

structure Masked (c : Mem) (n : ℕ) (ref : Reference) : Prop where
  size : n = ref.size + 24
  head : MaskedHead c n ref.data ref.descSize
  endLength : c.u16 (6 + ref.descSize + 20 + 2) = 4
  tail : TailEqual c n ref.data ref.descSize 4

/-- The reads are inside the two buffers, the function returns, and what it accepts is masked. -/
def MaskSound (c : Mem) (n : ℕ) (ref : Reference) : Prop :=
  (checkMaskedBootOption c n ref.data ref.size).Only (MaskRead.Inside n ref.size) ∧
    ∃ r, (checkMaskedBootOption c n ref.data ref.size).value = some r ∧ (r = true → Masked c n ref)

variable {c data : Mem} {n p k s : ℕ}

lemma strSize_bounds (h : strSizeAt c p k = some s) : 2 ≤ s ∧ s ≤ 2 * k := by
  induction k generalizing p s with
  | zero => cases h
  | succ k ih =>
    rw [strSizeAt] at h
    split at h
    · cases h
      omega
    · obtain ⟨t, ht, rfl⟩ := Option.map_eq_some_iff.mp h
      have := ih ht
      omega

lemma strSize_unique {j t : ℕ} (h : strSizeAt c p k = some s) (h' : strSizeAt data p j = some t)
    (heq : c.slice p s = data.slice p s) : s = t := by
  induction k generalizing p s j t with
  | zero => cases h
  | succ k ih =>
    have hpos := (strSize_bounds h).1
    rw [Mem.slice_eq_iff] at heq
    have hchar : c.u16 p = data.u16 p := by
      have hlow := heq 0 (by omega)
      have hhigh := heq 1 (by omega)
      simp only [Nat.add_zero] at hlow
      simp [Mem.u16, Mem.load, hlow, hhigh]
    cases j with
    | zero => cases h'
    | succ j =>
      rw [strSizeAt, hchar] at h
      rw [strSizeAt] at h'
      split at h
      · rw [if_pos ‹_›] at h'
        rw [← Option.some.inj h, ← Option.some.inj h']
      rw [if_neg ‹_›] at h'
      obtain ⟨s, hs, rfl⟩ := Option.map_eq_some_iff.mp h
      obtain ⟨t, ht, rfl⟩ := Option.map_eq_some_iff.mp h'
      rw [ih hs ht]
      rw [Mem.slice_eq_iff]
      intro i hi
      rw [show p + 2 + i = p + (i + 2) by omega]
      exact heq (i + 2) (by omega)

lemma Reference.calc_size (ref : Reference) : calcMaskedBootOptionSize ref.size = ref.size + 24 :=
  addW_of_lt (by have := ref.fits; omega)

lemma Reference.strSize_eight (ref : Reference) :
    strSizeAt ref.data 8 ((ref.size - 8) / 2) = some (ref.descSize - 2) := by
  have hdesc := ref.desc
  have hpos := ref.nonempty
  have hle := strSize_bounds hdesc
  obtain ⟨k, hk⟩ : ∃ k, (ref.size - 6) / 2 = k + 1 := ⟨(ref.size - 6) / 2 - 1, by omega⟩
  have hk' : (ref.size - 8) / 2 = k := by omega
  rw [hk, strSizeAt] at hdesc
  rw [hk']
  split at hdesc
  · have := Option.some.inj hdesc
    omega
  · obtain ⟨t, ht, heq⟩ := Option.map_eq_some_iff.mp hdesc
    rw [ht, ← heq]
    simp

lemma checkMaskedHead_spec (ref : Reference) (hn : n = ref.size + 24) (hs : 6 + s ≤ n) :
    (checkMaskedHead c n ref.data s).Only (MaskRead.Inside n ref.size) ∧
      ((checkMaskedHead c n ref.data s).value = true ↔ MaskedHead c n ref.data s) := by
  have hfits := ref.fits
  have hhead := ref.head
  have hlength : calcMaskedBootOptionSize (ref.data.u16 4) = ref.data.u16 4 + 24 :=
    addW_of_lt (by have := ref.data.u16_lt 4; omega)
  unfold checkMaskedHead
  simp only [only_ite, only_bind, only_emit, only_pure, value_ite, value_bind,
    value_pure, MaskRead.Inside, implies_true, true_and, and_true, hlength]
  by_cases hnode : c.u16 (6 + s + 2) = 20
  · have hsize : subW 32 (c.u16 (6 + s + 2)) 4 = 16 := by rw [hnode]; rfl
    have hmin : addW 32 (6 + s + 4) 16 = 26 + s := by
      rw [addW_of_lt (by omega)]
      omega
    have hmin' : addW 32 (26 + s) 4 = 30 + s := by
      rw [addW_of_lt (by omega)]
      omega
    rw [hsize, hmin, hmin', hnode]
    refine ⟨fun h₁ => ⟨by omega, fun h₂ => ⟨by omega, fun _ h₃ => ⟨by omega, fun _ => ⟨by omega,
      fun _ => ⟨by omega, fun _ => ⟨by omega, by omega, fun _ => ⟨by omega, by omega⟩⟩⟩⟩⟩⟩⟩, ?_⟩
    simp only [Bool.if_false_left, Bool.and_eq_true, Bool.not_eq_true', decide_eq_true_eq, not_le,
      decide_eq_false_iff_not, not_or, not_not, not_true_eq_false, or_false, ne_eq, Bool.not_eq_false]
    constructor
    · rintro ⟨-, ⟨-, htype, hsub⟩, hguid, hroom, hend, hhidden, hattrs, hlen, hdesc⟩
      exact ⟨hroom, ⟨hhidden, hattrs⟩, hlen.symm, hdesc, ⟨htype, hsub, hnode, hguid⟩, hend⟩
    · rintro ⟨hroom, ⟨hhidden, hattrs⟩, hlen, hdesc, ⟨htype, hsub, -, hguid⟩, hend⟩
      exact ⟨by omega, ⟨by omega, htype, hsub⟩, hguid, hroom, hend, hhidden, hattrs, hlen.symm, hdesc⟩
  · have hsize : subW 32 (c.u16 (6 + s + 2)) 4 ≠ 16 := by
      have hlt := c.u16_lt (6 + s + 2)
      unfold subW
      omega
    simp only [hsize, ne_eq, not_false_eq_true, or_true, not_true_eq_false, false_imp_iff, and_true,
      if_true, ite_self]
    refine ⟨fun _ => by omega, iff_of_false (by decide) fun h => hnode h.vendor.2.2.1⟩

lemma readStrSize_of_some {event : ℕ → ℕ → MaskRead} {size : ℕ}
    (h : strSizeAt c p ((size - p) / 2) = some s) :
    readStrSize c event p size = (do .emit (event p s); return some s) := by
  rw [readStrSize, h]

lemma maskSound_of_strSize (ref : Reference) (hn : n = ref.size + 24)
    (hs : strSizeAt c 6 ((n - 6) / 2) = some s) :
    MaskSound c n ref ↔ (MaskedHead c n ref.data s → EndOk c n ref.data s) := by
  have hbounds := strSize_bounds hs
  have hfits := ref.fits
  have hrefBounds := strSize_bounds ref.desc
  have hnonempty := ref.nonempty
  obtain ⟨honly, hvalue⟩ := checkMaskedHead_spec (c := c) (s := s) ref hn (by omega)
  have hcalc : calcMaskedBootOptionSize ref.size = n := ref.calc_size.trans hn.symm
  unfold MaskSound checkMaskedBootOption
  rw [if_neg (not_not.mpr hcalc), readStrSize_of_some hs, readStrSize_of_some ref.strSize_eight]
  simp only [bind_assoc, pure_bind, only_bind, value_bind, only_emit, only_ite,
    value_ite, only_pure, value_pure, MaskRead.Inside, honly, true_and, and_true]
  by_cases hhead : MaskedHead c n ref.data s
  · obtain rfl : s = ref.descSize := strSize_unique hs ref.desc hhead.description
    have hroom := hhead.room
    have hoff : 8 + (ref.descSize - 2) = 6 + ref.descSize := by omega
    simp only [hvalue.mpr hhead, hoff, reduceCtorEq, false_imp_iff, true_and, not_false_eq_true,
      true_imp_iff, if_false]
    constructor
    · rintro ⟨⟨-, -, -, hcursor, -⟩, r, hr, hmasked⟩ _
      obtain rfl := Option.some.inj hr
      rcases Nat.lt_or_ge (c.u16 (6 + ref.descSize + 20 + 2)) 4 with hlt | hge
      · refine .inr ⟨hlt, fun htail => ?_⟩
        have := (hmasked (decide_eq_true htail)).endLength
        omega
      · left
        omega
    · intro h
      have hle : c.u16 (6 + ref.descSize + 20 + 2) ≤ 4 := by
        rcases h hhead with heq | ⟨hlt, -⟩ <;> omega
      refine ⟨⟨by omega, by omega, by omega, by omega, by omega⟩, _, rfl, fun hr => ?_⟩
      have htail := of_decide_eq_true hr
      rcases h hhead with heq | ⟨-, hne⟩
      · rw [heq] at htail
        exact ⟨hn, hhead, heq, htail⟩
      · exact absurd htail hne
  · have hfalse : (checkMaskedHead c n ref.data s).value = false := by simpa using hvalue.not.mpr hhead
    simp only [hfalse, hhead, false_imp_iff, iff_true, not_true_eq_false, and_true, if_true, implies_true]
    exact ⟨by omega, false, rfl, fun hr => absurd hr Bool.false_ne_true⟩

/-- The function reads inside both options, returns, and accepts masked options only, iff the
description of a candidate of the right size ends in it and the end node of one that is masked up to
there is all right. -/
theorem checkMaskedBootOption_sound_iff (c : Mem) (n : ℕ) (ref : Reference) :
    MaskSound c n ref ↔ (n = ref.size + 24 → ∃ s, strSizeAt c 6 ((n - 6) / 2) = some s ∧
      (MaskedHead c n ref.data s → EndOk c n ref.data s)) := by
  by_cases hn : n = ref.size + 24
  · cases hs : strSizeAt c 6 ((n - 6) / 2) with
    | some s =>
      rw [maskSound_of_strSize ref hn hs]
      simp [hn]
    | none =>
      refine iff_of_false (fun hsound => ?_) (by simp [hn])
      have hcalc : calcMaskedBootOptionSize ref.size = n := ref.calc_size.trans hn.symm
      have honly := hsound.1
      rw [checkMaskedBootOption, if_neg (not_not.mpr hcalc), readStrSize, hs] at honly
      have hread : 6 + (n + 1 - 6) ≤ n := by simpa [MaskRead.Inside] using honly
      omega
  · have hcalc : calcMaskedBootOptionSize ref.size ≠ n := ref.calc_size ▸ Ne.symm hn
    refine iff_of_true ?_ (absurd · hn)
    unfold MaskSound checkMaskedBootOption
    rw [if_pos hcalc]
    exact ⟨only_pure, false, rfl, nofun⟩

def shortOption : Reference where
  data := .ofBytes [1, 0, 0, 0, 4, 0, 0x61, 0, 0, 0, 0x7f, 0xff, 4, 0]
  size := 14
  descSize := 4
  fits := by decide
  head := by decide
  desc := by decide
  nonempty := by decide

/-- A candidate of the right size without the end of a description: `StrSize` reads on behind it. -/
theorem checkMaskedBootOption_reads_behind : ¬ MaskSound (fun _ => 0x61) 38 shortOption := by
  intro hsound
  have hread := hsound.1 (.candidate 6 33) (by decide)
  exact absurd hread (by decide : ¬ 6 + 33 ≤ 38)

end Shim.Fallback
