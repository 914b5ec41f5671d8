import Mathlib.Data.List.DropRight
import Shim.Lib.Buffer
import Shim.Lib.CStr
import Shim.Lib.Loop

/-!
# What a network boot reads from the DHCP replies

Over IPv6 the location of the boot file is the payload of an option, which `get_v6_bootfile_url` finds
by walking the options of the packet. Over IPv4 it is a field of 128 bytes, and `parseDhcp4` puts the
name of the next loader in the place of the file in it.
-/

namespace Shim.Netboot

open Lib List Run Mem Run.Ensures

/-! ## The options of a DHCPv6 packet -/

def dhcpOptionsSize : ℕ := 1024

def sizeofOption : ℕ := 6

def ntohs (m : Mem) (off : ℕ) : ℕ := 256 * (m off).toNat + (m (off + 1)).toNat

/-- One round of the loop, at an option. The result has the `NUL` that `AllocateZeroPool` leaves. -/
def optionRound (alloc : ℕ → Bool) (m : Mem) (optr : ℕ) :
    Run Access Empty (ℕ ⊕ Option (List UInt8)) := do
  .emit (.read optr 2)
  if ntohs m optr = 0 then return .inr none
  else if ntohs m optr = 59 then do
    .emit (.read (optr + 2) 2)
    let urllen := ntohs m (optr + 2)
    if dhcpOptionsSize < optr + 4 + urllen then return .inr none
    else if alloc (urllen + 1) = false then return .inr none
    else do
      .emit (.read (optr + 4) urllen)
      return .inr (some (m.slice (optr + 4) urllen ++ [0]))
  else do
    .emit (.read (optr + 2) 2)
    let next := optr + 4 + ntohs m (optr + 2)
    if dhcpOptionsSize < next + sizeofOption then return .inr none
    else return .inl next

def getV6BootfileUrl (alloc : ℕ → Bool) (m : Mem) : Run Access Empty (Option (Option (List UInt8))) :=
  Run.loop (optionRound alloc m) (dhcpOptionsSize + 1) 0

def InOptions : Access → Prop
  | .read off len => off + len ≤ dhcpOptionsSize
  | .write _ _ => False

def optionOffset (m : Mem) : ℕ → ℕ
  | 0 => 0
  | k + 1 => optionOffset m k + 4 + ntohs m (optionOffset m k + 2)

def IsFirstUrl (m : Mem) (k : ℕ) : Prop :=
  ntohs m (optionOffset m k) = 59 ∧ ∀ j < k, ntohs m (optionOffset m j) ≠ 59

lemma optionRound_ensures {alloc : ℕ → Bool} {m : Mem} {k : ℕ}
    (hin : optionOffset m k + sizeofOption ≤ dhcpOptionsSize)
    (hbefore : ∀ j < k, ntohs m (optionOffset m j) ≠ 59) :
    Run.Ensures InOptions (optionRound alloc m (optionOffset m k)) fun
      | .inl next => next = optionOffset m (k + 1) ∧ next + sizeofOption ≤ dhcpOptionsSize ∧
          ∀ j < k + 1, ntohs m (optionOffset m j) ≠ 59
      | .inr url => ∀ bytes, url = some bytes → IsFirstUrl m k ∧
          bytes = m.slice (optionOffset m k + 4) (ntohs m (optionOffset m k + 2)) ++ [0] := by
  unfold sizeofOption at hin
  refine emit_bind (show _ + 2 ≤ _ by omega) (ensures_ite ?_ fun _ => ?_)
  · exact fun _ => ensures_pure nofun
  refine ensures_ite (fun hurl => ?_) fun hother => ?_
  · refine emit_bind (show _ + 2 + 2 ≤ _ by omega) (ensures_ite ?_ fun hfits => ?_)
    · exact fun _ => ensures_pure nofun
    refine ensures_ite (fun _ => ensures_pure nofun) fun _ => ?_
    refine emit_bind (Nat.le_of_not_lt hfits) (ensures_pure ?_)
    intro bytes hbytes
    exact ⟨⟨hurl, hbefore⟩, (Option.some.inj hbytes).symm⟩
  · refine emit_bind (show _ + 2 + 2 ≤ _ by omega) (ensures_ite ?_ fun hnext => ?_)
    · exact fun _ => ensures_pure nofun
    refine ensures_pure ⟨rfl, Nat.le_of_not_lt hnext, fun j hj => ?_⟩
    rcases Nat.lt_succ_iff_lt_or_eq.mp hj with hj | rfl
    · exact hbefore j hj
    · exact hother

/-- For every content of the packet, the function returns, reads inside the options only, and a result
is the payload of the first option 59, with a `NUL` behind it. -/
theorem getV6BootfileUrl_sound (alloc : ℕ → Bool) (m : Mem) :
    Run.Ensures InOptions (getV6BootfileUrl alloc m) fun r => ∃ url, r = some url ∧
      ∀ bytes, url = some bytes → ∃ k, IsFirstUrl m k ∧
        bytes = m.slice (optionOffset m k + 4) (ntohs m (optionOffset m k + 2)) ++ [0] := by
  refine ensures_loop (μ := fun optr => dhcpOptionsSize - optr)
    (I := fun optr => ∃ k, optr = optionOffset m k ∧ optr + sizeofOption ≤ dhcpOptionsSize ∧
      ∀ j < k, ntohs m (optionOffset m j) ≠ 59) ?_ ⟨0, rfl, by decide, nofun⟩ (Nat.lt_succ_self _)
  rintro _ ⟨k, rfl, hin, hbefore⟩
  obtain ⟨⟨x, hx, hpost⟩, honly⟩ := @optionRound_ensures alloc m k hin hbefore
  refine ⟨⟨x, hx, ?_⟩, honly⟩
  rcases x with next | url
  · obtain ⟨rfl, hnext, hother⟩ := hpost
    refine ⟨⟨k + 1, rfl, hnext, hother⟩, ?_⟩
    simp only [optionOffset] at hnext ⊢
    unfold sizeofOption at hnext
    omega
  · exact fun bytes hbytes => ⟨k, hpost bytes hbytes⟩

/-! ## The path of a DHCPv4 reply -/

abbrev CString := { s : List UInt8 // 0 ∉ s }

def slash : UInt8 := 0x2f

def backslash : UInt8 := 0x5c

def translateSlashes : List UInt8 → List UInt8
  | [] => []
  | [c] => [if c = backslash then slash else c]
  | c :: d :: s =>
    if c = backslash ∧ d = backslash then slash :: translateSlashes s
    else (if c = backslash then slash else c) :: translateSlashes (d :: s)

structure PxeMode where
  dhcpAck : Mem
  proxyOffer : Mem
  pxeReply : Mem
  proxyOfferReceived : Bool
  pxeReplyReceived : Bool

def PxeMode.bootFileField (mode : PxeMode) : Mem :=
  let pkt := if mode.proxyOfferReceived ∧ mode.dhcpAck 0 = 0 then mode.proxyOffer else mode.dhcpAck
  if mode.pxeReplyReceived ∧ pkt 0 = 0 ∧ mode.pxeReply 0 ≠ 0 then mode.pxeReply else pkt

def isSep (c : UInt8) : Bool := c = slash || c = backslash

def dirLength (dir : Mem) : ℕ → ℕ
  | 0 => if isSep (dir 0) then 1 else 0
  | i + 1 => if isSep (dir (i + 1)) then i + 2 else dirLength dir i

def strncpy (dest : List UInt8) (src : Mem) (n : ℕ) : Except OutOfRange (List UInt8) :=
  let k := src.scan (· == 0) 0 n
  if k < n then
    if k < dest.length then .ok (src.slice 0 k ++ 0 :: dest.drop (k + 1)) else .error ⟨k⟩
  else if n ≤ dest.length then .ok (src.slice 0 n ++ dest.drop n) else .error ⟨n⟩

/-- The directory in `full_path`, and the template behind it: a separator goes if the template
starts with a slash, which becomes the same separator. -/
def placeDirectory (fullPath : List UInt8) (dir : Mem) (dirLen : ℕ) (template : List UInt8) :
    Except OutOfRange (List UInt8 × List UInt8) := do
  let fullPath ← strncpy fullPath dir dirLen
  let last ← readAt fullPath (dirLen - 1)
  let first ← readAt template 0
  if last = slash ∧ first = slash then return (← writeAt fullPath (dirLen - 1) 0, template)
  else if last = backslash ∧ first = slash then
    return (← writeAt fullPath (dirLen - 1) 0, ← writeAt template 0 backslash)
  else return (fullPath, template)

def parseDhcp4 (mode : PxeMode) (name : List UInt8) : Except OutOfRange (List UInt8) := do
  let template := translateSlashes name ++ [0]
  let dir := mode.bootFileField
  let dirLen := dirLength dir (dir.scan (· == 0) 0 127)
  let fullPath := List.replicate (dirLen + template.length) 0
  if 0 < dirLen then do
    let (fullPath, template) ← placeDirectory fullPath dir dirLen template
    strCat fullPath template
  else do
    let first ← readAt template 0
    strCat fullPath (if dir 0 ≠ slash ∧ first = slash then template.drop 1 else template)

def bootFile (dir : Mem) : List UInt8 := dir.slice 0 (dir.scan (· == 0) 0 128)

def throughLastSep (s : List UInt8) : List UInt8 := s.rdropWhile fun c => !isSep c

def dropSlash : List UInt8 → List UInt8
  | [] => []
  | c :: s => if c = slash then s else c :: s

lemma not_mem_translateSlashes {s : List UInt8} (hs : 0 ∉ s) : 0 ∉ translateSlashes s := by
  have hslash : (0 : UInt8) ≠ slash := by decide
  have htranslated : ∀ c : UInt8, c ≠ 0 → 0 ≠ if c = backslash then slash else c := by
    intro c hc
    split
    · exact hslash
    · exact hc.symm
  fun_induction translateSlashes s with
  | case1 => exact hs
  | case2 c =>
    simp only [mem_singleton] at hs ⊢
    exact htranslated c (Ne.symm hs)
  | case3 c d s _ ih =>
    simp only [mem_cons, not_or] at hs ⊢
    exact ⟨hslash, ih hs.2.2⟩
  | case4 c d s _ ih =>
    rw [mem_cons, not_or] at hs ⊢
    exact ⟨htranslated c (Ne.symm hs.1), ih hs.2⟩

lemma dropSlash_cases (t : List UInt8) :
    (∃ r, t = slash :: r) ∨ ∃ c q, t ++ [0] = c :: q ∧ c ≠ slash ∧ dropSlash t = t := by
  cases t with
  | nil => exact .inr ⟨0, [], rfl, by decide, rfl⟩
  | cons c r =>
    by_cases hc : c = slash
    · exact .inl ⟨r, by rw [hc]⟩
    · exact .inr ⟨c, r ++ [0], rfl, hc, if_neg hc⟩

lemma throughLastSep_concat (s : List UInt8) (c : UInt8) :
    throughLastSep (s ++ [c]) = if isSep c then s ++ [c] else throughLastSep s := by
  unfold throughLastSep
  rw [rdropWhile_concat]
  cases isSep c <;> rfl

lemma slice_concat (dir : Mem) (n : ℕ) : dir.slice 0 (n + 1) = dir.slice 0 n ++ [dir n] := by
  rw [slice_add, Nat.zero_add]
  rfl

lemma slice_dirLength (dir : Mem) (n : ℕ) :
    dir.slice 0 (dirLength dir n) = throughLastSep (dir.slice 0 (n + 1)) := by
  induction n with
  | zero =>
    rw [dirLength, slice_concat, throughLastSep_concat]
    split
    · exact slice_concat dir 0
    · rfl
  | succ n ih =>
    rw [dirLength, slice_concat, throughLastSep_concat, ← ih]
    split
    · exact slice_concat dir (n + 1)
    · rfl

lemma isSep_dirLength (dir : Mem) (n : ℕ) : match dirLength dir n with
    | 0 => isSep (dir 0) = false
    | d + 1 => isSep (dir d) = true := by
  induction n with
  | zero => cases h : isSep (dir 0) <;> simp [dirLength, h]
  | succ n ih =>
    rw [dirLength]
    cases h : isSep (dir (n + 1)) with
    | true => simpa using h
    | false => simpa using ih

lemma slice_dirLength_scan (dir : Mem) :
    dir.slice 0 (dirLength dir (dir.scan (· == 0) 0 127)) = throughLastSep (bootFile dir) := by
  obtain ⟨hbefore, hstop⟩ := scan_spec dir (· == 0) 0 127
  have hle := scan_le dir (· == 0) 0 127
  rw [slice_dirLength, bootFile]
  generalize dir.scan (· == 0) 0 127 = n at *
  simp only [Nat.zero_add, beq_eq_false_iff_ne, beq_iff_eq] at hbefore hstop
  by_cases hnul : dir n = 0
  · have hscan : dir.scan (· == 0) 0 128 = n :=
      scan_unique (by omega) (by simpa using hbefore) (.inr (by simpa using hnul))
    rw [hscan, slice_concat, throughLastSep_concat, hnul]
    rfl
  obtain rfl : n = 127 := by
    rcases hstop with h | h
    · exact h
    · exact absurd h hnul
  have hscan : dir.scan (· == 0) 0 128 = 128 := by
    refine scan_unique le_rfl (fun j hj => ?_) (.inl rfl)
    rw [Nat.zero_add, beq_eq_false_iff_ne]
    rcases Nat.lt_succ_iff_lt_or_eq.mp hj with hj | rfl
    · exact hbefore j hj
    · exact hnul
  rw [hscan]

lemma not_mem_throughLastSep (dir : Mem) : 0 ∉ throughLastSep (bootFile dir) := by
  intro hmem
  have hfile : 0 ∈ bootFile dir := (List.rdropWhile_prefix _ _).subset hmem
  obtain ⟨j, hj, hzero⟩ := mem_iff_getElem.mp hfile
  rw [bootFile, length_slice] at hj
  have hne := (scan_spec dir (· == 0) 0 128).1 j hj
  simp only [bootFile, getElem_slice] at hzero
  rw [hzero] at hne
  cases hne

section

variable {dir : Mem} {d : ℕ} {t : List UInt8}

section

variable (h : 0 ∉ dir.slice 0 (d + 1))
include h

lemma strncpy_zeros (k : ℕ) :
    strncpy (List.replicate (d + 1 + k) 0) dir (d + 1) =
      .ok (dir.slice 0 d ++ dir d :: List.replicate k 0) := by
  have hscan : dir.scan (· == 0) 0 (d + 1) = d + 1 := by
    refine scan_unique le_rfl (fun j hj => ?_) (.inl rfl)
    rw [beq_eq_false_iff_ne]
    intro hzero
    exact h (mem_iff_getElem.mpr ⟨j, by simpa using hj, by simpa using hzero⟩)
  simp [strncpy, hscan, slice_concat]

lemma placeDirectory_slash (hsep : isSep (dir d) = true) :
    placeDirectory (List.replicate (d + 1 + (slash :: t ++ [0]).length) 0) dir (d + 1)
        (slash :: t ++ [0]) =
      .ok (dir.slice 0 d ++ 0 :: List.replicate (slash :: t ++ [0]).length 0, dir d :: t ++ [0]) := by
  have hlast : ((d + 1 : ℕ) : ℤ) - 1 = (dir.slice 0 d).length := by simp
  have hfirst : readAt (slash :: t ++ [0]) 0 = .ok slash := readAt_append (l := []) rfl _ _
  have hwrite : writeAt (slash :: t ++ [0]) 0 backslash = .ok (backslash :: t ++ [0]) :=
    writeAt_append (l := []) rfl _ _ _
  simp only [placeDirectory, strncpy_zeros h, ok_bind, readAt_append hlast, hfirst,
    writeAt_append hlast, hwrite]
  by_cases hslash : dir d = slash
  · simp [hslash, pure, Except.pure]
  · have hback : dir d = backslash := by simpa [isSep, hslash] using hsep
    simp [hback, pure, Except.pure]
    decide

lemma placeDirectory_of_ne {c : UInt8} (hc : c ≠ slash) (k : ℕ) :
    placeDirectory (List.replicate (d + 1 + k) 0) dir (d + 1) (c :: t) =
      .ok (dir.slice 0 (d + 1) ++ List.replicate k 0, c :: t) := by
  have hlast : ((d + 1 : ℕ) : ℤ) - 1 = (dir.slice 0 d).length := by simp
  have hfirst : readAt (c :: t) 0 = .ok c := readAt_append (l := []) rfl _ _
  simp only [placeDirectory, strncpy_zeros h, ok_bind, readAt_append hlast, hfirst]
  simp [hc, slice_concat, pure, Except.pure]

end

lemma strCat_zeros {s : List UInt8} {k : ℕ} (hs : 0 ∉ s) (ht : 0 ∉ t) (hk : t.length < k) :
    ∃ rest, strCat (s ++ List.replicate k 0) (t ++ [0]) = .ok (s ++ t ++ 0 :: rest) := by
  obtain ⟨k, rfl⟩ : ∃ n, k = n + 1 := ⟨k - 1, by omega⟩
  rw [replicate_succ]
  exact ⟨_, strCat_of_text hs ht (by simpa using Nat.le_of_lt_succ hk) []⟩

end

/-- The path in the buffer is the boot file name of the chosen reply through its last separator, and
the translated name without one slash at its start. No access is outside of its buffer. -/
theorem parseDhcp4_path (mode : PxeMode) (name : CString) : ∃ rest, parseDhcp4 mode name.1 =
      .ok (throughLastSep (bootFile mode.bootFileField) ++ dropSlash (translateSlashes name.1) ++
        0 :: rest) := by
  have ht := not_mem_translateSlashes name.2
  have hdir := slice_dirLength_scan mode.bootFileField
  have hnul := not_mem_throughLastSep mode.bootFileField
  have hsep := isSep_dirLength mode.bootFileField (mode.bootFileField.scan (· == 0) 0 127)
  unfold parseDhcp4
  dsimp only
  generalize translateSlashes name.1 = t at *
  generalize mode.bootFileField = dir at *
  rw [← hdir] at hnul ⊢
  generalize dirLength dir (dir.scan (· == 0) 0 127) = dirLen at *
  rcases dropSlash_cases t with ⟨r, rfl⟩ | ⟨c, q, hq, hc, hdrop⟩
  · -- the name starts with a slash
    have hr : 0 ∉ r := not_mem_of_not_mem_cons ht
    cases dirLen with
    | zero =>
      have hfirst : dir 0 ≠ slash := fun h => by simp [h, isSep] at hsep
      have hread : readAt (slash :: r ++ [0]) 0 = .ok slash := readAt_append (l := []) rfl _ _
      obtain ⟨rest, hcat⟩ := strCat_zeros (s := []) (k := (slash :: r ++ [0]).length)
        not_mem_nil hr (by simp)
      refine ⟨rest, ?_⟩
      rw [if_neg (lt_irrefl 0), hread, ok_bind, Nat.zero_add]
      simpa [hfirst, dropSlash] using hcat
    | succ d =>
      have hsplit := slice_concat dir d
      have hlast : 0 ∉ dir.slice 0 d ∧ 0 ∉ dir d :: r := by
        simp only [hsplit, mem_append, mem_cons, not_or] at hnul ⊢
        exact ⟨hnul.1, hnul.2.1, hr⟩
      obtain ⟨rest, hcat⟩ := strCat_zeros (k := (slash :: r ++ [0]).length + 1) hlast.1 hlast.2
        (by simp)
      refine ⟨rest, ?_⟩
      rw [if_pos (Nat.succ_pos d), placeDirectory_slash hnul hsep, ok_bind]
      simpa [hsplit, dropSlash, replicate_succ] using hcat
  · rw [hdrop]
    have hread : readAt (c :: q) 0 = .ok c := readAt_append (l := []) rfl _ _
    have hlen : t.length < (c :: q).length := by simp [← hq]
    obtain ⟨rest, hcat⟩ := strCat_zeros hnul ht hlen
    rw [hq] at hcat ⊢
    cases dirLen with
    | zero => exact ⟨rest, by simpa [hread, ok_bind, hc] using hcat⟩
    | succ d =>
      refine ⟨rest, ?_⟩
      rw [if_pos (Nat.succ_pos d), placeDirectory_of_ne hnul hc, ok_bind]
      exact hcat

/-- A boot file name with backslashes, and a loader name that starts with one. -/
example : (parseDhcp4 ⟨Mem.ofBytes (ofText "efi\\shim.efi"), fun _ => 0, fun _ => 0, false, false⟩
    (ofText "\\grub.efi")).toOption.map (fun path => path.takeWhile (· ≠ 0)) =
      some (ofText "efi\\grub.efi") := by
  decide +kernel

end Shim.Netboot
