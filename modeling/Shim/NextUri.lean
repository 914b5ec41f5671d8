import Shim.Efi
import Shim.Lib.CStr

/-!
# The URI of the next loader

Behind HTTP boot the second stage is fetched from the server of the first. `generate_next_uri` cuts
the URI of the first behind its last slash and appends the name of the loader; `extract_hostname`
takes the host from the result. Strings are lists without their `NUL`.
-/

namespace Shim.HttpBoot

open Lib List

def uriSlash : UInt8 := 0x2f

def uriScheme (uri : List UInt8) : Option (List UInt8) :=
  if (ofText "http://").isPrefixOf uri then some (ofText "http://")
  else if (ofText "https://").isPrefixOf uri then some (ofText "https://")
  else none

def pathLength (count pathLen : ℕ) : List UInt8 → ℕ
  | [] => pathLen
  | c :: cs => pathLength (count + 1) (if c = uriSlash then count + 1 else pathLen) cs

def generateNextUri (alloc : Bool) (current next : List UInt8) : Except EfiStatus (List UInt8) :=
  match uriScheme current with
  | none => .error .invalidParameter
  | some scheme =>
    let pathLen := pathLength scheme.length 0 (current.drop scheme.length)
    if alloc then .ok (current.take pathLen ++ next) else .error .outOfResources

def extractHostname (alloc : Bool) (url : List UInt8) : Except EfiStatus (List UInt8) :=
  match uriScheme url with
  | none => .error .invalidParameter
  | some scheme =>
    if alloc then .ok ((url.drop scheme.length).takeWhile (· ≠ uriSlash)) else .error .outOfResources

structure SameServer (current uri : List UInt8) : Prop where
  scheme : uriScheme uri = uriScheme current
  host : ∃ host, extractHostname true current = .ok host ∧ extractHostname true uri = .ok host
  directory : ∀ scheme dir file, current = scheme ++ dir ++ uriSlash :: file →
    uriScheme current = some scheme → uriSlash ∉ file → scheme ++ dir ++ [uriSlash] <+: uri

def HasPath (uri : List UInt8) : Prop :=
  ∃ scheme, uriScheme uri = some scheme ∧ uriSlash ∈ uri.drop scheme.length

variable {scheme dir file uri current next : List UInt8} {count pathLen : ℕ}

lemma uriScheme_append (h : uriScheme uri = some scheme) :
    (∃ rest, uri = scheme ++ rest) ∧ ∀ rest, uriScheme (scheme ++ rest) = some scheme := by
  unfold uriScheme at h
  split_ifs at h with hhttp hhttps
  · obtain rfl := Option.some.inj h
    obtain ⟨rest, hrest⟩ := isPrefixOf_iff_prefix.mp hhttp
    exact ⟨⟨rest, hrest.symm⟩, fun rest => if_pos (by simp)⟩
  obtain rfl := Option.some.inj h
  obtain ⟨rest, hrest⟩ := isPrefixOf_iff_prefix.mp hhttps
  refine ⟨⟨rest, hrest.symm⟩, fun rest => ?_⟩
  -- the fifth character tells the schemes apart
  have hne : (ofText "http://").isPrefixOf (ofText "https://" ++ rest) = false := rfl
  rw [uriScheme, hne]
  exact (if_neg Bool.false_ne_true).trans (if_pos (by simp))

lemma pathLength_of_not_mem (h : uriSlash ∉ file) : pathLength count pathLen file = pathLen := by
  induction file generalizing count with
  | nil => rfl
  | cons c file ih =>
    rw [pathLength, if_neg (ne_of_not_mem_cons h).symm, ih (not_mem_of_not_mem_cons h)]

lemma pathLength_append (h : uriSlash ∉ file) :
    pathLength count pathLen (dir ++ uriSlash :: file) = count + dir.length + 1 := by
  induction dir generalizing count pathLen with
  | nil => rw [nil_append, pathLength, if_pos rfl, pathLength_of_not_mem h, length_nil]
  | cons c dir ih =>
    rw [cons_append, pathLength, ih, length_cons]
    omega

lemma generateNextUri_append (h : uriScheme (scheme ++ dir ++ uriSlash :: file) = some scheme)
    (hfile : uriSlash ∉ file) :
    generateNextUri true (scheme ++ dir ++ uriSlash :: file) next =
      .ok (scheme ++ dir ++ uriSlash :: next) := by
  have hdrop : (scheme ++ dir ++ uriSlash :: file).drop scheme.length = dir ++ uriSlash :: file := by
    simp
  have htake : (scheme ++ dir ++ uriSlash :: file).take (scheme.length + dir.length + 1) =
      scheme ++ dir ++ [uriSlash] := by
    rw [append_cons _ uriSlash file]
    exact take_left' (by simp [Nat.add_assoc])
  simp only [generateNextUri, h, hdrop, pathLength_append hfile, htake]
  simp

lemma extractHostname_append (h : ∀ rest, uriScheme (scheme ++ rest) = some scheme)
    (rest : List UInt8) :
    extractHostname true (scheme ++ dir ++ uriSlash :: rest) =
      .ok (dir.takeWhile (· ≠ uriSlash)) := by
  simp only [extractHostname, append_assoc, h, drop_left, takeWhile_append, if_true]
  split
  · rename_i hlength
    rw [(List.takeWhile_prefix _).eq_of_length hlength]
    simp
  · rfl

/-- The next URI is of the same server and directory iff there is a slash behind the scheme of the
current one. Without one `path_len` is still zero, and the next URI is the name alone. -/
theorem generateNextUri_sameServer_iff (current next uri : List UInt8) (hnext : uriScheme next = none)
    (h : generateNextUri true current next = .ok uri) :
    SameServer current uri ↔ HasPath current := by
  cases hscheme : uriScheme current with
  | none => simp [generateNextUri, hscheme] at h
  | some scheme =>
    obtain ⟨⟨rest, rfl⟩, hall⟩ := uriScheme_append hscheme
    by_cases hslash : uriSlash ∈ rest
    · have hpath : HasPath (scheme ++ rest) := ⟨scheme, hscheme, by simpa using hslash⟩
      refine iff_of_true ?_ hpath
      obtain ⟨file, dir, hrest, hfile⟩ := eq_append_cons_of_mem (mem_reverse.mpr hslash)
      obtain rfl : rest = dir.reverse ++ uriSlash :: file.reverse := by
        rw [← reverse_reverse rest, hrest]
        simp
      rw [← mem_reverse] at hfile
      rw [← append_assoc] at h hscheme ⊢
      rw [generateNextUri_append hscheme hfile] at h
      obtain rfl := Except.ok.inj h
      refine ⟨?_, ?_, ?_⟩
      · rw [hscheme, append_assoc, hall]
      · exact ⟨_, extractHostname_append hall _, extractHostname_append hall _⟩
      · intro scheme' dir' file' hcut hscheme' hfile'
        rw [hscheme'] at hscheme
        obtain rfl := Option.some.inj hscheme
        -- a second cut at the last slash is the same cut
        have hnext' : generateNextUri true _ next = _ :=
          generateNextUri_append (hcut ▸ hscheme') hfile'
        rw [← hcut, generateNextUri_append hscheme' hfile] at hnext'
        rw [Except.ok.inj hnext']
        exact ⟨next, by simp⟩
    · have hpath : ¬ HasPath (scheme ++ rest) := by
        rintro ⟨scheme', hscheme', hmem⟩
        rw [hscheme'] at hscheme
        obtain rfl := Option.some.inj hscheme
        exact hslash (by simpa using hmem)
      refine iff_of_false (fun hsame => ?_) hpath
      have huri : uri = next := by
        simp only [generateNextUri, hscheme, drop_left, pathLength_of_not_mem hslash] at h
        simpa using h.symm
      rw [huri] at hsame
      have hboth := hsame.scheme
      rw [hnext, hscheme] at hboth
      cases hboth

theorem generateNextUri_with_path : uriScheme (ofText "grubx64.efi") = none ∧
      SameServer (ofText "http://boot/efi/shim.efi") (ofText "http://boot/efi/grubx64.efi") := by
  have hnext : uriScheme (ofText "grubx64.efi") = none := by decide +kernel
  refine ⟨hnext, (generateNextUri_sameServer_iff _ _ _ hnext (by decide +kernel)).mpr ?_⟩
  exact ⟨ofText "http://", by decide +kernel, by decide +kernel⟩

/-- A URI of a host alone: of the next one only the name of the loader is there. -/
theorem generateNextUri_without_path :
    generateNextUri true (ofText "http://192.168.0.1") (ofText "grubx64.efi") =
        .ok (ofText "grubx64.efi") ∧
      extractHostname true (ofText "http://192.168.0.1") = .ok (ofText "192.168.0.1") ∧
      extractHostname true (ofText "grubx64.efi") = .error .invalidParameter := by
  decide +kernel

end Shim.HttpBoot
