import Shim.Pe.Image

/-!
# `generate_hash`: what is fed to the digest

`generateHash f c` runs the tests of `generate_hash` and returns the file ranges it feeds to the
digest, in order, with the number of zero bytes appended (`HashInput`). The parts are those of the
source: `hashHeaders`, the section table with its insertion sort (`sortSections`), `hashSections` and
`hashTail`.
-/

namespace Shim.Pe

open Shim.Lib

/-- `VirtualAddress + Misc.VirtualSize - 1`, in 32 bits. -/
def SectionHeader.lastAddress (s : SectionHeader) : ℕ :=
  subW 32 (addW 32 s.virtualAddress s.virtualSize) 1

/-- `get_section_vma`: the base, the size and the header of section `i`. -/
def getSectionVma (m : Mem) (buffer : ℕ) (c : Context) (i : ℕ) :
    Except EfiStatus (ℕ × ℕ × SectionHeader) := do
  reject (c.numberOfSections ≤ i) .notFound
  let s := sectionAt m (c.sectionOffset i)
  let base := imageAddress buffer c.imageSize s.virtualAddress
  let last := imageAddress buffer c.imageSize s.lastAddress
  reject (s.has scnMemDiscardable = false ∧ base = 0) .unsupported
  reject (s.has scnMemDiscardable = false ∧ last = 0) .unsupported
  reject (s.has scnCntUninitializedData = false ∧
    (s.virtualAddress < c.sizeOfHeaders ∨ s.pointerToRawData < c.sizeOfHeaders)) .unsupported
  reject (last < base) .unsupported
  return (base, last - base, s)

/-! ## The digest input -/

/-- What goes into a digest. -/
structure HashInput where
  /-- The `(hashbase, hashsize)` pairs, `hashbase` as a file offset. -/
  ranges : List (ℕ × ℕ)
  pad : ℕ
  deriving DecidableEq

/-- The bytes of file ranges. -/
def rangeBytes (m : Mem) (rs : List (ℕ × ℕ)) : List UInt8 := rs.flatMap fun r => m.slice r.1 r.2

/-- The bytes that are hashed. -/
def HashInput.stream (h : HashInput) (m : Mem) : List UInt8 :=
  rangeBytes m h.ranges ++ List.replicate h.pad 0

/-- The byte at `o` is hashed. -/
def HashInput.Covers (h : HashInput) (o : ℕ) : Prop := ∃ r ∈ h.ranges, r.1 ≤ o ∧ o < r.1 + r.2

/-- Which allocations and digest calls succeed. -/
structure HashResources where
  contexts : Bool
  /-- `Sha256Init`, `Sha256Update`, `Sha256Final` and their SHA-1 siblings succeed. -/
  digest : Bool
  table : Bool

/-- All of them succeed. -/
def HashResources.ok : HashResources := ⟨true, true, true⟩

/-- The macro `check_size`. The sums do not wrap because the buffer is low enough
(`File.addr_fits`), so offsets can stand for the pointers. -/
def checkSize (f : File) (hashbase hashsize : ℕ) : Except EfiStatus Unit := do
  reject (f.datasize < hashbase) .invalidParameter
  reject (f.datasize < hashbase + hashsize) .invalidParameter

/-- The offset of `OptionalHeader.CheckSum`. -/
def Context.checkSum (c : Context) : ℕ := c.peHdr + 24 + 64

/-- The headers, without the checksum and the entry of the certificate table. -/
def hashHeaders (f : File) (c : Context) : Except EfiStatus (List (ℕ × ℕ)) := do
  let size₁ := c.checkSum % 2 ^ 32
  checkSize f 0 size₁
  let base₂ := c.checkSum + 4
  let size₂ := subW 32 c.secDir base₂
  checkSize f base₂ size₂
  let dd := c.secDir + 8
  let size₃ := subW 32 c.sizeOfHeaders dd
  reject (f.datasize < size₃) .invalidParameter
  checkSize f dd size₃
  return [(0, size₁), (base₂, size₂), (dd, size₃)]

/-- Fills in `NumberOfSections` and `FirstSection` when there are no sections:
`&section0[nsections-1]` is one header *before* the table when `nsections` is zero. -/
def refreshSections (f : File) (c : Context) : Except EfiStatus Context :=
  if c.numberOfSections = 0 then do
    let nsections := f.mem.u16 (c.peHdr + 6)
    let addr := f.eLfanew + 4 + 20 + f.mem.u16 (c.peHdr + 20)
    reject (imageAddress f.addr f.datasize addr = 0) .invalidParameter
    let addrN := subW 64 (addr + sizeofSectionHeader * nsections) sizeofSectionHeader
    reject (imageAddress f.addr f.datasize addrN = 0) .invalidParameter
    return { c with numberOfSections := nsections, firstSection := addr }
  else .ok c

/-- Where the insertion sort puts `s`: behind the last of the first entries that is not above it. -/
def insertPos (table : List SectionHeader) (s : SectionHeader) : ℕ → ℕ
  | 0 => 0
  | pos + 1 =>
    match table[pos]? with
    | some t => if s.pointerToRawData < t.pointerToRawData then insertPos table s pos else pos + 1
    | none => pos + 1

/-- A round of the loop that fills and sorts the section table. -/
def sortStep (f : File) (c : Context) (st : ℕ × List SectionHeader) (index : ℕ) :
    Except EfiStatus (ℕ × List SectionHeader) := do
  let (_, _, s) ← getSectionVma f.mem f.addr c index
  reject (subW 32 (subW 32 f.datasize c.sizeOfHeaders) st.1 < s.sizeOfRawData) .invalidParameter
  return (addW 32 st.1 s.sizeOfRawData, st.2.insertIdx (insertPos st.2 s st.2.length) s)

/-- The sorted section table, with the sum of its raw sizes. -/
def sortSections (f : File) (c : Context) : Except EfiStatus (ℕ × List SectionHeader) :=
  (List.range c.numberOfSections).foldlM (sortStep f c) (0, [])

/-- A round of the loop over the sorted table. -/
def hashStep (f : File) (st : ℕ × List (ℕ × ℕ)) (s : SectionHeader) :
    Except EfiStatus (ℕ × List (ℕ × ℕ)) :=
  if s.sizeOfRawData = 0 then .ok st
  else do
    reject (imageAddress f.addr f.datasize s.pointerToRawData = 0) .invalidParameter
    reject (subW 32 f.datasize s.pointerToRawData < s.sizeOfRawData) .invalidParameter
    checkSize f s.pointerToRawData s.sizeOfRawData
    return (addW 32 st.1 s.sizeOfRawData, st.2 ++ [(s.pointerToRawData, s.sizeOfRawData)])

/-- The raw data of the sections. -/
def hashSections (f : File) (c : Context) (table : List SectionHeader) :
    Except EfiStatus (ℕ × List (ℕ × ℕ)) :=
  table.foldlM (hashStep f) (c.sizeOfHeaders, [])

/-- What lies between the sections and the certificate table. -/
def hashToTable (f : File) (c : Context) (sum : ℕ) : Except EfiStatus (ℕ × List (ℕ × ℕ)) :=
  if sum < f.datasize ∧ f.dirSize c.secDir ≠ 0 then do
    let hashsize := subW 32 (subW 32 f.datasize (f.dirSize c.secDir)) sum
    reject (subW 32 f.datasize sum < f.dirSize c.secDir ∨
      addW 32 sum hashsize ≠ f.dirVirtualAddress c.secDir) .invalidParameter
    checkSize f sum hashsize
    return (addW 32 sum hashsize, [(sum, hashsize)])
  else .ok (sum, [])

/-- What is left if there is no table, padded to 8 bytes. -/
def hashRemaining (f : File) (c : Context) (sum : ℕ) : Except EfiStatus HashInput :=
  if addW 32 sum (f.dirSize c.secDir) < f.datasize then do
    let hashsize := subW 32 f.datasize sum
    checkSize f sum hashsize
    let sum' := addW 32 sum hashsize
    return ⟨[(sum, hashsize)], subW 32 (alignUp 32 sum' 8) sum'⟩
  else .ok ⟨[], 0⟩

/-- `generate_hash` -/
def generateHash (r : HashResources) (f : File) (c : Context) : Except EfiStatus HashInput := do
  reject (f.datasize ≤ sizeofDosHeader ∨ f.eMagic ≠ imageDosSignature) .invalidParameter
  reject (r.contexts = false) .outOfResources
  reject (r.digest = false) .outOfResources
  let head ← hashHeaders f c
  let c ← refreshSections f c
  reject (r.table = false) .outOfResources
  let (_, table) ← sortSections f c
  let (sum, body) ← hashSections f c table
  let (sum, toTable) ← hashToTable f c sum
  let rest ← hashRemaining f c sum
  return ⟨head ++ body ++ toTable ++ rest.ranges, rest.pad⟩

end Shim.Pe
