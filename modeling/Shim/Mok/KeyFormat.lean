import Shim.Mok.StateVariables
import Shim.Verify.SigDbThms

/-!
# The format of key databases

`MokList`, `MokListX` and the requests to change them are signature lists, one behind the other. The
functions that take them apart and put them together work on bytes; this module connects the bytes
with the lists as objects (`Verify.SignatureList`).
-/

namespace Shim.Verify

open Lib Mok List Mem SigDb SignatureList

def SignatureList.encode (l : SignatureList) : List UInt8 :=
  l.type ++ (u32Bytes l.size ++ (u32Bytes l.header.length ++ (u32Bytes l.entrySize ++
    (l.header ++ l.entries.flatten))))

def encodeLists (ls : List SignatureList) : List UInt8 := ls.flatMap encode

def SignatureList.signatures (l : SignatureList) : List (Guid × List UInt8) :=
  l.entries.map fun e => (l.type, e)

def SigDb.listSignatures (db : SigDb) (o : ℕ) : List (Guid × List UInt8) :=
  (db.mem.slots (db.slot o 0) (db.signatureSize o) (db.certCount o)).map fun e =>
    (db.signatureType o, e)

/-- The entries of `n` lists from `o` on, as far as the buffer goes. -/
def SigDb.signaturesFrom (db : SigDb) : ℕ → ℕ → List (Guid × List UInt8)
  | 0, _ => []
  | n + 1, o =>
    if db.size ≤ o ∨ db.size - o < db.signatureListSize o then []
    else db.listSignatures o ++ db.signaturesFrom n (o + db.signatureListSize o)

def SigDb.signatures (db : SigDb) : List (Guid × List UInt8) := db.signaturesFrom db.size 0

section

variable {db : SigDb} {o : ℕ} {l : SignatureList} {ls : List SignatureList}

@[simp] lemma length_u32Bytes (n : ℕ) : (u32Bytes n).length = 4 := length_numberBytes 4 n

lemma u32_of_slice_eq {m : Mem} {n : ℕ} (hn : n < 2 ^ 32) (h : m.slice o 4 = u32Bytes n) :
    m.u32 o = n := by
  unfold u32
  rw [load_of_slice_eq_store h]
  exact Nat.mod_eq_of_lt hn

lemma SignatureList.length_flatten (l : SignatureList) :
    l.entries.flatten.length = l.entries.length * l.entrySize := by
  rw [List.length_flatten, List.map_congr_left l.length_entry, List.map_const', List.sum_replicate,
    smul_eq_mul]

lemma SignatureList.length_encode (htype : l.type.length = 16) : l.encode.length = l.size := by
  unfold encode SignatureList.size
  simp only [length_append, length_u32Bytes, htype, l.length_flatten]
  omega

lemma SignatureList.entrySize_pos (l : SignatureList) : 0 < l.entrySize :=
  lt_of_lt_of_le (by decide) l.entrySize_ge

lemma SignatureList.length_signatures (l : SignatureList) :
    l.signatures.length = l.entries.length := length_map _

lemma SignatureList.size_pos (l : SignatureList) : 28 ≤ l.size := by
  unfold SignatureList.size
  omega

lemma SigDb.header_of_slice (db : SigDb) {type : Guid} {size headerSize entrySize n : ℕ}
    {data : List UInt8} (htype : type.length = 16) (hsize : size < 2 ^ 32)
    (hheader : headerSize < 2 ^ 32) (hentry : entrySize < 2 ^ 32)
    (h : db.mem.slice o (28 + n) =
      type ++ (u32Bytes size ++ (u32Bytes headerSize ++ (u32Bytes entrySize ++ data)))) :
    db.signatureType o = type ∧ db.signatureListSize o = size ∧
      db.signatureHeaderSize o = headerSize ∧ db.signatureSize o = entrySize ∧
      db.mem.slice (o + 28) n = data := by
  have hlen : 28 + n = 16 + (4 + (4 + (4 + n))) := by omega
  rw [hlen] at h
  simp only [slice_add] at h
  obtain ⟨htypes, h⟩ := append_inj h (by simp [htype])
  obtain ⟨hsizes, h⟩ := append_inj h (by simp)
  obtain ⟨hheaders, h⟩ := append_inj h (by simp)
  obtain ⟨hentries, hdata⟩ := append_inj h (by simp)
  exact ⟨htypes, u32_of_slice_eq hsize hsizes, u32_of_slice_eq hheader hheaders,
    u32_of_slice_eq hentry hentries, hdata⟩

lemma SigDb.holdsList_of_slice (htype : l.type.length = 16)
    (h : db.mem.slice o l.size = l.encode) : db.HoldsList o l := by
  have hlt := l.size_lt
  have hsize : l.size = 28 + (l.header.length + l.entries.length * l.entrySize) := by
    unfold SignatureList.size
    omega
  obtain ⟨htypes, hsizes, hheader, hentry, hdata⟩ := db.header_of_slice htype hlt
    (by omega : l.header.length < 2 ^ 32) l.entrySize_lt (hsize ▸ h)
  rw [slice_add] at hdata
  obtain ⟨hhead, hentries⟩ := append_inj hdata (by simp)
  refine ⟨htypes, hsizes, hheader, hentry, hhead, fun i hi => ?_⟩
  have hslots := slots_of_slice_eq l.length_entry hentries
  have hi' : i < (db.mem.slots (o + 28 + l.header.length) l.entrySize l.entries.length).length := by
    rwa [length_slots]
  have hslot : db.slot o i = o + 28 + l.header.length + i * l.entrySize := by
    unfold slot
    rw [hheader, hentry]
  rw [hslot, ← getElem_slots _ _ _ _ _ hi']
  exact getElem_of_eq hslots hi'

lemma SigDb.holdsFrom_of_slice (htype : ∀ l ∈ ls, l.type.length = 16)
    (h : db.mem.slice o (encodeLists ls).length = encodeLists ls)
    (hsize : db.size = o + (encodeLists ls).length) : db.HoldsFrom o ls := by
  induction ls generalizing o with
  | nil => exact hsize.symm
  | cons l ls ih =>
    obtain ⟨hl, hls⟩ := forall_mem_cons.mp htype
    have hcons : encodeLists (l :: ls) = l.encode ++ encodeLists ls := flatMap_cons
    rw [hcons, length_append, slice_add] at h
    obtain ⟨hfirst, hrest⟩ := append_inj h (length_slice _ _ _)
    rw [hcons, length_append] at hsize
    rw [length_encode hl] at hfirst hrest hsize
    exact ⟨holdsList_of_slice hl hfirst, ih hls hrest (by omega)⟩

lemma holds_encodeLists (htype : ∀ l ∈ ls, l.type.length = 16) :
    (SigDb.mk (ofBytes (encodeLists ls)) (encodeLists ls).length).Holds ls :=
  holdsFrom_of_slice htype (slice_ofBytes_self _) (Nat.zero_add _).symm

lemma SigDb.HoldsList.slot_zero (h : db.HoldsList o l) (hheader : l.header = []) :
    db.slot o 0 = o + sizeofSignatureList := by
  unfold slot
  rw [h.headerSize, hheader, Nat.zero_mul]
  rfl

lemma SigDb.HoldsList.slots_eq (h : db.HoldsList o l) :
    db.mem.slots (db.slot o 0) l.entrySize l.entries.length = l.entries := by
  refine ext_getElem (length_slots _ _ _ _) fun i hi hi' => ?_
  rw [getElem_slots, ← h.entries i hi']
  unfold slot
  rw [h.entrySize, Nat.zero_mul, Nat.add_zero]

lemma SigDb.HoldsList.listSignatures_eq (h : db.HoldsList o l) :
    db.listSignatures o = l.signatures := by
  unfold listSignatures SignatureList.signatures
  rw [h.type, h.entrySize, h.certCount_eq, h.slots_eq]

lemma SigDb.HoldsFrom.signaturesFrom_eq {n : ℕ} (h : db.HoldsFrom o ls) (hn : ls.length ≤ n) :
    db.signaturesFrom n o = ls.flatMap SignatureList.signatures := by
  induction ls generalizing o n with
  | nil =>
    have hend : o = db.size := h
    cases n with
    | zero => rfl
    | succ n => rw [signaturesFrom, if_pos (.inl (le_of_eq hend.symm)), flatMap_nil]
  | cons l ls ih =>
    obtain ⟨n, rfl⟩ : ∃ k, n = k + 1 := ⟨n - 1, by rw [length_cons] at hn; omega⟩
    have hin := h.1.fits h.2
    rw [signaturesFrom, if_neg (by omega), h.1.listSignatures_eq, h.1.size,
      ih h.2 (Nat.succ_le_succ_iff.mp hn), flatMap_cons]

lemma SigDb.HoldsFrom.length_le (h : db.HoldsFrom o ls) : o + ls.length ≤ db.size := by
  induction ls generalizing o with
  | nil => exact le_of_eq h
  | cons l ls ih =>
    have hrest := ih h.2
    have hpos := l.size_pos
    rw [length_cons]
    omega

lemma SigDb.signatures_of_holds (h : db.Holds ls) :
    db.signatures = ls.flatMap SignatureList.signatures :=
  SigDb.HoldsFrom.signaturesFrom_eq h (by have := SigDb.HoldsFrom.length_le h; omega)

end

end Shim.Verify
