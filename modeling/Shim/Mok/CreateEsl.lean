import Shim.Mok.MirrorDb

/-!
# Signature lists that are created

`variable_create_esl` makes a list of the signatures of an array, and
`variable_create_esl_with_one_signature` a list of one signature with the data that it gets. Both ask for
the size first, and fill a buffer of that size then.
-/

namespace Shim.Mok.CreateEsl

open Lib Verify Mem

/-- The status of a call, what it leaves at `out`, and `*outlen`. -/
structure Result where
  status : EfiStatus
  out : Option Mem
  outlen : ℕ

def fillEsl (firstSig : Mem) (howmany : ℕ) (type : Guid) (sigSize : ℕ) (out : Option Mem)
    (outlen : ℕ) : Result :=
  match Mok.fillEsl type sigSize howmany (firstSig.slice 0 (howmany * sigSize)) with
  | .error status => ⟨status, out, outlen⟩
  | .ok (needed, stores) =>
    match out with
    | none => ⟨.bufferTooSmall, none, needed⟩
    | some m =>
      if outlen < needed then ⟨.bufferTooSmall, some m, needed⟩
      else ⟨.success, some (m.writes stores), needed⟩

def create (alloc : ℕ → Bool) (fill : Option Mem → ℕ → Result) : Result :=
  let r := fill none 0
  if r.status ≠ .bufferTooSmall then r
  else if alloc r.outlen = false then ⟨.outOfResources, none, r.outlen⟩
  else fill (some zeroPool) r.outlen

structure Args where
  alloc : ℕ → Bool
  type : Guid
  length_type : type.length = sizeofGuid
  firstSig : Mem
  howmany : ℕ
  sigSize : ℕ
  /-- The data of one signature, and its owner. -/
  data : Mem
  dataLen : ℕ
  owner : Option Guid
  length_owner : ∀ g ∈ owner, g.length = sizeofGuid

namespace Args

variable (a : Args)

def variableCreateEsl : Result := create a.alloc (fillEsl a.firstSig a.howmany a.type a.sigSize)

def sd (dataLen : ℕ) : Mem := zeroPool.writes (oneSignature a.owner (a.data.slice 0 dataLen)).2

def fillEslWithOneSignature (dataLen : ℕ) (out : Option Mem) (outlen : ℕ) : Result :=
  let sigSize := (sizeofSignatureData - 1 + dataLen) % 2 ^ 32
  if 2 ^ 32 - 1 - sizeofSignatureData + 1 < dataLen then ⟨.invalidParameter, out, outlen⟩
  else if out.isSome ∧ a.alloc sigSize = false then ⟨.outOfResources, out, outlen⟩
  else fillEsl (a.sd dataLen) 1 a.type sigSize out outlen

def variableCreateEslWithOneSignature : Result :=
  create a.alloc (a.fillEslWithOneSignature (a.dataLen % 2 ^ 32))

def signature (dataLen : ℕ) : List UInt8 :=
  a.owner.getD (List.replicate sizeofGuid 0) ++ a.data.slice 0 dataLen

end Args

/-- A result is an error, or a list whose sizes are exact, with these signatures in order. -/
def Right (type : Guid) (sigSize : ℕ) (sigs : List (List UInt8)) (r : Result) : Prop :=
  r.status = .success → ∃ m, r.out = some m ∧
    r.outlen = sizeofSignatureList + sigs.length * sigSize ∧
    (SigDb.mk m r.outlen).signatureType 0 = type ∧
    (SigDb.mk m r.outlen).signatureListSize 0 = r.outlen ∧
    (SigDb.mk m r.outlen).signatureHeaderSize 0 = 0 ∧
    (SigDb.mk m r.outlen).signatureSize 0 = sigSize ∧
    m.slots sizeofSignatureList sigSize sigs.length = sigs

section

variable {first : Mem} {howmany sigSize outlen : ℕ} {type : Guid} {alloc : ℕ → Bool}

lemma fillEsl_of_not_sizes {out : Option Mem} (h : ¬ EslSizes howmany sigSize) :
    fillEsl first howmany type sigSize out outlen = ⟨.invalidParameter, out, outlen⟩ := by
  rw [fillEsl, fillEsl_eq, if_neg h]

lemma create_fillEsl (h : EslSizes howmany sigSize) : fillEsl first howmany type sigSize none 0 =
        ⟨.bufferTooSmall, none, sizeofSignatureList + howmany * sigSize⟩ ∧
      ∀ m, fillEsl first howmany type sigSize (some m) (sizeofSignatureList + howmany * sigSize) =
        ⟨.success, some (m.writes (eslStores type sigSize (sizeofSignatureList + howmany * sigSize)
          (first.slice 0 (howmany * sigSize)))), sizeofSignatureList + howmany * sigSize⟩ := by
  constructor
  · rw [fillEsl, fillEsl_eq, if_pos h]
  · intro m
    rw [fillEsl, fillEsl_eq, if_pos h]
    exact if_neg (lt_irrefl _)

lemma right_of_stores (h : EslSizes howmany sigSize) (htype : type.length = sizeofGuid) (m : Mem) :
    Right type sigSize (first.slots 0 sigSize howmany)
      (fillEsl first howmany type sigSize (some m) (sizeofSignatureList + howmany * sigSize)) := by
  intro _
  obtain ⟨hlt, hsig⟩ := h.lt
  have hfill := (eslStores_fill htype (length_slice first 0 (howmany * sigSize))).2 m
  rw [(create_fillEsl h).2]
  generalize m.writes _ = m' at hfill
  obtain ⟨htypes, hlist, hheader, hentry, hbody⟩ := SigDb.header_of_slice
    ⟨m', sizeofSignatureList + howmany * sigSize⟩ htype hlt (by decide) hsig hfill
  refine ⟨m', rfl, ?_, htypes, hlist, hheader, hentry, ?_⟩
  · rw [length_slots]
  · refine slots_of_slice_eq (fun e he => ?_) ?_
    · obtain ⟨i, -, rfl⟩ := List.mem_map.mp he
      exact length_slice ..
    · rw [length_slots, flatten_slots]
      rwa [Nat.zero_add] at hbody

lemma right_of_ne {sigs : List (List UInt8)} {r : Result} (h : r.status ≠ .success) :
    Right type sigSize sigs r := fun hsuccess => absurd hsuccess h

lemma create_of_ask {fill : Option Mem → ℕ → Result} {n : ℕ}
    (h : fill none 0 = ⟨.bufferTooSmall, none, n⟩) : create alloc fill =
      if alloc n = false then ⟨.outOfResources, none, n⟩ else fill (some zeroPool) n := by
  simp [create, h]

lemma create_of_invalid {fill : Option Mem → ℕ → Result}
    (h : fill none 0 = ⟨.invalidParameter, none, 0⟩) :
    create alloc fill = ⟨.invalidParameter, none, 0⟩ := by
  simp [create, h]

end

namespace Args

variable (a : Args) {t : ℕ}

lemma variableCreateEsl_right :
    Right a.type a.sigSize (a.firstSig.slots 0 a.sigSize a.howmany) a.variableCreateEsl := by
  unfold variableCreateEsl
  by_cases hok : EslSizes a.howmany a.sigSize
  · rw [create_of_ask (create_fillEsl hok).1]
    split_ifs with hroom
    · exact right_of_ne (by simp)
    · exact right_of_stores hok a.length_type zeroPool
  · rw [create_of_invalid (fillEsl_of_not_sizes hok)]
    exact right_of_ne (by simp)

def Accepted (t : ℕ) : Prop := t ≤ 2 ^ 32 - 45 ∧ a.alloc (44 + t) = true ∧ a.alloc (16 + t) = true

lemma sizes_one : EslSizes 1 (16 + t) ↔ t ≤ 2 ^ 32 - 45 := by
  have hsize : sizeofSignatureList = 28 := rfl
  unfold EslSizes
  rw [Nat.le_div_iff_mul_le (by omega)]
  omega

lemma fillEslWithOneSignature_eq (ht : t ≤ 2 ^ 32 - 17) (out : Option Mem) (outlen : ℕ) :
    a.fillEslWithOneSignature t out outlen =
      if out.isSome ∧ a.alloc (16 + t) = false then ⟨.outOfResources, out, outlen⟩
      else fillEsl (a.sd t) 1 a.type (16 + t) out outlen := by
  have hdata : sizeofSignatureData = 17 := rfl
  have hmod : (sizeofSignatureData - 1 + t) % 2 ^ 32 = 16 + t := by omega
  unfold fillEslWithOneSignature
  rw [if_neg (by omega), hmod]

lemma createOne_of_fits (ht : t ≤ 2 ^ 32 - 45) : create a.alloc (a.fillEslWithOneSignature t) =
      if a.alloc (44 + t) = false then ⟨.outOfResources, none, 44 + t⟩
      else if a.alloc (16 + t) = false then ⟨.outOfResources, some zeroPool, 44 + t⟩
      else fillEsl (a.sd t) 1 a.type (16 + t) (some zeroPool) (44 + t) := by
  have hneeded : sizeofSignatureList + 1 * (16 + t) = 44 + t := by
    have hsize : sizeofSignatureList = 28 := rfl
    omega
  have hask : a.fillEslWithOneSignature t none 0 = ⟨.bufferTooSmall, none, 44 + t⟩ := by
    rw [a.fillEslWithOneSignature_eq (by omega), if_neg (by simp),
      (create_fillEsl (sizes_one.mpr ht)).1, hneeded]
  rw [create_of_ask hask, a.fillEslWithOneSignature_eq (by omega)]
  simp

lemma createOne_of_not_accepted (h : ¬ a.Accepted t) :
    (create a.alloc (a.fillEslWithOneSignature t)).status ≠ .success := by
  by_cases ht : t ≤ 2 ^ 32 - 45
  · rw [a.createOne_of_fits ht]
    split_ifs with hlist hsig
    · simp
    · simp
    · exact absurd ⟨ht, by simpa using hlist, by simpa using hsig⟩ h
  · have hinvalid : a.fillEslWithOneSignature t none 0 = ⟨.invalidParameter, none, 0⟩ := by
      by_cases hdata : t ≤ 2 ^ 32 - 17
      · rw [a.fillEslWithOneSignature_eq hdata, if_neg (by simp),
          fillEsl_of_not_sizes (mt sizes_one.mp ht)]
      · have hlong : 2 ^ 32 - 1 - sizeofSignatureData + 1 < t := not_le.mp hdata
        unfold fillEslWithOneSignature
        rw [if_pos hlong]
    rw [create_of_invalid hinvalid]
    simp

/-- The owner of a signature without one is zero, as the buffer is. -/
theorem sd_eq (t : ℕ) : a.sd t = zeroPool.writes
    [⟨0, a.owner.getD (List.replicate sizeofGuid 0)⟩, ⟨sizeofGuid, a.data.slice 0 t⟩] := by
  unfold sd oneSignature
  cases a.owner with
  | none =>
    have hzero : zeroPool.write 0 (List.replicate sizeofGuid 0) = zeroPool := by
      funext i
      by_cases hi : i < sizeofGuid <;> simp [write, zeroPool, hi]
    simp [writes, hzero]
  | some g => rfl

lemma slots_sd (t : ℕ) : (a.sd t).slots 0 (16 + t) 1 = [a.signature t] := by
  have howner : (a.owner.getD (List.replicate sizeofGuid 0)).length = 16 := by
    cases hg : a.owner with
    | none => rfl
    | some g => exact a.length_owner g hg
  have htiles : Tiles 0 (16 + t)
      [⟨0, a.owner.getD (List.replicate sizeofGuid 0)⟩, ⟨sizeofGuid, a.data.slice 0 t⟩] :=
    ⟨rfl, by rw [Write.stop, howner]; rfl, by simp [Tiles, Write.stop, sizeofGuid]⟩
  have hslice := (ReadsBack.of_writes zeroPool htiles.pairwise_apart).slice_eq htiles
  rw [← a.sd_eq, Nat.sub_zero] at hslice
  simp [slots, hslice, signature]

lemma createOne_of_accepted (h : a.Accepted t) :
    let result := create a.alloc (a.fillEslWithOneSignature t)
    result.status = .success ∧ result.outlen = 44 + t ∧
      Right a.type (16 + t) [a.signature t] result := by
  obtain ⟨ht, hlist, hsig⟩ := h
  have hsizes := sizes_one.mpr ht
  have hneeded : 44 + t = sizeofSignatureList + 1 * (16 + t) := by
    have hsize : sizeofSignatureList = 28 := rfl
    omega
  rw [a.createOne_of_fits ht, if_neg (by simp [hlist]), if_neg (by simp [hsig]), ← a.slots_sd, hneeded]
  refine ⟨?_, ?_, right_of_stores hsizes a.length_type zeroPool⟩ <;> rw [(create_fillEsl hsizes).2]

/-- Both functions return lists with the signatures, iff the length of the data is one in 32 bits, or
the call fails with the length that is left of it in 32 bits. -/
theorem createEsl_right_iff :
    Right a.type a.sigSize (a.firstSig.slots 0 a.sigSize a.howmany) a.variableCreateEsl ∧
        Right a.type (16 + a.dataLen) [a.signature a.dataLen] a.variableCreateEslWithOneSignature ↔
      a.dataLen < 2 ^ 32 ∨ ¬ a.Accepted (a.dataLen % 2 ^ 32) := by
  rw [and_iff_right a.variableCreateEsl_right]
  unfold variableCreateEslWithOneSignature
  by_cases hok : a.Accepted (a.dataLen % 2 ^ 32)
  · rw [or_iff_left (not_not.mpr hok)]
    obtain ⟨hsuccess, houtlen, hright⟩ := a.createOne_of_accepted hok
    constructor
    · intro h
      obtain ⟨-, -, hexact, -⟩ := h hsuccess
      have hsize : sizeofSignatureList = 28 := rfl
      rw [houtlen, List.length_singleton] at hexact
      omega
    · intro hlt
      rw [Nat.mod_eq_of_lt hlt] at hright ⊢
      exact hright
  · exact iff_of_true (right_of_ne (a.createOne_of_not_accepted hok)) (.inr hok)

def longData : Args :=
  ⟨fun _ => true, certSha256Guid, rfl, zeroPool, 0, 0, zeroPool, 2 ^ 32 + 1, none, by simp⟩

/-- There is one byte of the data in the list. -/
theorem createOne_truncates :
    ¬ Right longData.type (16 + longData.dataLen) [longData.signature longData.dataLen]
      longData.variableCreateEslWithOneSignature := by
  intro h
  have hok : longData.Accepted (longData.dataLen % 2 ^ 32) := ⟨by decide, rfl, rfl⟩
  obtain ⟨hsuccess, houtlen, -⟩ := longData.createOne_of_accepted hok
  obtain ⟨-, -, hexact, -⟩ := h hsuccess
  exact absurd (houtlen.symm.trans hexact) (by decide)

end Args

end Shim.Mok.CreateEsl
