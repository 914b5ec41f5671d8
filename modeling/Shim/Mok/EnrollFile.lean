import Shim.Mok.KeyFormat
import Shim.Mok.Prompt

/-!
# Enrolling the content of a file

A file that the user has selected is put into `MokList`: a certificate as it is, a binary as its
SHA-256 hash. On two of the failure exits of `enroll_file` the status is still the success of an
earlier call, or the one that the function starts with.
-/

namespace Shim.Mok

open Lib Verify List EfiStatus Sbat
open Sbat (Variable getVariable)

structure EnrollEnv where
  prompt : PromptEnv
  locate : EfiStatus
  allocBuffer : Bool
  context : List UInt8 → EfiStatus
  sha256 : List UInt8 → Except EfiStatus (List UInt8)
  constructsX509 : List UInt8 → Bool
  length_sha256 : ∀ data hash, sha256 data = .ok hash → hash.length = sha256DigestSize
  sha256_ne : ∀ data, sha256 data ≠ .error .success
  readDb_ne : prompt.services.readDb ≠ some .success
  setDb_ne : prompt.services.setDb ≠ some .success

def verifyCertificate (constructsX509 : List UInt8 → Bool) (cert : List UInt8) :
    Except (Option String) Unit :=
  match cert with
  | a :: b :: c :: d :: rest =>
    if a ≠ 0x30 ∨ b ≠ 0x82 then .error (some "Not a DER encoding X509 certificate")
    else if c.toNat * 256 + d.toNat ≠ rest.length then
      .error (some "Invalid X509 certificate: Inconsistent size")
    else if constructsX509 cert = false then .error (some "Invalid X509 certificate")
    else .ok ()
  | _ => .error none

def mokBuffer (type : Guid) (key : List UInt8) : List UInt8 :=
  type ++ (u32Bytes (sizeofSignatureList + sizeofGuid + key.length) ++ (u32Bytes 0 ++
    (u32Bytes (sizeofGuid + key.length) ++ (shimLockGuid ++ key))))

def enrollFile (env : EnrollEnv) (data : List UInt8) (hash : Bool) (st : MokState) :
    EfiStatus × MokState :=
  if hash then
    if env.locate ≠ .success then (env.locate, st)
    -- `efi_status` is still what `LibLocateProtocol` has returned
    else if env.allocBuffer = false then (env.locate, st)
    else if env.context data ≠ .success then (env.context data, st)
    else
      match env.sha256 data with
      | .error status => (status, st)
      | .ok sha256 =>
        mokEnrollmentPrompt env.prompt (mokBuffer certSha256Guid sha256) false false st
  -- `efi_status` is still what it was initialised with
  else if env.allocBuffer = false then (.success, st)
  else
    match verifyCertificate env.constructsX509 data with
    | .error _ => (.success, st)
    | .ok () => mokEnrollmentPrompt env.prompt (mokBuffer certTypeX509Guid data) false false st

def takenFrom (env : EnrollEnv) (data : List UInt8) (hash : Bool) : Option (Guid × List UInt8) :=
  if hash then
    match env.sha256 data with
    | .error _ => none
    | .ok sha256 => some (certSha256Guid, sha256)
  else some (certTypeX509Guid, data)

def ListHolds (data : List UInt8) (key : Guid × List UInt8) : Prop :=
  ∃ before after : List UInt8, ∃ l : SignatureList, data = before ++ l.encode ++ after ∧
    l.type = key.1 ∧ ∃ e ∈ l.entries, e.drop sizeofGuid = key.2

def MokListHolds (vars : MokVar → Option Variable) (key : Option (Guid × List UInt8)) : Prop :=
  ∃ v k, vars .mokList = some v ∧ key = some k ∧ ListHolds v.data k

def enrolledList (type : Guid) (key : List UInt8)
    (h : sizeofSignatureList + (sizeofGuid + key.length) < 2 ^ 32) : SignatureList where
  type := type
  header := []
  entrySize := sizeofGuid + key.length
  entries := [shimLockGuid ++ key]
  entrySize_ge := Nat.le_add_right _ _
  entrySize_lt := by omega
  length_entry := by
    intro e he
    rw [mem_singleton.mp he, length_append]
    rfl
  size_lt := by
    rw [length_nil, length_singleton, Nat.one_mul]
    exact h

section

variable {type : Guid} {key : List UInt8}

lemma encode_enrolledList (h : sizeofSignatureList + (sizeofGuid + key.length) < 2 ^ 32) :
    (enrolledList type key h).encode = mokBuffer type key := by
  have hsize : (enrolledList type key h).size = sizeofSignatureList + sizeofGuid + key.length := by
    unfold SignatureList.size enrolledList sizeofSignatureList
    simp only [length_nil, length_singleton]
    omega
  rw [SignatureList.encode, hsize]
  simp only [enrolledList, length_nil, nil_append, flatten_cons, flatten_nil,
    append_nil]
  rfl

lemma listHolds_mokBuffer (h : sizeofSignatureList + (sizeofGuid + key.length) < 2 ^ 32)
    (before : List UInt8) : ListHolds (before ++ mokBuffer type key) (type, key) := by
  refine ⟨before, [], enrolledList type key h, ?_, rfl, _, mem_singleton.mpr rfl, ?_⟩
  · rw [encode_enrolledList, append_nil]
  · exact @drop_left _ shimLockGuid key

lemma mokBuffer_ne_nil : mokBuffer type key ≠ [] := by
  intro h
  have hlength := congrArg List.length h
  simp [mokBuffer] at hlength

lemma length_of_verifyCertificate {constructsX509 : List UInt8 → Bool} {cert : List UInt8}
    (h : verifyCertificate constructsX509 cert = .ok ()) : cert.length < 2 ^ 17 := by
  unfold verifyCertificate at h
  split at h
  · rename_i a b c d rest
    split_ifs at h with hder hsize hx509
    have hc := c.toNat_lt
    have hd := d.toNat_lt
    rw [not_not] at hsize
    simp only [length_cons]
    omega
  · exact absurd h (by simp)

end

section

variable {env : PromptEnv} {name : MokVar} {mokNew : List UInt8} {st : MokState}

lemma rtSetVariable_success {fails : Option EfiStatus} {new : Variable}
    (hfails : fails ≠ some .success) (hnew : new.data ≠ [])
    (h : (rtSetVariable fails name new st).1 = .success) :
    (rtSetVariable fails name new st).2.vars name = some new := by
  cases fails with
  | some status => exact absurd (congrArg some h) hfails
  | none =>
    unfold rtSetVariable
    simp only [hnew, false_and, if_false]
    split
    · rename_i hsame
      exact hsame.symm
    · exact Function.update_self _ _ _

section

variable (hread : env.services.readDb ≠ some .success) (hset : env.services.setDb ≠ some .success)
  (hnew : mokNew ≠ [])
include hread hset hnew

lemma writeDb_success (h : (writeDb env name mokNew st).1 = .success) :
    ∃ old, (old = [] ∨ ∃ v, st.vars name = some v ∧ old = v.data) ∧
      (writeDb env name mokNew st).2.vars name = some ⟨old ++ mokNew, uefiVarNvBs⟩ := by
  have hwrite : ∀ old : List UInt8, (if env.allocData = false then (outOfResources, st)
        else rtSetVariable env.services.setDb name ⟨old ++ mokNew, uefiVarNvBs⟩ st).1 =
          .success →
      (if env.allocData = false then (outOfResources, st)
        else rtSetVariable env.services.setDb name ⟨old ++ mokNew, uefiVarNvBs⟩ st).2.vars
          name = some ⟨old ++ mokNew, uefiVarNvBs⟩ := by
    intro old hsuccess
    split at hsuccess
    · exact EfiStatus.noConfusion hsuccess
    · rename_i halloc
      rw [if_neg halloc]
      exact rtSetVariable_success hset (append_ne_nil_of_right_ne_nil _ hnew) hsuccess
  unfold writeDb at h ⊢
  cases hget : getVariable env.services.readDb (st.vars name) with
  | error status =>
    simp only [hget] at h ⊢
    split at h
    · exact absurd h (getVariable_error_ne hread hget)
    · rename_i hfound
      rw [if_neg hfound]
      exact ⟨[], .inl rfl, hwrite [] h⟩
  | ok v =>
    simp only [hget] at h ⊢
    split at h
    · rename_i hrt
      rw [if_pos hrt]
      exact ⟨[], .inl rfl, hwrite [] h⟩
    · rename_i hrt
      rw [if_neg hrt]
      exact ⟨v.data, .inr ⟨v, getVariable_mem hget, rfl⟩, hwrite v.data h⟩

lemma mokEnrollmentPrompt_success
    (h : (mokEnrollmentPrompt env mokNew false false st).1 = .success) :
    ∃ old, (old = [] ∨ ∃ v, st.vars .mokList = some v ∧ old = v.data) ∧
      (mokEnrollmentPrompt env mokNew false false st).2.vars .mokList =
        some ⟨old ++ mokNew, uefiVarNvBs⟩ := by
  have hstore : storeKeys env mokNew false false st = writeDb env .mokList mokNew st := by
    simp [storeKeys, storeAuthenticated, hnew, dbName]
  unfold mokEnrollmentPrompt at h ⊢
  rw [hstore] at h ⊢
  by_cases hlist : listKeys env mokNew ≠ .success
  · rw [if_pos hlist] at h
    exact absurd h hlist
  by_cases hyes : env.yes = false
  · rw [if_neg hlist, if_pos hyes] at h
    exact EfiStatus.noConfusion h
  · rw [if_neg hlist, if_neg hyes] at h ⊢
    by_cases hwrite : (writeDb env .mokList mokNew st).1 = .success
    · obtain ⟨old, hold, hvars⟩ := writeDb_success hread hset hnew hwrite
      refine ⟨old, hold, ?_⟩
      simpa [hwrite] using hvars
    · simp only [ne_eq, hwrite, not_false_eq_true, if_true] at h

end

end

/-! ## The file -/

section

variable {env : EnrollEnv} {data : List UInt8} {hash : Bool} {st : MokState}

/-- The exits that return a success without a write are not taken: the list was allocated, and a
certificate is accepted. -/
def ReachesPrompt (env : EnrollEnv) (data : List UInt8) (hash : Bool) : Prop :=
  if hash then env.locate = .success → env.allocBuffer = true
  else env.allocBuffer = true ∧ verifyCertificate env.constructsX509 data = .ok ()

lemma enrollFile_of_not_reachesPrompt (h : ¬ ReachesPrompt env data hash) :
    enrollFile env data hash st = (.success, st) := by
  unfold ReachesPrompt at h
  cases hash with
  | true =>
    simp only [if_true, Classical.not_imp, Bool.not_eq_true] at h
    simp [enrollFile, h.1, h.2]
  | false =>
    simp only [Bool.false_eq_true, if_false, not_and] at h
    unfold enrollFile
    by_cases halloc : env.allocBuffer = true
    · cases hverify : verifyCertificate env.constructsX509 data with
      | error e => simp [halloc]
      | ok u => exact absurd hverify (h halloc)
    · simp [Bool.eq_false_of_not_eq_true halloc]

lemma enrollFile_prompts (hreach : ReachesPrompt env data hash)
    (h : (enrollFile env data hash st).1 = .success) :
    ∃ key, takenFrom env data hash = some key ∧
      sizeofSignatureList + (sizeofGuid + key.2.length) < 2 ^ 32 ∧
      enrollFile env data hash st =
        mokEnrollmentPrompt env.prompt (mokBuffer key.1 key.2) false false st := by
  unfold ReachesPrompt at hreach
  cases hash with
  | true =>
    simp only [if_true] at hreach
    unfold enrollFile at h ⊢
    simp only [if_true] at h ⊢
    by_cases hlocate : env.locate = .success
    · simp only [hlocate, ne_eq, not_true_eq_false, if_false, hreach hlocate, Bool.true_eq_false]
        at h ⊢
      by_cases hcontext : env.context data = .success
      · simp only [hcontext, not_true_eq_false, if_false] at h ⊢
        cases hsha : env.sha256 data with
        | error status =>
          simp only [hsha] at h
          exact absurd (by rw [hsha, h]) (env.sha256_ne data)
        | ok sha256 =>
          refine ⟨(certSha256Guid, sha256), ?_, ?_, rfl⟩
          · simp [takenFrom, hsha]
          · rw [env.length_sha256 data sha256 hsha]
            decide
      · simp only [hcontext, not_false_eq_true, if_true] at h
    · simp only [hlocate, ne_eq, not_false_eq_true, if_true] at h
  | false =>
    simp only [Bool.false_eq_true, if_false] at hreach
    refine ⟨(certTypeX509Guid, data), rfl, ?_, ?_⟩
    · have hlength := length_of_verifyCertificate hreach.2
      show 28 + (16 + data.length) < 2 ^ 32
      omega
    · simp [enrollFile, hreach.1, hreach.2]

end

/-- A success of `enroll_file` means that the key from the file is in `MokList` iff it was there
before, or the function gets past the exits that keep an earlier success: memory for the list, and a
certificate that is accepted. -/
theorem enrollFile_success_iff (env : EnrollEnv) (data : List UInt8) (hash : Bool) (st : MokState) :
    ((enrollFile env data hash st).1 = .success →
        MokListHolds (enrollFile env data hash st).2.vars (takenFrom env data hash)) ↔
      MokListHolds st.vars (takenFrom env data hash) ∨ ReachesPrompt env data hash := by
  by_cases hreach : ReachesPrompt env data hash
  · simp only [hreach, or_true, iff_true]
    intro h
    obtain ⟨key, hkey, hsize, hprompt⟩ := enrollFile_prompts hreach h
    rw [hprompt] at h ⊢
    obtain ⟨old, -, hvars⟩ :=
      mokEnrollmentPrompt_success env.readDb_ne env.setDb_ne mokBuffer_ne_nil h
    exact ⟨_, key, hvars, hkey, listHolds_mokBuffer hsize old⟩
  · rw [enrollFile_of_not_reachesPrompt hreach]
    simp only [hreach, or_false, forall_const]

def enrollYes (allocBuffer : Bool) : EnrollEnv where
  prompt := sayYes
  locate := .success
  allocBuffer := allocBuffer
  context := fun _ => .success
  sha256 := fun _ => .ok (List.replicate 32 7)
  constructsX509 := fun _ => true
  length_sha256 := by
    intro data hash h
    rw [← Except.ok.inj h, length_replicate]
    rfl
  sha256_ne := by
    intro data h
    cases h
  readDb_ne := none_ne_success
  setDb_ne := none_ne_success

def pemFile : List UInt8 := ofText "-----BEGIN CERTIFICATE-----"

/-- A certificate in PEM is not accepted, and for a hash there is no memory: nothing is enrolled and
a success is returned. -/
theorem enrollFile_success_without_key :
    ((enrollFile (enrollYes true) pemFile false (start fun _ => none)).1 = .success ∧
      (enrollFile (enrollYes true) pemFile false (start fun _ => none)).2.vars .mokList = none) ∧
    ((enrollFile (enrollYes false) pemFile true (start fun _ => none)).1 = .success ∧
      (enrollFile (enrollYes false) pemFile true (start fun _ => none)).2.vars .mokList = none) := by
  decide

end Shim.Mok
