import Shim.Sbat.Section

/-!
# Updating `SbatLevel`

`set_sbat_uefi_variable` picks a candidate by the policy, compares its version and its datestamp
with those of the stored variable, checks that the candidate does not revoke shim itself, and
replaces the variable.
-/

namespace Shim.Sbat

open Lib Pe List Mem

/-! ## The model -/

def uefiVarNvBs : ℕ := 3

def uefiVarNvBsRt : ℕ := 7

def uefiVarNvBsTimeauth : ℕ := 0x23

structure Variable where
  data : List UInt8
  attributes : ℕ
  deriving DecidableEq

structure SbatState where
  level : Option Variable
  policy : Option Variable
  sbatPolicy : ℕ
  sbatVar : List VarEntry

structure Services where
  readPolicy : Option EfiStatus
  deletePolicy : Option EfiStatus
  readLevel : Option EfiStatus
  deleteLevel : Option EfiStatus
  writeLevel : Option EfiStatus
  rereadLevel : Option EfiStatus

def Services.working : Services := ⟨none, none, none, none, none, none⟩

structure LevelEnv where
  secureMode : Bool
  devel : Bool
  sbat : SbatEnv
  shimSbat : Option (Mem × ℕ)
  services : Services

def getVariable (fails : Option EfiStatus) (v : Option Variable) : Except EfiStatus Variable :=
  match fails, v with
  | some status, _ => .error status
  | none, none => .error .notFound
  | none, some v => if v.data = [] then .error .protocolError else .ok v

lemma getVariable_mem {fails : Option EfiStatus} {level : Option Variable} {v : Variable}
    (h : getVariable fails level = .ok v) : v ∈ level := by
  unfold getVariable at h
  split at h
  · cases h
  · cases h
  · split_ifs at h
    exact Except.ok.inj h ▸ rfl

lemma getVariable_error_ne {fails : Option EfiStatus} {v : Option Variable} {status : EfiStatus}
    (hfails : fails ≠ some .success) (h : getVariable fails v = .error status) :
    status ≠ .success := by
  rintro rfl
  unfold getVariable at h
  split at h
  · exact hfails (congrArg some (Except.error.inj h))
  · exact EfiStatus.noConfusion (Except.error.inj h)
  · split at h
    · exact EfiStatus.noConfusion (Except.error.inj h)
    · cases h

def setVariable (fails : Option EfiStatus) (old : Option Variable) (new : Variable) :
    EfiStatus × Option Variable :=
  match fails with
  | some status => (status, old)
  | none => (.success, if new.data = [] then none else some new)

def checkSbatVarAttributes (devel : Bool) (attributes : ℕ) : Bool :=
  if devel then attributes = uefiVarNvBsRt
  else attributes = uefiVarNvBs || attributes = uefiVarNvBsTimeauth

def sbatVarAttrs (devel : Bool) : ℕ := if devel then uefiVarNvBsRt else uefiVarNvBs

def sbatVarSig : List UInt8 := ofText "sbat,"

def sbatVarOriginal : List UInt8 := ofText "sbat,1,2021030218\n"

def datestampLength : ℕ := 10

def nthSbatFieldFrom (m : Mem) : ℕ → ℕ → ℕ → ℕ
  | 0, i, _ => i
  | limit + 1, i, n =>
    if m i = 0 ∨ n = 0 then i
    else nthSbatFieldFrom m limit (i + 1) (if m i = comma then n - 1 else n)

def nthSbatField (m : Mem) (limit n : ℕ) : ℕ := nthSbatFieldFrom m limit 0 n

def fieldLength (first last : ℕ) : ℤ := ((last : ℤ) - first - 1).bmod (2 ^ 32)

def preserveSbatUefiVariable (devel : Bool) (sbat : Variable) (candidate : List UInt8) : Bool :=
  let sbatc := ofBytes sbat.data
  let new := ofBytes candidate
  let sbatsize := sbat.data.length
  if checkSbatVarAttributes devel sbat.attributes = false ∨ sbatsize < sbatVarOriginal.length ∨
      sbatc.strncmp 0 (ofBytes sbatVarSig) 0 sbatVarSig.length ≠ 0 then false
  else
    let currentVersion := nthSbatField sbatc sbatsize 1
    let newVersion := nthSbatField new (new.strlen 0 + 1) 1
    let currentDatestamp := nthSbatField sbatc sbatsize 2
    let newDatestamp := nthSbatField new (new.strlen 0 + 1) 2
    let currentVersionLen := fieldLength currentVersion currentDatestamp
    let newVersionLen := fieldLength newVersion newDatestamp
    newVersionLen < currentVersionLen || (currentVersionLen == newVersionLen &&
        0 < sbatc.strncmp currentVersion new newVersion (newVersionLen % 2 ^ 64).toNat) ||
      0 ≤ sbatc.strncmp currentDatestamp new newDatestamp datestampLength

def parseSbatVar (pool : Pool) (candidate : List UInt8) : Except EfiStatus (List VarEntry) :=
  parseSbatVarData pool (pool.fresh.copy 0 (ofBytes candidate) 0 candidate.length)
    (candidate.length + 1)

def policyLatest : ℕ := 1

def policyAutomatic : ℕ := 2

def policyReset : ℕ := 3

def policyNotread : ℕ := 255

def readPolicy (s : Services) (st : SbatState) : Option ℕ × SbatState :=
  if st.sbatPolicy = policyNotread then
    match getVariable s.readPolicy st.policy with
    | .error _ => (none, st)
    | .ok v =>
      let policy := (v.data.headD 0).toNat
      (some policy, { st with
        sbatPolicy := policy
        policy := (setVariable s.deletePolicy st.policy ⟨[], 0⟩).2 })
  else (some st.sbatPolicy, st)

def sbatVarCandidate (secureMode : Bool) (policy : Option ℕ) (automatic latest : List UInt8) :
    List UInt8 × Bool :=
  if policy = some policyLatest then (latest, false)
  else if policy = some policyAutomatic then (automatic, false)
  else if secureMode then (automatic, false)
  else (sbatVarOriginal, true)

def writeLevel (env : LevelEnv) (candidate : List UInt8) (st : SbatState) : EfiStatus × SbatState :=
  let w := setVariable env.services.writeLevel st.level ⟨candidate, sbatVarAttrs env.devel⟩
  let st := { st with level := w.2 }
  if w.1 ≠ .success then (w.1, st)
  else
    match getVariable env.services.rereadLevel st.level with
    | .error status => (status, st)
    | .ok v =>
      if v.data.length ≠ candidate.length ∨
          (ofBytes v.data).strncmp 0 (ofBytes candidate) 0 candidate.length ≠ 0 then
        (.invalidParameter, st)
      else (.success, st)

/-- The stored variable `v` is replaced: the candidate is parsed, shim is checked against it, and
the old variable is deleted. -/
def replaceLevel (env : LevelEnv) (v : Variable) (candidate : List UInt8) (st : SbatState) :
    EfiStatus × SbatState :=
  match parseSbatVar env.sbat.pool candidate with
  | .error status => (status, st)
  | .ok entries =>
    let st := { st with sbatVar := entries }
    let self := verifySbatSection env.sbat st.sbatVar env.shimSbat
    if self ≠ .success then (self, st)
    else
      let d := setVariable env.services.deleteLevel st.level ⟨[], v.attributes⟩
      let st := { st with level := d.2 }
      if d.1 ≠ .success then (d.1, st) else writeLevel env candidate st

def setSbatUefiVariable (env : LevelEnv) (automatic latest : List UInt8) (st : SbatState) :
    EfiStatus × SbatState :=
  let (policy, st) := readPolicy env.services st
  let (candidate, reset) := sbatVarCandidate env.secureMode policy automatic latest
  match getVariable env.services.readLevel st.level with
  | .error _ => writeLevel env candidate st
  | .ok v =>
    if reset = false ∧ preserveSbatUefiVariable env.devel v candidate = true then (.success, st)
    else replaceLevel env v candidate st

@[simp] lemma length_sbatVarSig : sbatVarSig.length = 5 := by decide

/-- A well-formed payload: a first line `sbat,V,D`, with a version without leading zeros and a
datestamp of ten digits, and the lines behind it. -/
structure Payload where
  version : List UInt8
  datestamp : List UInt8
  rest : List UInt8
  version_numeral : IsNumeral version
  version_noLeadingZero : NoLeadingZero version
  datestamp_length : datestamp.length = datestampLength
  datestamp_digits : ∀ b ∈ datestamp, IsDigit b
  rest_line : rest = [] ∨ rest.head? = some 0x0a
  rest_text : ∀ b ∈ rest, b ≠ 0
  length_lt : version.length + rest.length + 16 < 2 ^ 31

namespace Payload

def bytes (p : Payload) : List UInt8 :=
  sbatVarSig ++ p.version ++ [comma] ++ p.datestamp ++ p.rest

def versionNumber (p : Payload) : ℕ := decimal p.version

def date (p : Payload) : ℕ := decimal p.datestamp

variable (p : Payload)

lemma length_bytes : p.bytes.length = 16 + p.version.length + p.rest.length := by
  simp only [bytes, length_append, length_singleton, length_sbatVarSig,
    p.datestamp_length, datestampLength]
  omega

lemma bytes_text : ∀ b ∈ p.bytes, b ≠ 0 := by
  intro b hb
  have hdigit : ∀ b, IsDigit b → b ≠ 0 := by
    rintro b hd rfl
    exact absurd hd (by decide)
  simp only [bytes, mem_append, mem_singleton] at hb
  have hsig : (sbatVarSig.all fun b => b ≠ 0) = true := by decide
  rcases hb with (((hb | hb) | hb) | hb) | hb
  · exact of_decide_eq_true (all_eq_true.mp hsig b hb)
  · exact hdigit b (p.version_numeral.2 b hb)
  · rw [hb]
    decide
  · exact hdigit b (p.datestamp_digits b hb)
  · exact p.rest_text b hb

def mem : Mem := ofBytes p.bytes

lemma strlen_mem : p.mem.strlen 0 = p.bytes.length := by
  have hlen := p.length_bytes
  have hlt := p.length_lt
  exact strlen_ofBytes p.bytes_text (by omega)

lemma slice_sig : p.mem.slice 0 5 = sbatVarSig := by
  have h := slice_ofBytes [] sbatVarSig (p.version ++ [comma] ++ p.datestamp ++ p.rest)
  simpa [mem, bytes] using h

lemma slice_version : p.mem.slice 5 p.version.length = p.version := by
  have h := slice_ofBytes sbatVarSig p.version ([comma] ++ p.datestamp ++ p.rest)
  simpa [mem, bytes] using h

lemma mem_comma : p.mem (5 + p.version.length) = comma := by
  have h := slice_ofBytes (sbatVarSig ++ p.version) [comma] (p.datestamp ++ p.rest)
  have hlen : (sbatVarSig ++ p.version).length = 5 + p.version.length := by
    rw [length_append, length_sbatVarSig]
  rw [hlen] at h
  simpa [mem, bytes, slice] using h

lemma slice_datestamp : p.mem.slice (6 + p.version.length) datestampLength = p.datestamp := by
  have h := slice_ofBytes (sbatVarSig ++ p.version ++ [comma]) p.datestamp p.rest
  have hlen : (sbatVarSig ++ p.version ++ [comma]).length = 6 + p.version.length := by
    simp only [length_append, length_singleton, length_sbatVarSig]
    omega
  rw [hlen, p.datestamp_length] at h
  exact h

end Payload

/-! ## The fields of a payload -/

section

variable {m : Mem} {i k n limit : ℕ}

lemma nthSbatFieldFrom_zero : nthSbatFieldFrom m limit i 0 = i := by
  cases limit <;> simp [nthSbatFieldFrom]

lemma nthSbatFieldFrom_skip (h : ∀ j < k, m (i + j) ≠ 0 ∧ m (i + j) ≠ comma) :
    nthSbatFieldFrom m (k + limit) i (n + 1) = nthSbatFieldFrom m limit (i + k) (n + 1) := by
  induction k generalizing i with
  | zero => simp
  | succ k ih =>
    have h₀ := h 0 (Nat.succ_pos k)
    rw [Nat.add_zero] at h₀
    rw [Nat.add_right_comm, nthSbatFieldFrom, if_neg (by simp [h₀.1]), if_neg h₀.2, ih]
    · rw [Nat.add_assoc, Nat.add_comm 1 k]
    · intro j hj
      have hj' := h (j + 1) (by omega)
      rwa [Nat.add_comm j 1, ← Nat.add_assoc] at hj'

lemma nthSbatFieldFrom_comma (h : m i = comma) :
    nthSbatFieldFrom m (limit + 1) i (n + 1) = nthSbatFieldFrom m limit (i + 1) n := by
  rw [nthSbatFieldFrom, if_neg (by simp [h, comma]), if_pos h]
  rfl

end

namespace Payload

variable (p : Payload)

lemma mem_sig {j : ℕ} (hj : j < 5) : p.mem j = sbatVarSig.getD j 0 := by
  have hget := congrArg (fun l => l.getD j 0) p.slice_sig
  simpa [slice, hj] using hget

lemma nthSbatField_one {limit : ℕ} (h : 5 ≤ limit) : nthSbatField p.mem limit 1 = 5 := by
  obtain ⟨l, rfl⟩ : ∃ l, limit = 4 + (l + 1) := ⟨limit - 5, by omega⟩
  rw [nthSbatField, nthSbatFieldFrom_skip, nthSbatFieldFrom_comma, nthSbatFieldFrom_zero]
  · rw [p.mem_sig (by decide)]
    decide
  · intro j hj
    rw [Nat.zero_add, p.mem_sig (by omega)]
    revert j
    decide

lemma nthSbatField_two {limit : ℕ} (h : 6 + p.version.length ≤ limit) :
    nthSbatField p.mem limit 2 = 6 + p.version.length := by
  have hversion : ∀ j < p.version.length, IsDigit (p.mem (5 + j)) := by
    intro j hj
    apply p.version_numeral.2
    rw [← p.slice_version, slice, mem_map]
    exact ⟨j, mem_range.mpr hj, rfl⟩
  obtain ⟨l, rfl⟩ : ∃ l, limit = 4 + ((p.version.length + (l + 1)) + 1) :=
    ⟨limit - 6 - p.version.length, by omega⟩
  rw [nthSbatField, nthSbatFieldFrom_skip, nthSbatFieldFrom_comma, nthSbatFieldFrom_skip,
    nthSbatFieldFrom_comma, nthSbatFieldFrom_zero]
  · omega
  · exact p.mem_comma
  · intro j hj
    have hd := hversion j hj
    constructor
    · intro h0
      rw [h0] at hd
      exact absurd hd (by decide)
    · intro h0
      rw [h0] at hd
      exact absurd hd (by decide)
  · rw [p.mem_sig (by decide)]
    decide
  · intro j hj
    rw [Nat.zero_add, p.mem_sig (by omega)]
    revert j
    decide

lemma fieldLength_version : fieldLength 5 (6 + p.version.length) = p.version.length := by
  have hlt := p.length_lt
  unfold fieldLength
  rw [Int.bmod_eq_of_le] <;> push_cast <;> omega

end Payload

variable {devel : Bool} {attributes : ℕ}

lemma version_compare (p q : Payload) : ((q.version.length : ℤ) < p.version.length ∨
        ((p.version.length : ℤ) = q.version.length ∧
          0 < p.mem.strncmp 5 q.mem 5 q.version.length)) ↔
      q.versionNumber < p.versionNumber := by
  rcases lt_trichotomy q.version.length p.version.length with hlt | heq | hgt
  · have hnum : q.versionNumber < p.versionNumber :=
      decimal_lt_of_length_lt q.version_numeral p.version_numeral p.version_noLeadingZero hlt
    exact ⟨fun _ => hnum, fun _ => .inl (by exact_mod_cast hlt)⟩
  · have hp : p.mem.slice 5 q.version.length = p.version := by rw [heq, p.slice_version]
    have hcmp := (strncmp_digits (m := p.mem) (n := q.mem) (p := 5) (q := 5)
      (by rw [hp]; exact p.version_numeral.2)
      (by rw [q.slice_version]; exact q.version_numeral.2)).1
    rw [hp, q.slice_version] at hcmp
    rw [hcmp, heq]
    simp [Payload.versionNumber]
  · have hnum : p.versionNumber < q.versionNumber :=
      decimal_lt_of_length_lt p.version_numeral q.version_numeral q.version_noLeadingZero hgt
    constructor
    · rintro (h | ⟨h, _⟩) <;> omega
    · intro h
      omega

lemma date_compare (p q : Payload) :
    0 ≤ p.mem.strncmp (6 + p.version.length) q.mem (6 + q.version.length) datestampLength ↔
      q.date ≤ p.date := by
  have hcmp := (strncmp_digits (m := p.mem) (n := q.mem) (p := 6 + p.version.length)
    (q := 6 + q.version.length) (by rw [p.slice_datestamp]; exact p.datestamp_digits)
    (by rw [q.slice_datestamp]; exact q.datestamp_digits)).2
  rw [p.slice_datestamp, q.slice_datestamp] at hcmp
  exact hcmp

/-- A valid stored payload is kept iff its version is greater than the candidate's, or its datestamp
is not older. -/
theorem preserveSbatUefiVariable_iff {p q : Payload}
    (hattr : checkSbatVarAttributes devel attributes = true)
    (hsize : sbatVarOriginal.length ≤ p.bytes.length) :
    preserveSbatUefiVariable devel ⟨p.bytes, attributes⟩ q.bytes = true ↔
      q.versionNumber < p.versionNumber ∨ q.date ≤ p.date := by
  have hlenp := p.length_bytes
  have hlenq := q.length_bytes
  have hsig : p.mem.strncmp 0 (ofBytes sbatVarSig) 0 sbatVarSig.length = 0 := by
    apply strncmp_eq_zero
    rw [length_sbatVarSig, p.slice_sig]
    decide
  have hmod : ((q.version.length : ℤ) % 2 ^ 64).toNat = q.version.length := by
    have hlt := q.length_lt
    omega
  have hmemp : ofBytes p.bytes = p.mem := rfl
  have hmemq : ofBytes q.bytes = q.mem := rfl
  unfold preserveSbatUefiVariable
  simp only [hmemp, hmemq, hattr, hsig, q.strlen_mem]
  rw [if_neg (by simp; omega), p.nthSbatField_one (by omega), q.nthSbatField_one (by omega),
    p.nthSbatField_two (by omega), q.nthSbatField_two (by omega), p.fieldLength_version,
    q.fieldLength_version, hmod]
  simp only [Bool.or_eq_true, Bool.and_eq_true, decide_eq_true_eq, beq_iff_eq]
  rw [version_compare, date_compare]

/-! ## Calls -/

inductive Rejected (env : LevelEnv) (candidate : List UInt8) : Prop where
  | parse (status : EfiStatus) (h : parseSbatVar env.sbat.pool candidate = .error status)
  | revokes (entries : List VarEntry) (h : parseSbatVar env.sbat.pool candidate = .ok entries)
      (hself : verifySbatSection env.sbat entries env.shimSbat ≠ .success)

def chosen (env : LevelEnv) (st : SbatState) (automatic latest : Payload) : Payload :=
  if (readPolicy env.services st).1 = some policyLatest then latest else automatic

/-- The stored payload `p` is newer than `q` by version or datestamp, or `q` is rejected. -/
abbrev Outlives (env : LevelEnv) (p q : Payload) : Prop :=
  q.versionNumber < p.versionNumber ∨ q.date ≤ p.date ∨ Rejected env q.bytes

variable {env : LevelEnv} {st : SbatState} {p automatic latest : Payload}

@[simp] lemma readPolicy_level (s : Services) (st : SbatState) :
    (readPolicy s st).2.level = st.level := by
  unfold readPolicy
  split_ifs
  · cases getVariable s.readPolicy st.policy <;> rfl
  · rfl

lemma sbatVarCandidate_secure (env : LevelEnv) (st : SbatState) (automatic latest : Payload) :
    sbatVarCandidate true (readPolicy env.services st).1 automatic.bytes latest.bytes =
      ((chosen env st automatic latest).bytes, false) := by
  unfold sbatVarCandidate chosen
  by_cases hlatest : (readPolicy env.services st).1 = some policyLatest
  · rw [if_pos hlatest, if_pos hlatest]
  · rw [if_neg hlatest, if_neg hlatest, if_pos rfl, ite_self]

lemma Payload.bytes_ne_nil (q : Payload) : q.bytes ≠ [] := by
  intro h
  have hlen := q.length_bytes
  rw [h, length_nil] at hlen
  omega

lemma writeLevel_level (hservices : env.services = .working) (q : Payload) (st : SbatState) :
    (writeLevel env q.bytes st).2.level = some ⟨q.bytes, sbatVarAttrs env.devel⟩ := by
  unfold writeLevel
  simp only [hservices, Services.working, setVariable, getVariable, if_neg q.bytes_ne_nil]
  split_ifs <;> simp

lemma replaceLevel_of_rejected {v : Variable} {candidate : List UInt8}
    (h : Rejected env candidate) : (replaceLevel env v candidate st).2.level = st.level := by
  unfold replaceLevel
  cases h with
  | parse status hparse => rw [hparse]
  | revokes entries hparse hself =>
    rw [hparse]
    simp only
    rw [if_pos hself]

lemma replaceLevel_of_not_rejected {v : Variable} {candidate : List UInt8}
    (hservices : env.services = .working) (h : ¬ Rejected env candidate) :
    ∃ st', replaceLevel env v candidate st = writeLevel env candidate st' := by
  unfold replaceLevel
  cases hparse : parseSbatVar env.sbat.pool candidate with
  | error status => exact absurd (.parse status hparse) h
  | ok entries =>
    have hself : ¬ verifySbatSection env.sbat entries env.shimSbat ≠ .success :=
      fun hself => h (.revokes entries hparse hself)
    have hdelete : (setVariable env.services.deleteLevel st.level ⟨[], v.attributes⟩).1 =
        .success := by
      rw [hservices]
      rfl
    simp only
    rw [if_neg hself, if_neg (not_not.mpr hdelete)]
    exact ⟨_, rfl⟩

lemma setSbatUefiVariable_secure {v : Variable} (hsecure : env.secureMode = true)
    (hread : getVariable env.services.readLevel st.level = .ok v) :
    setSbatUefiVariable env automatic.bytes latest.bytes st =
      if preserveSbatUefiVariable env.devel v (chosen env st automatic latest).bytes = true then
        (.success, (readPolicy env.services st).2)
      else replaceLevel env v (chosen env st automatic latest).bytes
        (readPolicy env.services st).2 := by
  unfold setSbatUefiVariable
  simp only [hsecure, sbatVarCandidate_secure, readPolicy_level, hread, true_and]

section

variable (hsecure : env.secureMode = true) (hservices : env.services = .working)
  (hlevel : st.level = some ⟨p.bytes, attributes⟩)
  (hattr : checkSbatVarAttributes env.devel attributes = true)
  (hsize : sbatVarOriginal.length ≤ p.bytes.length)

include hsecure hservices hlevel hattr hsize

lemma setSbatUefiVariable_keeps
    (h : Outlives env p (chosen env st automatic latest)) :
    (setSbatUefiVariable env automatic.bytes latest.bytes st).2.level = st.level := by
  have hread : getVariable env.services.readLevel st.level = .ok ⟨p.bytes, attributes⟩ := by
    simp [hservices, Services.working, getVariable, hlevel, p.bytes_ne_nil]
  rw [setSbatUefiVariable_secure hsecure hread]
  split_ifs with hpreserve
  · exact readPolicy_level _ _
  rw [preserveSbatUefiVariable_iff hattr hsize] at hpreserve
  have hrejected : Rejected env (chosen env st automatic latest).bytes := by
    rcases h with h | h | h
    · exact absurd (.inl h) hpreserve
    · exact absurd (.inr h) hpreserve
    · exact h
  rw [replaceLevel_of_rejected hrejected, readPolicy_level]

lemma setSbatUefiVariable_replaces
    (h : ¬ Outlives env p (chosen env st automatic latest)) :
    (setSbatUefiVariable env automatic.bytes latest.bytes st).2.level =
      some ⟨(chosen env st automatic latest).bytes, sbatVarAttrs env.devel⟩ := by
  have hread : getVariable env.services.readLevel st.level = .ok ⟨p.bytes, attributes⟩ := by
    simp [hservices, Services.working, getVariable, hlevel, p.bytes_ne_nil]
  push Not at h
  rw [setSbatUefiVariable_secure hsecure hread, if_neg]
  · obtain ⟨st', hst'⟩ := replaceLevel_of_not_rejected hservices h.2.2
    rw [hst', writeLevel_level hservices]
  · rw [preserveSbatUefiVariable_iff hattr hsize]
    omega

end

/-! ## Sequences of calls -/

/-- One call in secure mode with working services and well-formed candidates; `SbatPolicy`,
`sbat_policy` and `sbat_var` are as they are then. -/
inductive Call (devel : Bool) (st st' : SbatState) : Prop where
  | mk (env : LevelEnv) (automatic latest : Payload) (before : SbatState)
      (devel_eq : env.devel = devel) (secure : env.secureMode = true)
      (services : env.services = .working)
      (automatic_size : sbatVarOriginal.length ≤ automatic.bytes.length)
      (latest_size : sbatVarOriginal.length ≤ latest.bytes.length)
      (level : before.level = st.level)
      (result : st' = (setSbatUefiVariable env automatic.bytes latest.bytes before).2)

inductive NotOlder (devel : Bool) (p : Payload) (st : SbatState) : Prop where
  | mk (p' : Payload) (attributes : ℕ) (level : st.level = some ⟨p'.bytes, attributes⟩)
      (attr : checkSbatVarAttributes devel attributes = true)
      (size : sbatVarOriginal.length ≤ p'.bytes.length)
      (version : p.versionNumber ≤ p'.versionNumber) (date : p.date ≤ p'.date)

lemma checkSbatVarAttributes_sbatVarAttrs (devel : Bool) :
    checkSbatVarAttributes devel (sbatVarAttrs devel) = true := by
  cases devel <;> rfl

lemma NotOlder.call {st' : SbatState} (h : NotOlder devel p st) (hcall : Call devel st st') :
    NotOlder devel p st' := by
  obtain ⟨p', attributes, hlevel, hattr, hsize, hversion, hdate⟩ := h
  obtain ⟨env, automatic, latest, before, rfl, hsecure, hservices, hauto, hlatest, hbefore, rfl⟩ :=
    hcall
  rw [← hbefore] at hlevel
  by_cases hkeep : Outlives env p' (chosen env before automatic latest)
  · have hkept := setSbatUefiVariable_keeps hsecure hservices hlevel hattr hsize hkeep
    exact ⟨p', attributes, hkept.trans hlevel, hattr, hsize, hversion, hdate⟩
  have hnew := setSbatUefiVariable_replaces hsecure hservices hlevel hattr hsize hkeep
  have hchosen : sbatVarOriginal.length ≤ (chosen env before automatic latest).bytes.length := by
    unfold chosen
    split_ifs
    · exact hlatest
    · exact hauto
  push Not at hkeep
  exact ⟨_, _, hnew, checkSbatVarAttributes_sbatVarAttrs _, hchosen, by omega, by omega⟩

/-- The stored version and datestamp never decrease; and one call keeps the stored variable iff its
version is greater than the candidate's, its datestamp is not older, or the candidate does not parse
or would revoke shim itself. -/
theorem sbatLevel_never_rolls_back (hlevel : st.level = some ⟨p.bytes, attributes⟩)
    (hattr : checkSbatVarAttributes devel attributes = true)
    (hsize : sbatVarOriginal.length ≤ p.bytes.length) :
    (∀ st', Relation.ReflTransGen (Call devel) st st' → NotOlder devel p st') ∧
    ∀ (env : LevelEnv) (automatic latest : Payload), env.devel = devel → env.secureMode = true →
      env.services = .working →
      ((setSbatUefiVariable env automatic.bytes latest.bytes st).2.level = st.level ↔
        Outlives env p (chosen env st automatic latest)) := by
  constructor
  · intro st' hcalls
    induction hcalls with
    | refl => exact ⟨p, attributes, hlevel, hattr, hsize, le_rfl, le_rfl⟩
    | tail _ hcall ih => exact ih.call hcall
  · rintro env automatic latest rfl hsecure hservices
    refine ⟨fun hkept => ?_, setSbatUefiVariable_keeps hsecure hservices hlevel hattr hsize⟩
    by_contra hkeep
    rw [setSbatUefiVariable_replaces hsecure hservices hlevel hattr hsize hkeep, hlevel] at hkept
    have hbytes : (chosen env st automatic latest).bytes = p.bytes := by
      injection hkept with hkept
      injection hkept
    have hpreserve : preserveSbatUefiVariable env.devel ⟨p.bytes, attributes⟩
        (chosen env st automatic latest).bytes = true := by
      rw [hbytes]
      exact (preserveSbatUefiVariable_iff hattr hsize).mpr (.inr le_rfl)
    rcases (preserveSbatUefiVariable_iff hattr hsize).mp hpreserve with h | h
    · exact hkeep (.inl h)
    · exact hkeep (.inr (.inl h))

def originalPayload : Payload where
  version := ofText "1"
  datestamp := ofText "2021030218"
  rest := ofText "\n"
  version_numeral := by decide +kernel
  version_noLeadingZero := by decide +kernel
  datestamp_length := by decide +kernel
  datestamp_digits := by decide +kernel
  rest_line := by decide +kernel
  rest_text := by decide +kernel
  length_lt := by decide +kernel

def revokingPayload : Payload where
  version := ofText "1"
  datestamp := ofText "2025010100"
  rest := ofText "\nshim,9\n"
  version_numeral := by decide +kernel
  version_noLeadingZero := by decide +kernel
  datestamp_length := by decide +kernel
  datestamp_digits := by decide +kernel
  rest_line := by decide +kernel
  rest_text := by decide +kernel
  length_lt := by decide +kernel

def generation4 : LevelEnv where
  secureMode := true
  devel := false
  sbat := loaderEnv
  shimSbat := some (ofBytes (ofText "shim,4,v,p,1,u\n"), 15)
  services := .working

def originalState : SbatState where
  level := some ⟨originalPayload.bytes, uefiVarNvBs⟩
  policy := none
  sbatPolicy := policyNotread
  sbatVar := []

/-- The candidate has the same version and a later datestamp, but would revoke shim itself. -/
theorem setSbatUefiVariable_keeps_older :
    (setSbatUefiVariable generation4 revokingPayload.bytes revokingPayload.bytes
        originalState).2.level = originalState.level ∧
      ¬ revokingPayload.versionNumber < originalPayload.versionNumber ∧
      ¬ revokingPayload.date ≤ originalPayload.date := by
  decide +kernel

theorem sbatLevel_never_rolls_back_original :
    (∀ st', Relation.ReflTransGen (Call false) originalState st' →
      NotOlder false originalPayload st') ∧
    ∀ (env : LevelEnv) (automatic latest : Payload), env.devel = false → env.secureMode = true →
      env.services = .working →
      ((setSbatUefiVariable env automatic.bytes latest.bytes originalState).2.level =
          originalState.level ↔
        Outlives env originalPayload (chosen env originalState automatic latest)) :=
  sbatLevel_never_rolls_back rfl (by decide +kernel) (by decide +kernel)

end Shim.Sbat
