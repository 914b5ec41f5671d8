import Shim.Sbat.Level

/-!
# The SkuSiPolicy variables

`set_ssp_uefi_variable` keeps two variables for the Windows boot manager: the version of its policy
and the signers of its updates. It deletes both and writes both, in four calls of the firmware, and
none of them is undone. The version is meant to grow only.
-/

namespace Shim.Sbat

open Lib Pe List Option

/-! ## The function -/

def sspverSize : ℕ := 8

def sspsigSize : ℕ := 131

def sspVarAttrs : ℕ := uefiVarNvBs

/-- What a pointer to a version or to signers gives: so many bytes, or nothing when it is `NULL`. -/
abbrev SspData (size : ℕ) : Type := Option { data : List UInt8 // data.length = size }

structure SspPair where
  ver : SspData sspverSize
  sig : SspData sspsigSize

def SspPair.null : SspPair := ⟨none, none⟩

structure SspState where
  version : Option Variable
  signers : Option Variable
  policy : Option Variable
  sspPolicy : ℕ

structure SspServices where
  readPolicy : Option EfiStatus
  deletePolicy : Option EfiStatus
  readVersion : Option EfiStatus
  deleteVersion : Option EfiStatus
  deleteSigners : Option EfiStatus
  writeVersion : Option EfiStatus
  writeSigners : Option EfiStatus
  writeVersion_ne : writeVersion ≠ some .success

def SspServices.working : SspServices :=
  ⟨none, none, none, none, none, none, none, EfiStatus.none_ne_success⟩

structure SspEnv where
  secureMode : Bool
  devel : Bool
  services : SspServices

def sspWord (ver : List UInt8) (k : ℕ) : ℕ := (Mem.ofBytes ver).u16 (2 * k)

def sspVerToUll (ver : List UInt8) : ℕ :=
  (sspWord ver 0 * 2 ^ 48 + sspWord ver 1 * 2 ^ 32 + sspWord ver 2 * 2 ^ 16 + sspWord ver 3) % 2 ^ 64

def preserveSspUefiVariable (devel : Bool) (applied : Variable) (candidate : SspData sspverSize) :
    Bool :=
  match candidate with
  | none => false
  | some ver =>
    if applied.data.length ≠ sspverSize then false
    else if checkSbatVarAttributes devel applied.attributes = false then false
    else !(sspVerToUll applied.data < sspVerToUll ver.1)

def readSspPolicy (s : SspServices) (st : SspState) : Option ℕ × SspState :=
  if st.sspPolicy = policyNotread then
    match getVariable s.readPolicy st.policy with
    | .error _ => (none, st)
    | .ok v =>
      let policy := (v.data.headD 0).toNat
      (some policy, { st with
        sspPolicy := policy
        policy := (setVariable s.deletePolicy st.policy ⟨[], 0⟩).2 })
  else (some st.sspPolicy, st)

def sspCandidate (secureMode : Bool) (policy : Option ℕ) (automatic latest : SspPair) :
    SspPair × Bool :=
  if policy = some policyLatest then (latest, false)
  else if policy = some policyReset ∧ secureMode = false then (.null, true)
  else (automatic, false)

def clearSspUefiVariables (s : SspServices) (st : SspState) : EfiStatus × SspState :=
  let ver := setVariable s.deleteVersion st.version ⟨[], 0⟩
  let sig := setVariable s.deleteSigners st.signers ⟨[], 0⟩
  (if sig.1 ≠ .success then sig.1 else ver.1, { st with version := ver.2, signers := sig.2 })

/-- A write of data that a pointer gives. The size is not zero, so that the firmware refuses `NULL`. -/
def setSspVariable {size : ℕ} (fails : Option EfiStatus) (old : Option Variable)
    (data : SspData size) : EfiStatus × Option Variable :=
  match data with
  | none => (fails.getD .invalidParameter, old)
  | some data => setVariable fails old ⟨data.1, sspVarAttrs⟩

def writeSsp (s : SspServices) (candidate : SspPair) (st : SspState) : EfiStatus × SspState :=
  let ver := setSspVariable s.writeVersion st.version candidate.ver
  let st := { st with version := ver.2 }
  if ver.1 ≠ .success then (ver.1, st)
  else
    let sig := setSspVariable s.writeSigners st.signers candidate.sig
    (sig.1, { st with signers := sig.2 })

def setSspUefiVariable (env : SspEnv) (automatic latest : SspPair) (st : SspState) :
    EfiStatus × SspState :=
  let (policy, st) := readSspPolicy env.services st
  let (candidate, reset) := sspCandidate env.secureMode policy automatic latest
  if candidate.ver = none ∧ candidate.sig = none ∧ reset = false then (.success, st)
  else
    match getVariable env.services.readVersion st.version with
    | .error status => if reset then (status, st) else writeSsp env.services candidate st
    | .ok v =>
      if preserveSspUefiVariable env.devel v candidate.ver = true ∧ reset = false then
        (.success, st)
      else
        let (status, st) := clearSspUefiVariables env.services st
        if reset then (status, st) else writeSsp env.services candidate st

def sspWords (ver : List UInt8) : List ℕ := (List.range 4).map (sspWord ver)

lemma sspWord_lt (ver : List UInt8) (k : ℕ) : sspWord ver k < 2 ^ 16 := Mem.u16_lt _ _

lemma sspVerToUll_lt_iff (a b : List UInt8) :
    sspVerToUll a < sspVerToUll b ↔ sspWords a < sspWords b := by
  have ha := sspWord_lt a
  have hb := sspWord_lt b
  have hwords : ∀ l, sspWords l = [sspWord l 0, sspWord l 1, sspWord l 2, sspWord l 3] :=
    fun _ => rfl
  have ha0 := ha 0
  have ha1 := ha 1
  have ha2 := ha 2
  have ha3 := ha 3
  have hb0 := hb 0
  have hb1 := hb 1
  have hb2 := hb 2
  have hb3 := hb 3
  rw [hwords, hwords]
  simp only [cons_lt_cons_iff, sspVerToUll, lt_irrefl, and_false, or_false]
  omega

def Variable.bytes? (v : Option Variable) : Option (List UInt8) := v.map Variable.data

open Variable (bytes?)

def remaining (cleared : Bool) (fails : Option EfiStatus) (old : Option Variable) :
    Option Variable :=
  if cleared then (setVariable fails old ⟨[], 0⟩).2 else old

lemma remaining_bytes_eq_iff {cleared : Bool} {fails : Option EfiStatus} {old : Option Variable} :
    bytes? (remaining cleared fails old) = bytes? old ↔
      (cleared = true → fails ≠ none ∨ old = none) := by
  unfold remaining setVariable bytes?
  cases cleared <;> cases fails <;> cases old <;> simp

lemma remaining_bytes_eq_some_iff {cleared : Bool} {fails : Option EfiStatus}
    {old : Option Variable} {b : List UInt8} :
    bytes? (remaining cleared fails old) = some b ↔
      bytes? old = some b ∧ (cleared = true → fails ≠ none) := by
  unfold remaining setVariable bytes?
  cases cleared <;> cases fails <;> cases old <;> simp

section

variable {s : SspServices} {candidate : SspPair} {st : SspState}
  {ver : { data : List UInt8 // data.length = sspverSize }}

lemma writeSsp_of_not_written (h : candidate.ver = none ∨ s.writeVersion ≠ none) :
    (writeSsp s candidate st).2 = st := by
  have hver : setSspVariable s.writeVersion st.version candidate.ver =
      (s.writeVersion.getD .invalidParameter, st.version) := by
    unfold setSspVariable
    cases hcandidate : candidate.ver with
    | none => rfl
    | some ver =>
      obtain ⟨status, hstatus⟩ := ne_none_iff_exists'.1
        (h.resolve_left (by rw [hcandidate]; exact some_ne_none _))
      simp [hstatus, setVariable]
  have herror : s.writeVersion.getD .invalidParameter ≠ .success := by
    cases hstatus : s.writeVersion with
    | none => exact EfiStatus.noConfusion
    | some status =>
      rintro rfl
      exact s.writeVersion_ne hstatus
  unfold writeSsp
  simp only [hver, ne_eq, herror, not_false_eq_true, if_true]

lemma setSspVariable_of_some {size : ℕ} (hsize : 0 < size) (old : Option Variable)
    (data : { data : List UInt8 // data.length = size }) :
    setSspVariable none old (some data) = (.success, some ⟨data.1, sspVarAttrs⟩) := by
  have hne : data.1 ≠ [] := ne_nil_of_length_pos (by rw [data.2]; exact hsize)
  exact congrArg (Prod.mk EfiStatus.success) (if_neg hne)

lemma writeSsp_of_written (hver : candidate.ver = some ver) (hwrite : s.writeVersion = none) :
    (writeSsp s candidate st).2 = { st with
        version := some ⟨ver.1, sspVarAttrs⟩
        signers := (setSspVariable s.writeSigners st.signers candidate.sig).2 } := by
  unfold writeSsp
  rw [hver, hwrite, setSspVariable_of_some (by decide)]
  rfl

lemma setSspVariable_of_not_written {fails : Option EfiStatus} {old : Option Variable}
    {size : ℕ} {data : SspData size} (h : data = none ∨ fails ≠ none) :
    (setSspVariable fails old data).2 = old := by
  unfold setSspVariable setVariable
  cases data <;> cases fails <;> simp_all

end

/-! ## Calls -/

structure SspCall where
  env : SspEnv
  automatic : SspPair
  latest : SspPair

namespace SspCall

variable (c : SspCall) (st : SspState)

def next : SspState := (setSspUefiVariable c.env c.automatic c.latest st).2

def candidate : SspPair :=
  (sspCandidate c.env.secureMode (readSspPolicy c.env.services st).1 c.automatic c.latest).1

def reads : Bool := (getVariable c.env.services.readVersion st.version).toBool

def Writes : Prop :=
  ¬ ((c.candidate st).ver = none ∧ (c.candidate st).sig = none) ∧
    ∀ v, getVariable c.env.services.readVersion st.version = .ok v →
      preserveSspUefiVariable c.env.devel v (c.candidate st).ver = false

end SspCall

@[simp] lemma readSspPolicy_version (s : SspServices) (st : SspState) :
    (readSspPolicy s st).2.version = st.version := by
  unfold readSspPolicy
  split_ifs
  · cases getVariable s.readPolicy st.policy <;> rfl
  · rfl

@[simp] lemma readSspPolicy_signers (s : SspServices) (st : SspState) :
    (readSspPolicy s st).2.signers = st.signers := by
  unfold readSspPolicy
  split_ifs
  · cases getVariable s.readPolicy st.policy <;> rfl
  · rfl

lemma sspCandidate_secure (policy : Option ℕ) (automatic latest : SspPair) :
    (sspCandidate true policy automatic latest).2 = false := by
  unfold sspCandidate
  split_ifs with h h'
  · rfl
  · cases h'.2
  · rfl

section

variable {c : SspCall} {st : SspState}

lemma SspCall.next_of_not_writes (hsecure : c.env.secureMode = true) (h : ¬ c.Writes st) :
    (c.next st).version = st.version ∧ (c.next st).signers = st.signers := by
  unfold SspCall.Writes SspCall.candidate at h
  unfold SspCall.next setSspUefiVariable
  rw [hsecure] at h ⊢
  simp only [sspCandidate_secure, and_true, readSspPolicy_version, Bool.false_eq_true, if_false]
  split_ifs with hnull
  · exact ⟨readSspPolicy_version _ _, readSspPolicy_signers _ _⟩
  obtain ⟨v, hkept⟩ := not_forall.1 (not_and.1 h hnull)
  obtain ⟨hread, hpreserve⟩ := Classical.not_imp.1 hkept
  simp only [hread]
  rw [if_pos (by simpa using hpreserve)]
  exact ⟨readSspPolicy_version _ _, readSspPolicy_signers _ _⟩

lemma SspCall.next_of_writes (hsecure : c.env.secureMode = true) (h : c.Writes st) :
    c.next st = (writeSsp c.env.services (c.candidate st) { (readSspPolicy c.env.services st).2 with
        version := remaining (c.reads st) c.env.services.deleteVersion st.version
        signers := remaining (c.reads st) c.env.services.deleteSigners st.signers }).2 := by
  obtain ⟨hsupplied, hlower⟩ := h
  unfold SspCall.candidate at hsupplied hlower
  unfold SspCall.next SspCall.candidate SspCall.reads setSspUefiVariable
  rw [hsecure] at hsupplied hlower ⊢
  simp only [sspCandidate_secure, and_true, readSspPolicy_version]
  rw [if_neg hsupplied]
  cases hread : getVariable c.env.services.readVersion st.version with
  | error status =>
    have hstate : (readSspPolicy c.env.services st).2 =
        { (readSspPolicy c.env.services st).2 with version := st.version, signers := st.signers } := by
      rw [← readSspPolicy_version c.env.services st, ← readSspPolicy_signers c.env.services st]
    simp [remaining, Except.toBool, ← hstate]
  | ok v =>
    have hpreserve := hlower v hread
    simp [hpreserve, remaining, Except.toBool, clearSspUefiVariables]

end

/-! ## What a call keeps -/

def sspVersion (v : Option Variable) : Option (List ℕ) :=
  v.bind fun v => if v.data.length = sspverSize then some (sspWords v.data) else none

def NotLower (old new : Option Variable) : Prop :=
  ∀ w, sspVersion old = some w → ∃ w', sspVersion new = some w' ∧ w ≤ w'

lemma NotLower.refl (v : Option Variable) : NotLower v v := fun w hw => ⟨w, hw, le_rfl⟩

lemma NotLower.trans {u v w : Option Variable} (huv : NotLower u v) (hvw : NotLower v w) :
    NotLower u w := by
  intro x hx
  obtain ⟨y, hy, hxy⟩ := huv x hx
  obtain ⟨z, hz, hyz⟩ := hvw y hy
  exact ⟨z, hz, hxy.trans hyz⟩

lemma sspVersion_congr {u v : Option Variable} (h : bytes? u = bytes? v) :
    sspVersion u = sspVersion v := by
  unfold bytes? at h
  unfold sspVersion
  cases u <;> cases v <;> simp_all

namespace SspCall

def KeepsPair (c : SspCall) (st : SspState) : Prop :=
  (bytes? (c.next st).version = bytes? st.version ∧
      bytes? (c.next st).signers = bytes? st.signers) ∨
    ∃ ver sig, c.candidate st = ⟨some ver, some sig⟩ ∧
      bytes? (c.next st).version = some ver.1 ∧ bytes? (c.next st).signers = some sig.1

/-- Nothing has been deleted when no version is written; when only the version is, the other half
was right already; a version that was not compared is no greater. -/
structure OkIn (c : SspCall) (st : SspState) : Prop where
  unwritten : c.Writes st → (c.candidate st).ver = none ∨ c.env.services.writeVersion ≠ none →
    c.reads st = true → c.env.services.deleteVersion ≠ none ∧
      (c.env.services.deleteSigners ≠ none ∨ st.signers = none)
  halfWritten : ∀ ver, c.Writes st → (c.candidate st).ver = some ver →
    c.env.services.writeVersion = none →
    (c.candidate st).sig = none ∨ c.env.services.writeSigners ≠ none →
      (bytes? st.version = some ver.1 ∧
        (c.reads st = true → c.env.services.deleteSigners ≠ none ∨ st.signers = none)) ∨
      ∃ sig, (c.candidate st).sig = some sig ∧ bytes? st.signers = some sig.1 ∧
        (c.reads st = true → c.env.services.deleteSigners ≠ none)
  notCompared : ∀ ver v w, c.Writes st → (c.candidate st).ver = some ver →
    c.env.services.writeVersion = none → st.version = some v → sspVersion (some v) = some w →
    c.env.services.readVersion ≠ none ∨ checkSbatVarAttributes c.env.devel v.attributes = false →
      w ≤ sspWords ver.1

end SspCall

section

variable {c : SspCall} {st : SspState} {ver : { data : List UInt8 // data.length = sspverSize }}

lemma SspCall.reads_eq_true_iff : c.reads st = true ↔ c.env.services.readVersion = none ∧
      ∃ v, st.version = some v ∧ v.data ≠ [] := by
  unfold SspCall.reads getVariable
  cases c.env.services.readVersion <;> cases st.version <;> simp [Except.toBool]
  split_ifs <;> simp_all

lemma SspCall.Writes.words_lt {v : Variable} {w : List ℕ} (h : c.Writes st)
    (hver : (c.candidate st).ver = some ver) (hread : c.env.services.readVersion = none)
    (hv : st.version = some v) (hattr : checkSbatVarAttributes c.env.devel v.attributes = true)
    (hw : sspVersion (some v) = some w) : w < sspWords ver.1 := by
  unfold sspVersion at hw
  simp only [bind_some] at hw
  split_ifs at hw with hsize
  cases hw
  have hne : v.data ≠ [] := by
    intro hnil
    rw [hnil] at hsize
    cases hsize
  have hget : getVariable c.env.services.readVersion st.version = .ok v := by
    unfold getVariable
    simp only [hread, hv]
    rw [if_neg hne]
  have hpreserve := h.2 v hget
  unfold preserveSspUefiVariable at hpreserve
  rw [hver] at hpreserve
  simp only [hsize, ne_eq, not_true_eq_false, if_false, hattr, Bool.true_eq_false] at hpreserve
  rw [← sspVerToUll_lt_iff]
  simpa using hpreserve

lemma SspCall.Writes.notLower_iff (h : c.Writes st) (hver : (c.candidate st).ver = some ver)
    {new : Option Variable} (hnew : bytes? new = some ver.1) :
    NotLower st.version new ↔ ∀ v w, st.version = some v → sspVersion (some v) = some w →
        c.env.services.readVersion ≠ none ∨
            checkSbatVarAttributes c.env.devel v.attributes = false →
          w ≤ sspWords ver.1 := by
  have hversion : sspVersion new = some (sspWords ver.1) := by
    rw [sspVersion_congr (v := some ⟨ver.1, sspVarAttrs⟩) (by rw [hnew]; rfl)]
    unfold sspVersion
    simp only [bind_some]
    exact if_pos ver.2
  constructor
  · intro hlower v w hv hw _
    obtain ⟨w', hw', hle⟩ := hlower w (by rw [hv]; exact hw)
    rw [hversion] at hw'
    cases hw'
    exact hle
  · intro hle w hw
    refine ⟨_, hversion, ?_⟩
    cases hv : st.version with
    | none =>
      rw [hv] at hw
      cases hw
    | some v =>
      rw [hv] at hw
      by_cases hseen : c.env.services.readVersion ≠ none ∨
          checkSbatVarAttributes c.env.devel v.attributes = false
      · exact hle v w hv hw hseen
      · obtain ⟨hread, hattr⟩ := not_or.1 hseen
        exact (h.words_lt hver (not_not.1 hread) hv (by simpa using hattr) hw).le

section

variable (hsecure : c.env.secureMode = true)
include hsecure

lemma SspCall.okIn_iff_of_unwritten (h : c.Writes st)
    (hver : (c.candidate st).ver = none ∨ c.env.services.writeVersion ≠ none) :
    (c.KeepsPair st ∧ NotLower st.version (c.next st).version) ↔ c.OkIn st := by
  have hnext := c.next_of_writes hsecure h
  rw [writeSsp_of_not_written hver] at hnext
  have hversion : (c.next st).version =
      remaining (c.reads st) c.env.services.deleteVersion st.version := by rw [hnext]
  have hsigners : (c.next st).signers =
      remaining (c.reads st) c.env.services.deleteSigners st.signers := by rw [hnext]
  have hnever : ∀ ver, (c.candidate st).ver = some ver → c.env.services.writeVersion ≠ none :=
    fun ver hsome => hver.resolve_left (by rw [hsome]; exact some_ne_none _)
  constructor
  · rintro ⟨hpair, -⟩
    refine ⟨fun _ _ hreads => ?_, fun ver _ hsome hwrite => absurd hwrite (hnever ver hsome),
      fun ver _ _ _ hsome hwrite => absurd hwrite (hnever ver hsome)⟩
    -- a variable that is not written has its old bytes or none
    have hsame : bytes? (c.next st).version = bytes? st.version ∧
        bytes? (c.next st).signers = bytes? st.signers := by
      rcases hpair with hsame | ⟨ver, sig, -, hv, hs⟩
      · exact hsame
      rw [hversion] at hv ⊢
      rw [hsigners] at hs ⊢
      exact ⟨hv.trans (remaining_bytes_eq_some_iff.1 hv).1.symm,
        hs.trans (remaining_bytes_eq_some_iff.1 hs).1.symm⟩
    rw [hversion, hsigners, remaining_bytes_eq_iff, remaining_bytes_eq_iff] at hsame
    obtain ⟨-, v, hv, -⟩ := SspCall.reads_eq_true_iff.1 hreads
    refine ⟨(hsame.1 hreads).resolve_right ?_, hsame.2 hreads⟩
    rw [hv]
    exact some_ne_none _
  · intro hok
    have hv : bytes? (c.next st).version = bytes? st.version := by
      rw [hversion, remaining_bytes_eq_iff]
      exact fun hreads => .inl (hok.unwritten h hver hreads).1
    have hs : bytes? (c.next st).signers = bytes? st.signers := by
      rw [hsigners, remaining_bytes_eq_iff]
      exact fun hreads => (hok.unwritten h hver hreads).2
    refine ⟨.inl ⟨hv, hs⟩, fun w hw => ⟨w, ?_, le_rfl⟩⟩
    rw [sspVersion_congr hv]
    exact hw

lemma SspCall.okIn_iff_of_written (h : c.Writes st)
    (hver : (c.candidate st).ver = some ver) (hwrite : c.env.services.writeVersion = none) :
    (c.KeepsPair st ∧ NotLower st.version (c.next st).version) ↔ c.OkIn st := by
  have hnext := c.next_of_writes hsecure h
  rw [writeSsp_of_written hver hwrite] at hnext
  have hversion : bytes? (c.next st).version = some ver.1 := by rw [hnext]; rfl
  have hsigners : (c.next st).signers = (setSspVariable c.env.services.writeSigners
      (remaining (c.reads st) c.env.services.deleteSigners st.signers)
        (c.candidate st).sig).2 := by rw [hnext]
  have hsome : ∀ ver', (c.candidate st).ver = some ver' → ver' = ver :=
    fun ver' h' => Option.some.inj (h'.symm.trans hver)
  have hunwritten : ¬ ((c.candidate st).ver = none ∨ c.env.services.writeVersion ≠ none) := by
    rw [hver, hwrite]
    simp
  have hlower := h.notLower_iff hver hversion
  by_cases hsig : (c.candidate st).sig = none ∨ c.env.services.writeSigners ≠ none
  · rw [setSspVariable_of_not_written hsig] at hsigners
    have hpair : c.KeepsPair st ↔ (bytes? st.version = some ver.1 ∧
          (c.reads st = true → c.env.services.deleteSigners ≠ none ∨ st.signers = none)) ∨
        ∃ sig, (c.candidate st).sig = some sig ∧ bytes? st.signers = some sig.1 ∧
          (c.reads st = true → c.env.services.deleteSigners ≠ none) := by
      unfold SspCall.KeepsPair
      rw [hversion, hsigners, remaining_bytes_eq_iff, eq_comm (a := some ver.1)]
      refine or_congr_right ⟨?_, ?_⟩
      · rintro ⟨ver', sig, hcandidate, -, hs⟩
        exact ⟨sig, by rw [hcandidate], remaining_bytes_eq_some_iff.1 hs⟩
      · rintro ⟨sig, hcandidate, hs⟩
        exact ⟨ver, sig, by rw [← hver, ← hcandidate], rfl, remaining_bytes_eq_some_iff.2 hs⟩
    rw [hpair, hlower]
    constructor
    · rintro ⟨hhalf, hle⟩
      refine ⟨fun _ hnot => absurd hnot hunwritten, fun ver' _ h' _ _ => ?_,
        fun ver' v w _ h' _ => ?_⟩
      · rw [hsome ver' h']
        exact hhalf
      · rw [hsome ver' h']
        exact hle v w
    · intro hok
      exact ⟨hok.halfWritten ver h hver hwrite hsig,
        fun v w => hok.notCompared ver v w h hver hwrite⟩
  · obtain ⟨hsupplied, hwritten⟩ := not_or.1 hsig
    obtain ⟨sig, hcandidate⟩ := ne_none_iff_exists'.1 hsupplied
    rw [hcandidate, not_not.1 hwritten, setSspVariable_of_some (by decide)] at hsigners
    have hpair : c.KeepsPair st := by
      refine .inr ⟨ver, sig, by rw [← hver, ← hcandidate], hversion, ?_⟩
      rw [hsigners]
      rfl
    rw [and_iff_right hpair, hlower]
    constructor
    · intro hle
      refine ⟨fun _ hnot => absurd hnot hunwritten, fun _ _ _ _ hnot => absurd hnot hsig,
        fun ver' v w _ h' _ => ?_⟩
      rw [hsome ver' h']
      exact hle v w
    · intro hok v w
      exact hok.notCompared ver v w h hver hwrite

lemma SspCall.okIn_iff :
    (c.KeepsPair st ∧ NotLower st.version (c.next st).version) ↔ c.OkIn st := by
  by_cases h : c.Writes st
  · by_cases hver : (c.candidate st).ver = none ∨ c.env.services.writeVersion ≠ none
    · exact SspCall.okIn_iff_of_unwritten hsecure h hver
    · obtain ⟨hsupplied, hwrite⟩ := not_or.1 hver
      obtain ⟨ver, hcandidate⟩ := ne_none_iff_exists'.1 hsupplied
      exact SspCall.okIn_iff_of_written hsecure h hcandidate (not_not.1 hwrite)
  · obtain ⟨hversion, hsigners⟩ := SspCall.next_of_not_writes hsecure h
    refine iff_of_true ⟨.inl ⟨by rw [hversion], by rw [hsigners]⟩, ?_⟩
      ⟨fun hw => absurd hw h, fun _ hw => absurd hw h, fun _ _ _ hw => absurd hw h⟩
    rw [hversion]
    exact NotLower.refl _

end

end

/-! ## Sequences of calls -/

def sspAfter (st : SspState) (calls : List SspCall) : SspState :=
  calls.foldl (fun st c => c.next st) st

lemma sspAfter_append (st : SspState) (pre post : List SspCall) :
    sspAfter st (pre ++ post) = sspAfter (sspAfter st pre) post := foldl_append

lemma notLower_sspAfter {calls : List SspCall} {st : SspState}
    (h : ∀ pre c post, calls = pre ++ c :: post →
      NotLower (sspAfter st pre).version (c.next (sspAfter st pre)).version) :
    NotLower st.version (sspAfter st calls).version := by
  induction calls generalizing st with
  | nil => exact NotLower.refl _
  | cons c calls ih =>
    refine (h [] c calls rfl).trans (ih fun pre c' post hcalls => ?_)
    exact h (c :: pre) c' post (by rw [hcalls]; rfl)

/-- Each call leaves both variables as they were or writes the candidate's pair, and the version
never falls, exactly when each call meets `OkIn`. -/
theorem sspRun_iff (st : SspState) (calls : List SspCall)
    (hsecure : ∀ c ∈ calls, c.env.secureMode = true) :
    ((∀ pre c post, calls = pre ++ c :: post → c.KeepsPair (sspAfter st pre)) ∧
      ∀ pre mid post, calls = pre ++ mid ++ post →
        NotLower (sspAfter st pre).version (sspAfter st (pre ++ mid)).version) ↔
    ∀ pre c post, calls = pre ++ c :: post → c.OkIn (sspAfter st pre) := by
  constructor
  · rintro ⟨hpair, hlower⟩ pre c post hcalls
    have hmem : c ∈ calls := by rw [hcalls]; simp
    refine (SspCall.okIn_iff (hsecure c hmem)).1 ⟨hpair pre c post hcalls, ?_⟩
    have hstep := hlower pre [c] post (by rw [hcalls]; simp)
    rw [sspAfter_append] at hstep
    exact hstep
  · intro hok
    have hstep : ∀ pre c post, calls = pre ++ c :: post → c.KeepsPair (sspAfter st pre) ∧
        NotLower (sspAfter st pre).version (c.next (sspAfter st pre)).version := by
      intro pre c post hcalls
      have hmem : c ∈ calls := by rw [hcalls]; simp
      exact (SspCall.okIn_iff (hsecure c hmem)).2 (hok pre c post hcalls)
    refine ⟨fun pre c post hcalls => (hstep pre c post hcalls).1, fun pre mid post hcalls => ?_⟩
    rw [sspAfter_append]
    refine notLower_sspAfter fun pre' c post' hmid => ?_
    have hsplit := (hstep (pre ++ pre') c (post' ++ post) (by rw [hcalls, hmid]; simp)).2
    rw [sspAfter_append] at hsplit
    exact hsplit

def majorVersion (major : UInt8) : { data : List UInt8 // data.length = sspverSize } :=
  ⟨[major, 0, 0, 0, 0, 0, 0, 0], rfl⟩

def someSigners (b : UInt8) : { data : List UInt8 // data.length = sspsigSize } :=
  ⟨List.replicate sspsigSize b, List.length_replicate⟩

def versionOne : SspState where
  version := some ⟨(majorVersion 1).1, sspVarAttrs⟩
  signers := some ⟨(someSigners 1).1, sspVarAttrs⟩
  policy := none
  sspPolicy := policyLatest

def latestCall (latest : SspPair) : SspCall :=
  ⟨⟨true, false, .working⟩, ⟨some (majorVersion 2), some (someSigners 2)⟩, latest⟩

/-- A latest version without signers deletes the signers, and latest signers without a version
delete both. -/
theorem latestCall_splits_pair : ¬ (latestCall ⟨some (majorVersion 2), none⟩).KeepsPair versionOne ∧
      ¬ NotLower versionOne.version
        ((latestCall ⟨none, some (someSigners 2)⟩).next versionOne).version := by
  constructor
  · have hsigners : bytes? ((latestCall ⟨some (majorVersion 2), none⟩).next versionOne).signers =
        none := by decide +kernel
    rintro (⟨-, h⟩ | ⟨ver, sig, -, -, h⟩)
    · rw [hsigners] at h
      cases h
    · rw [hsigners] at h
      cases h
  · intro h
    obtain ⟨w, hw, -⟩ := h (sspWords (majorVersion 1).1) rfl
    have hlost : ((latestCall ⟨none, some (someSigners 2)⟩).next versionOne).version = none := by
      decide +kernel
    rw [hlost] at hw
    cases hw

theorem sspRun_latest :
    (latestCall ⟨some (majorVersion 2), some (someSigners 2)⟩).env.secureMode = true ∧
      NotLower versionOne.version (sspAfter versionOne
          [latestCall ⟨some (majorVersion 2), some (someSigners 2)⟩]).version := by
  have hsecure : ∀ c ∈ [latestCall ⟨some (majorVersion 2), some (someSigners 2)⟩],
      c.env.secureMode = true := by simp [latestCall]
  have hok : (latestCall ⟨some (majorVersion 2), some (someSigners 2)⟩).OkIn versionOne := by
    refine ⟨fun _ h => ?_, fun _ _ _ _ h => ?_, fun _ v _ _ _ _ hv _ h => ?_⟩
    · exact absurd h (by decide +kernel)
    · exact absurd h (by decide +kernel)
    · cases hv
      exact absurd h (by decide +kernel)
  refine ⟨rfl, ((sspRun_iff versionOne _ hsecure).2 fun pre c post h => ?_).2 [] _ [] rfl⟩
  obtain ⟨rfl, rfl, rfl⟩ : pre = [] ∧ c = _ ∧ post = [] := by
    cases pre with
    | nil => simpa using h.symm
    | cons => simp at h
  exact hok

end Shim.Sbat
