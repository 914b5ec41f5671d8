import Shim.Lib.CStr
import Shim.Pe.HashSpec
import Shim.Verify.Authenticode

/-!
# What a verdict of `verify_buffer_authenticode` means

* `DeniedHash`, `DeniedCert`, `AllowedHash` and `AllowedCert` say, without any order of checks, what
  it is to be found in a database.
* `IsEntry` — an entry that the loop over the certificate table gets to.
* `HoldsFrom` — a table of well-formed entries; `tableVerdict_perm` — their order does not matter.
-/

namespace Shim.Verify

open Shim.Lib Shim.Pe List Run

variable {e : VerifyEnv} {f : File} {c : Context} {h : ImageHash}

/-! ## Searches -/

def HashListed (db : Option SigDb) (data : List UInt8) (certType : Guid) : Prop :=
  ∃ d, db = some d ∧ ∃ o, d.IsList o ∧ d.HasHash data certType o

/-- The signature is verified by the certificate that the search examines in some list of the
database, if there is a database. -/
def CertListed (e : VerifyEnv) (db : Option SigDb) (p7Data hash : List UInt8) : Prop :=
  ∃ d, db = some d ∧ ∃ o, d.IsList o ∧ d.HasCert e.crypto p7Data hash o

lemma checkDbInRam_iff_listed {db : SigDb} {look : ℕ → Run Access Fault Bool} {hit : ℕ → Prop}
    {rc : CheckStatus} (hlook : ∀ o b, (look o).Yields b → (b = true ↔ hit o))
    (hrun : (db.checkDbInRam look).Yields rc) :
    rc = .dataFound ↔ ∃ o, db.IsList o ∧ hit o := by
  constructor
  · rintro rfl
    obtain ⟨o, ho, hl⟩ := SigDb.checkDbInRam_found hrun
    exact ⟨o, ho, (hlook o true hl).mp rfl⟩
  · rintro ⟨o, ho, hit⟩
    by_contra hne
    have hnot : rc = .dataNotFound := by
      obtain ⟨o', -, ho'⟩ := reaches_of_loop_yields (SigDb.checkDbInRam_yields.mp hrun)
      rcases SigDb.listRound_yields_inr.mp ho' with ⟨-, hrc⟩ | ⟨-, -, hrc⟩
      · exact hrc
      · exact absurd hrc hne
    rw [hnot] at hrun
    have hfalse := (hlook o false (SigDb.checkDbInRam_notFound hrun ho)).mpr hit
    cases hfalse

lemma checkDbHash_ok {db : Option SigDb} {data : List UInt8} {certType : Guid} {rc : CheckStatus}
    (hrun : checkDbHash db data certType = .ok rc) :
    rc = .dataFound ↔ HashListed db data certType := by
  unfold HashListed
  cases db with
  | none =>
    cases hrun
    simp
  | some db =>
    have hlisted := checkDbInRam_iff_listed (fun o b hb => (hashLook_yields.mp hb).2) hrun
    simpa using hlisted

lemma checkDbCert_ok {db : Option SigDb} {p7Data hash : List UInt8} {rc : CheckStatus}
    (hrun : checkDbCert e db p7Data hash = .ok rc) :
    rc = .dataFound ↔ CertListed e db p7Data hash := by
  unfold CertListed
  cases db with
  | none =>
    cases hrun
    simp
  | some db =>
    have hlisted := checkDbInRam_iff_listed (fun o b hb => certLook_yields.mp hb) hrun
    simpa using hlisted

lemma anyFound_true {xs : List (Except Fault CheckStatus)} (hrun : anyFound xs = .ok true) :
    ∃ x ∈ xs, x = .ok .dataFound := by
  induction xs with
  | nil => cases hrun
  | cons x xs ih =>
    rw [anyFound, bind_eq_ok] at hrun
    obtain ⟨rc, hx, hrun⟩ := hrun
    split_ifs at hrun with hrc
    · exact ⟨x, mem_cons_self, by rw [hx, hrc]⟩
    · obtain ⟨y, hy, hfound⟩ := ih hrun
      exact ⟨y, mem_cons_of_mem x hy, hfound⟩

section

variable {xs : List (Except Fault CheckStatus)} (hrun : anyFound xs = .ok false)
  {db : Option SigDb}
include hrun

lemma anyFound_false : ∀ x ∈ xs, ∃ rc, x = .ok rc ∧ rc ≠ .dataFound := by
  induction xs with
  | nil => exact fun x hx => absurd hx (by simp)
  | cons x xs ih =>
    rw [anyFound, bind_eq_ok] at hrun
    obtain ⟨rc, hx, hrun⟩ := hrun
    split_ifs at hrun with hrc
    · cases hrun
    · rw [forall_mem_cons]
      exact ⟨⟨rc, hx, hrc⟩, ih hrun⟩

lemma not_hashListed {data : List UInt8} {certType : Guid}
    (hmem : checkDbHash db data certType ∈ xs) : ¬ HashListed db data certType := by
  obtain ⟨rc, hrc, hne⟩ := anyFound_false hrun _ hmem
  rwa [← checkDbHash_ok hrc]

lemma not_certListed {p7Data hash : List UInt8} (hmem : checkDbCert e db p7Data hash ∈ xs) :
    ¬ CertListed e db p7Data hash := by
  obtain ⟨rc, hrc, hne⟩ := anyFound_false hrun _ hmem
  rwa [← checkDbCert_ok hrc]

end

/-! ## Denied and allowed -/

/-- A hash of the image is in the vendor's denylist or in `dbx`, or its SHA-256 hash is in
`MokListX`. -/
def DeniedHash (e : VerifyEnv) (h : ImageHash) : Prop :=
  HashListed (some e.vendorDeauthorized) h.sha256 certSha256Guid ∨
    HashListed (some e.vendorDeauthorized) h.sha1 certSha1Guid ∨
    HashListed e.dbx h.sha256 certSha256Guid ∨ HashListed e.dbx h.sha1 certSha1Guid ∨
    HashListed e.mokListX h.sha256 certSha256Guid

def DeniedCert (e : VerifyEnv) (p7Data : List UInt8) (h : ImageHash) : Prop :=
  CertListed e (some e.vendorDeauthorized) p7Data h.sha256 ∨ CertListed e e.dbx p7Data h.sha256 ∨
    CertListed e e.mokListX p7Data h.sha256

/-- A hash of the image is in `db`, which may be ignored, in the vendor's database or in
`MokListRT`. -/
def AllowedHash (e : VerifyEnv) (h : ImageHash) : Prop :=
  (e.ignoreDb = false ∧
      (HashListed e.db h.sha256 certSha256Guid ∨ HashListed e.db h.sha1 certSha1Guid)) ∨
    HashListed e.vendorDb h.sha256 certSha256Guid ∨ HashListed e.mokListRT h.sha256 certSha256Guid

def AllowedCert (e : VerifyEnv) (p7Data : List UInt8) (h : ImageHash) : Prop :=
  (e.ignoreDb = false ∧ CertListed e e.db p7Data h.sha256) ∨
    CertListed e e.vendorDb p7Data h.sha256 ∨ CertListed e e.mokListRT p7Data h.sha256 ∨
    e.verifiedBy e.buildCert p7Data h.sha256 = true ∨
    e.verifiedBy e.vendorCert p7Data h.sha256 = true

lemma checkDenylist_success {cert : Option (List UInt8)}
    (hrun : checkDenylist e cert h = .ok .success) :
    ¬ DeniedHash e h ∧ ∀ p7Data, cert = some p7Data → ¬ DeniedCert e p7Data h := by
  unfold checkDenylist at hrun
  simp only [bind_eq_ok] at hrun
  obtain ⟨found, hfound, hrun⟩ := hrun
  cases found with
  | true => cases hrun
  | false =>
    constructor
    · rintro (hl | hl | hl | hl | hl) <;> exact not_hashListed hfound (by simp) hl
    · rintro p7Data rfl (hl | hl | hl) <;> exact not_certListed hfound (by simp [ifCert]) hl

lemma mem_ifCert {cert : Option (List UInt8)} {check : List UInt8 → Except Fault CheckStatus}
    {x : Except Fault CheckStatus} :
    x ∈ ifCert cert check ↔ ∃ p7Data, cert = some p7Data ∧ x = check p7Data := by
  cases cert <;> simp [ifCert]

lemma checkAllowlist_success {cert : Option (List UInt8)}
    (hrun : checkAllowlist e cert h = .ok .success) :
    AllowedHash e h ∨ ∃ p7Data, cert = some p7Data ∧ AllowedCert e p7Data h := by
  unfold checkAllowlist at hrun
  simp only [bind_eq_ok] at hrun
  obtain ⟨found, hfound, hrun⟩ := hrun
  cases found with
  | false => cases hrun
  | true =>
    obtain ⟨x, hx, hdata⟩ := anyFound_true hfound
    simp only [mem_append, mem_cons, mem_ifCert] at hx
    have hhash : ∀ {db data t}, x = checkDbHash db data t → HashListed db data t :=
      fun heq => (checkDbHash_ok (heq ▸ hdata)).mp rfl
    have hcert : ∀ {db p7Data}, x = checkDbCert e db p7Data h.sha256 →
        CertListed e db p7Data h.sha256 := fun heq => (checkDbCert_ok (heq ▸ hdata)).mp rfl
    rcases hx with (hx | hx) | hx | ⟨p7Data, rfl, hx⟩
    · split_ifs at hx with hignore
      · simp at hx
      · have hdb : e.ignoreDb = false := by simpa using hignore
        simp only [mem_append, mem_cons, mem_ifCert, not_mem_nil, or_false] at hx
        rcases hx with (hx | hx) | ⟨p7Data, rfl, hx⟩
        · exact .inl (.inl ⟨hdb, .inl (hhash hx)⟩)
        · exact .inl (.inl ⟨hdb, .inr (hhash hx)⟩)
        · exact .inr ⟨p7Data, rfl, .inl ⟨hdb, hcert hx⟩⟩
    · cases hvendor : e.vendorDb with
      | none => simp [hvendor] at hx
      | some vendorDb =>
        simp only [hvendor, mem_cons, mem_ifCert] at hx
        rcases hx with hx | ⟨p7Data, rfl, hx⟩
        · exact .inl (.inr (.inl (hvendor ▸ hhash hx)))
        · exact .inr ⟨p7Data, rfl, .inr (.inl (hvendor ▸ hcert hx))⟩
    · exact .inl (.inr (.inr (hhash hx)))
    · exact .inr ⟨p7Data, rfl, .inr (.inr (.inl (hcert hx)))⟩

lemma verifyOneSignature_success {p7Data : List UInt8}
    (hrun : verifyOneSignature e p7Data h = .ok .success) :
    ¬ DeniedCert e p7Data h ∧ (AllowedHash e h ∨ AllowedCert e p7Data h) := by
  unfold verifyOneSignature at hrun
  rw [bind_eq_ok] at hrun
  obtain ⟨deny, hdeny, hrun⟩ := hrun
  by_cases hbad : deny ≠ .success
  · rw [if_pos hbad] at hrun
    cases hrun
    exact absurd rfl hbad
  rw [not_not.mp hbad] at hdeny
  refine ⟨(checkDenylist_success hdeny).2 p7Data rfl, ?_⟩
  rw [if_neg hbad, bind_eq_ok] at hrun
  obtain ⟨allow, hallow, hrun⟩ := hrun
  split_ifs at hrun with hlist hbuild hvendor
  · rw [hlist] at hallow
    rcases checkAllowlist_success hallow with hhash | ⟨p7, hp7, hcert⟩
    · exact .inl hhash
    · cases hp7
      exact .inr hcert
  · exact .inr (.inr (.inr (.inr (.inl hbuild))))
  · exact .inr (.inr (.inr (.inr (.inr hvendor))))
  · cases hrun

/-! ## The entries of the certificate table -/

section

variable (f c) (o : ℕ)

def sigAt : ℕ := f.dirVirtualAddress c.secDir + o

def certLength : ℕ := f.mem.u32 (sigAt f c o)

def certType : ℕ := f.mem.u16 (sigAt f c o + 6)

def certData : List UInt8 := f.mem.slice (sigAt f c o + 8) (certLength f c o - 8)

def CertFits : Prop :=
  sigAt f c o + 12 ≤ f.datasize ∧ o + 4 ≤ f.dirSize c.secDir ∧
    certLength f c o ≤ f.dirSize c.secDir - o ∧ 8 ≤ certLength f c o

def certNext : ℕ := alignUp 64 (o + certLength f c o) 8

def IsEntry : Prop :=
  Relation.ReflTransGen
      (fun o o' => CertFits f c o ∧ o' = certNext f c o ∧ o' < f.dirSize c.secDir) 0 o ∧
    CertFits f c o

end

def Accepted (e : VerifyEnv) (f : File) (c : Context) (h : ImageHash) (o : ℕ) : Prop :=
  certType f c o = winCertTypePkcsSignedData ∧
    verifyOneSignature e (certData f c o) h = .ok .success

lemma afterLoop_eq_success {ret : EfiStatus} : afterLoop ret = .success ↔ ret = .success := by
  unfold afterLoop
  split_ifs with hret
  · simp [hret]
  · simp [hret]

def entryStatus (e : VerifyEnv) (h : ImageHash) (type : ℕ) (data : List UInt8) (ret : EfiStatus) :
    Except Fault EfiStatus :=
  if type = winCertTypePkcsSignedData then do
    let s ← verifyOneSignature e data h
    .ok (if ret = .success then .success else s)
  else .ok ret

lemma entryStatus_success {type : ℕ} {data : List UInt8} {ret : EfiStatus}
    (hrun : entryStatus e h type data ret = .ok .success) :
    ret = .success ∨
      type = winCertTypePkcsSignedData ∧ verifyOneSignature e data h = .ok .success := by
  unfold entryStatus at hrun
  by_cases hpkcs : type = winCertTypePkcsSignedData
  · rw [if_pos hpkcs, bind_eq_ok] at hrun
    obtain ⟨s, hs, hrun⟩ := hrun
    by_cases hret : ret = .success
    · exact .inl hret
    · rw [if_neg hret] at hrun
      rw [Except.ok.inj hrun] at hs
      exact .inr ⟨hpkcs, hs⟩
  · rw [if_neg hpkcs] at hrun
    exact .inl (Except.ok.inj hrun)

lemma certRound_of_fits {o : ℕ} (hfits : CertFits f c o) (ret : EfiStatus) :
    (certRound e f c h (o, ret)).out =
      entryStatus e h (certType f c o) (certData f c o) ret >>= fun status =>
        .ok (if certNext f c o < f.dirSize c.secDir then .inl (certNext f c o, status)
          else .inr (afterLoop status)) := by
  obtain ⟨hfile, hdir, hlength, hmin⟩ := hfits
  have haddr : imageAddress f.addr f.datasize (f.dirVirtualAddress c.secDir + o) ≠ 0 := by
    have hpos := f.addr_pos
    have hlow := f.addr_fits
    have hsize := f.datasize_lt
    unfold sigAt at hfile
    rw [imageAddress_of_lt (by omega) (by omega)]
    omega
  unfold sigAt at hfile
  unfold certLength sigAt at hlength hmin
  unfold certRound
  simp only
  rw [if_neg haddr, if_neg (by omega), if_neg (by omega), out_bind]
  simp only [if_neg (Nat.not_lt.mpr hlength), if_neg (Nat.not_lt.mpr hmin)]
  unfold entryStatus certNext certType certData certLength sigAt
  by_cases hpkcs : f.mem.u16 (f.dirVirtualAddress c.secDir + o + 6) = winCertTypePkcsSignedData
  · simp only [if_pos hpkcs, out_bind, out_emit, out_lift, out_pure, bind_assoc,
      ok_bind]
    refine bind_congr_ok fun s _ => ?_
    split_ifs <;> rfl
  · simp only [if_neg hpkcs, out_bind, out_emit, out_pure, ok_bind]
    split_ifs <;> rfl

lemma certRound_of_not_fits {o : ℕ} (hfits : ¬ CertFits f c o) (ret : EfiStatus) :
    (certRound e f c h (o, ret)).out = .ok (.inr (afterLoop ret)) ∨
      (certRound e f c h (o, ret)).out = .ok (.inr .invalidParameter) := by
  unfold CertFits certLength sigAt at hfits
  unfold certRound
  simp only
  by_cases h₁ : imageAddress f.addr f.datasize (f.dirVirtualAddress c.secDir + o) = 0
  · rw [if_pos h₁]
    exact .inl rfl
  right
  rw [if_neg h₁]
  by_cases h₂ : f.datasize < f.dirVirtualAddress c.secDir + o + 12
  · rw [if_pos h₂]
    rfl
  rw [if_neg h₂]
  by_cases h₃ : f.dirSize c.secDir < o + 4
  · rw [if_pos h₃]
    rfl
  rw [if_neg h₃, out_bind]
  by_cases h₄ : f.dirSize c.secDir - o < f.mem.u32 (f.dirVirtualAddress c.secDir + o)
  · simp only [if_pos h₄]
    rfl
  · have h₅ : f.mem.u32 (f.dirVirtualAddress c.secDir + o) < 8 := by omega
    simp only [if_neg h₄, if_pos h₅]
    rfl

lemma certLoop_success {n o : ℕ} {ret : EfiStatus} (hchain : Relation.ReflTransGen
      (fun o o' => CertFits f c o ∧ o' = certNext f c o ∧ o' < f.dirSize c.secDir) 0 o)
    (hrun : (Run.loop (certRound e f c h) n (o, ret)).out = .ok (some .success)) :
    ret = .success ∨ ∃ o, IsEntry f c o ∧ Accepted e f c h o := by
  induction n generalizing o ret with
  | zero => cases hrun
  | succ n ih =>
    rw [loop_succ_out] at hrun
    by_cases hfits : CertFits f c o
    · rw [certRound_of_fits hfits, bind_assoc, bind_eq_ok] at hrun
      obtain ⟨status, hstatus, hrun⟩ := hrun
      rw [ok_bind] at hrun
      have hhere : status = .success → ret = .success ∨ ∃ o, IsEntry f c o ∧ Accepted e f c h o := by
        intro hsuccess
        rw [hsuccess] at hstatus
        rcases entryStatus_success hstatus with hret | haccepted
        · exact .inl hret
        · exact .inr ⟨o, ⟨hchain, hfits⟩, haccepted⟩
      by_cases hnext : certNext f c o < f.dirSize c.secDir
      · rw [if_pos hnext] at hrun
        rcases ih (hchain.tail ⟨hfits, rfl, hnext⟩) hrun with hsuccess | hentry
        · exact hhere hsuccess
        · exact .inr hentry
      · rw [if_neg hnext] at hrun
        exact hhere (afterLoop_eq_success.mp (Option.some.inj (Except.ok.inj hrun)))
    · rcases certRound_of_not_fits (e := e) (h := h) hfits ret with hout | hout
      · rw [hout, ok_bind] at hrun
        exact .inl (afterLoop_eq_success.mp (Option.some.inj (Except.ok.inj hrun)))
      · rw [hout, ok_bind] at hrun
        cases Option.some.inj (Except.ok.inj hrun)

/-! ## Accepted images -/

lemma verifyBufferAuthenticode_hashed {parentVerified : Bool}
    (h : verifyBufferAuthenticode e f c parentVerified = .ok .success) :
    f.datasize < 2 ^ 31 ∧ ∃ input, generateHash e.resources f c = .ok input := by
  unfold verifyBufferAuthenticode at h
  by_cases hint : 2 ^ 31 ≤ f.datasize
  · rw [if_pos hint] at h
    cases h
  refine ⟨Nat.not_le.mp hint, ?_⟩
  rw [if_neg hint] at h
  cases hhash : generateHash e.resources f c with
  | error status =>
    rw [hhash] at h
    exact absurd (Except.ok.inj h) (generateHash_failsWith _ _ _ status hhash)
  | ok input => exact ⟨input, rfl⟩

lemma verifyBufferAuthenticode_of_hash {parentVerified : Bool} {input : HashInput}
    (hint : f.datasize < 2 ^ 31) (hhash : generateHash e.resources f c = .ok input) :
    verifyBufferAuthenticode e f c parentVerified =
      hashVerdict e f c parentVerified (e.digest (input.stream f.mem)) := by
  unfold verifyBufferAuthenticode
  rw [if_neg (Nat.not_le.mpr hint), hhash]

/-- The image is allowed by a hash, or by an entry that is allowed and not denied. -/
def AllowedImage (e : VerifyEnv) (f : File) (c : Context) (h : ImageHash) : Prop :=
  AllowedHash e h ∨ ∃ o, IsEntry f c o ∧ certType f c o = winCertTypePkcsSignedData ∧
    AllowedCert e (certData f c o) h ∧ ¬ DeniedCert e (certData f c o) h

lemma certLoop_accepts (hrun : certLoop e f c h = .ok .success) : AllowedImage e f c h := by
  unfold certLoop at hrun
  rw [bind_eq_ok] at hrun
  obtain ⟨result, hloop, hrun⟩ := hrun
  cases result with
  | none => cases hrun
  | some status =>
    rw [Except.ok.inj hrun] at hloop
    rcases certLoop_success .refl hloop with hret | ⟨o, hentry, hpkcs, hone⟩
    · cases hret
    obtain ⟨hdenied, hallowed⟩ := verifyOneSignature_success hone
    rcases hallowed with hallowed | hallowed
    · exact .inl hallowed
    · exact .inr ⟨o, hentry, hpkcs, hallowed, hdenied⟩

lemma hashVerdict_accepts (hrun : hashVerdict e f c false h = .ok .success) :
    ¬ DeniedHash e h ∧ AllowedImage e f c h := by
  unfold hashVerdict at hrun
  rw [bind_eq_ok] at hrun
  obtain ⟨deny, hdeny, hrun⟩ := hrun
  by_cases hbad : deny ≠ .success
  · rw [if_pos hbad] at hrun
    exact absurd (Except.ok.inj hrun) hbad
  rw [if_neg hbad] at hrun
  rw [not_not.mp hbad] at hdeny
  refine ⟨(checkDenylist_success hdeny).1, ?_⟩
  rw [if_neg (by decide), bind_eq_ok] at hrun
  obtain ⟨allow, hallow, hrun⟩ := hrun
  by_cases hlist : allow = .success
  · rw [hlist] at hallow
    rcases checkAllowlist_success hallow with hallowed | ⟨p7Data, hnone, -⟩
    · exact .inl hallowed
    · cases hnone
  rw [if_neg hlist] at hrun
  by_cases hsize : f.dirSize c.secDir = 0
  · rw [if_pos hsize] at hrun
    cases hrun
  rw [if_neg hsize] at hrun
  by_cases hfile : f.datasize < f.dirSize c.secDir + f.dirVirtualAddress c.secDir
  · rw [if_pos hfile] at hrun
    cases hrun
  rw [if_neg hfile] at hrun
  exact certLoop_accepts hrun

/-! ## Well-formed tables -/

structure CertEntry where
  certType : ℕ
  data : List UInt8
  data_ne : data ≠ []

namespace CertEntry

def size (x : CertEntry) : ℕ := (x.data.length + 15) / 8 * 8

lemma size_bounds (x : CertEntry) :
    x.data.length + 8 ≤ x.size ∧ x.size ≤ x.data.length + 15 ∧ 16 ≤ x.size ∧ 8 ∣ x.size := by
  have hpos := length_pos_iff.mpr x.data_ne
  unfold size
  omega

def Accepts (x : CertEntry) (e : VerifyEnv) (h : ImageHash) : Prop :=
  x.certType = winCertTypePkcsSignedData ∧ verifyOneSignature e x.data h = .ok .success

end CertEntry

def HoldsFrom (f : File) (c : Context) : ℕ → List CertEntry → Prop
  | o, [] => o = f.dirSize c.secDir
  | o, x :: xs =>
    certLength f c o = x.data.length + 8 ∧ certType f c o = x.certType ∧
      f.mem.slice (sigAt f c o + 8) x.data.length = x.data ∧ HoldsFrom f c (o + x.size) xs

def tableVerdict (e : VerifyEnv) (h : ImageHash) : EfiStatus → List CertEntry → Except Fault EfiStatus
  | ret, [] => .ok (afterLoop ret)
  | ret, x :: xs => do
    let status ← entryStatus e h x.certType x.data ret
    tableVerdict e h status xs

section

variable {o : ℕ} {xs : List CertEntry} {ret s : EfiStatus}

lemma HoldsFrom.le (hold : HoldsFrom f c o xs) : o + 16 * xs.length ≤ f.dirSize c.secDir := by
  induction xs generalizing o with
  | nil =>
    rw [HoldsFrom] at hold
    simp [hold]
  | cons x xs ih =>
    have hrest := ih hold.2.2.2
    have hsize := x.size_bounds
    rw [length_cons]
    omega

section

variable {x : CertEntry} (hold : HoldsFrom f c o (x :: xs))
include hold

lemma HoldsFrom.next (haligned : 8 ∣ o) : certNext f c o = o + x.size := by
  have hsize : f.dirSize c.secDir < 2 ^ 32 := f.mem.u32_lt _
  have hrest := hold.2.2.2.le
  obtain ⟨hlower, hupper, -, hmul⟩ := x.size_bounds
  have hbounds := alignUp_bounds (w := 64) (a := 8) (v := o + certLength f c o)
    (by rw [hold.1]; omega)
  have hdvd : 8 ∣ alignUp 64 (o + (x.data.length + 8)) 8 :=
    dvd_alignUp_pow_two (k := 3) (w := 64) (by decide) (by omega)
  unfold certNext
  rw [hold.1] at hbounds ⊢
  omega

lemma HoldsFrom.fits (hfile : f.dirSize c.secDir + f.dirVirtualAddress c.secDir ≤ f.datasize) :
    CertFits f c o := by
  have hrest := hold.2.2.2.le
  have hbounds := x.size_bounds
  unfold CertFits
  rw [hold.1]
  unfold sigAt
  omega

lemma HoldsFrom.data : certData f c o = x.data := by
  unfold certData
  rw [hold.1, Nat.add_sub_cancel]
  exact hold.2.2.1

end

lemma loop_of_holdsFrom {n o : ℕ} {ret : EfiStatus} (hold : HoldsFrom f c o xs) (haligned : 8 ∣ o)
    (hne : xs ≠ []) (hn : xs.length ≤ n)
    (hfile : f.dirSize c.secDir + f.dirVirtualAddress c.secDir ≤ f.datasize) :
    (Run.loop (certRound e f c h) n (o, ret)).out = some <$> tableVerdict e h ret xs := by
  induction xs generalizing o ret n with
  | nil => exact absurd rfl hne
  | cons x xs ih =>
    obtain ⟨n, rfl⟩ : ∃ k, n = k + 1 := ⟨n - 1, by simp at hn; omega⟩
    have hbounds := x.size_bounds
    rw [loop_succ_out, certRound_of_fits (hold.fits hfile), hold.next haligned, hold.data,
      hold.2.1, tableVerdict, bind_assoc, map_bind]
    refine bind_congr_ok fun status _ => ?_
    rw [ok_bind]
    cases xs with
    | nil =>
      have hend : o + x.size = f.dirSize c.secDir := hold.2.2.2
      rw [if_neg (by omega)]
      rfl
    | cons y ys =>
      have hrest := hold.2.2.2.le
      rw [length_cons] at hrest
      rw [if_pos (by omega)]
      exact ih hold.2.2.2 (by omega) (by simp) (by simpa using hn)

lemma certLoop_of_holds (hold : HoldsFrom f c 0 xs) (hne : xs ≠ [])
    (hfile : f.dirSize c.secDir + f.dirVirtualAddress c.secDir ≤ f.datasize) :
    certLoop e f c h = tableVerdict e h .notFound xs := by
  have hle := hold.le
  unfold certLoop
  rw [loop_of_holdsFrom hold (by decide) hne (by omega) hfile]
  cases tableVerdict e h .notFound xs <;> rfl

lemma tableVerdict_eq_ok_iff :
    tableVerdict e h ret xs = .ok s ↔ (∀ x ∈ xs, x.certType = winCertTypePkcsSignedData →
        ∃ t, verifyOneSignature e x.data h = .ok t) ∧
      ((s = .success ∧ (ret = .success ∨ ∃ x ∈ xs, x.Accepts e h)) ∨
        (s = .securityViolation ∧ ¬ (ret = .success ∨ ∃ x ∈ xs, x.Accepts e h))) := by
  induction xs generalizing ret with
  | nil =>
    unfold tableVerdict afterLoop
    by_cases hret : ret = .success <;> simp [hret, eq_comm]
  | cons x xs ih =>
    rw [tableVerdict]
    unfold entryStatus
    by_cases hpkcs : x.certType = winCertTypePkcsSignedData
    · rw [if_pos hpkcs]
      cases hone : verifyOneSignature e x.data h with
      | error fault =>
        have hfail : ¬ ∃ t, (Except.error fault : Except Fault EfiStatus) = .ok t := by simp
        constructor
        · intro hrun
          cases hrun
        · rintro ⟨hall, -⟩
          exact absurd (hone ▸ hall x mem_cons_self hpkcs) hfail
      | ok t =>
        rw [ok_bind, ok_bind, ih]
        have hx : x.Accepts e h ↔ t = .success := by
          unfold CertEntry.Accepts
          rw [hone]
          simp [hpkcs]
        by_cases hret : ret = .success
        · simp [hret, hpkcs, hone]
        · simp [hret, hpkcs, hone, hx]
    · rw [if_neg hpkcs, ok_bind, ih]
      have hx : ¬ x.Accepts e h := fun haccepts => hpkcs haccepts.1
      simp [hpkcs, hx]

lemma tableVerdict_perm {xs ys : List CertEntry} (hperm : xs.Perm ys) :
    tableVerdict e h ret xs = .ok s ↔ tableVerdict e h ret ys = .ok s := by
  rw [tableVerdict_eq_ok_iff, tableVerdict_eq_ok_iff]
  simp only [hperm.mem_iff]

end

/-- Two files that differ in their certificate table alone, which lies outside of what is hashed. -/
structure SameButTable (f g : File) (c c' : Context) : Prop where
  read : ∃ p mokPolicy checkSecdir, readHeader f p mokPolicy checkSecdir = .ok c ∧
    readHeader g p mokPolicy checkSecdir = .ok c'
  addr : f.addr = g.addr
  datasize : f.datasize = g.datasize
  agree : ∀ i, i < f.dirVirtualAddress c.secDir ∨
    f.dirVirtualAddress c.secDir + f.dirSize c.secDir ≤ i → f.mem i = g.mem i
  headers : c.sizeOfHeaders ≤ f.dirVirtualAddress c.secDir
  raw : ∀ s ∈ f.sections c,
    s.pointerToRawData + s.sizeOfRawData ≤ f.dirVirtualAddress c.secDir ∨
      f.dirVirtualAddress c.secDir + f.dirSize c.secDir ≤ s.pointerToRawData

lemma SameButTable.stream_eq {g : File} {c' : Context} {r : HashResources} {input : HashInput}
    (h : SameButTable f g c c') (hhash : generateHash r f c = .ok input)
    (hne : f.dirSize c.secDir ≠ 0) : input.stream f.mem = input.stream g.mem := by
  obtain ⟨p, mokPolicy, checkSecdir, hread, -⟩ := h.read
  have hheaders := h.headers
  obtain ⟨hlay, hhashed⟩ := generateHash_ok hread hhash
  obtain ⟨tail, hranges, -, htail⟩ := hhashed.ranges
  have hsec := hhashed.secDir_le
  apply HashInput.stream_congr
  intro range hrange i hlo hhi
  apply h.agree
  rw [hranges, mem_append, mem_append] at hrange
  rcases hrange with (hrange | hrange) | hrange
  · have hcheck : c.checkSum + 4 ≤ c.secDir := by
      have hdir := hlay.secDir
      show c.peHdr + 24 + 64 + 4 ≤ c.secDir
      omega
    simp only [headRanges, mem_cons, not_mem_nil, or_false] at hrange
    rcases hrange with rfl | rfl | rfl <;> simp only at hlo hhi <;> omega
  · simp only [rawRanges, mem_map, mem_filter] at hrange
    obtain ⟨s, ⟨hs, -⟩, rfl⟩ := hrange
    have hdisjoint := h.raw s ((sortTable_perm _).mem_iff.mp hs)
    simp only at hlo hhi
    omega
  · have hend := htail hne range hrange
    omega

lemma hashVerdict_perm {g : File} {xs ys : List CertEntry} (hdata : f.datasize = g.datasize)
    (hva : f.dirVirtualAddress c.secDir = g.dirVirtualAddress c.secDir)
    (hsize : f.dirSize c.secDir = g.dirSize c.secDir) (hold : HoldsFrom f c 0 xs)
    (hold' : HoldsFrom g c 0 ys) (hperm : xs.Perm ys) (hne : f.dirSize c.secDir ≠ 0)
    (parentVerified : Bool) (h : ImageHash) (s : EfiStatus) :
    hashVerdict e f c parentVerified h = .ok s ↔ hashVerdict e g c parentVerified h = .ok s := by
  have hxs : xs ≠ [] := by
    rintro rfl
    exact hne hold.symm
  have hys : ys ≠ [] := by
    rintro rfl
    exact hxs hperm.eq_nil
  unfold hashVerdict
  rw [← hdata, ← hsize, ← hva, bind_eq_ok, bind_eq_ok]
  refine exists_congr fun deny => and_congr_right fun _ => ?_
  by_cases hbad : deny ≠ .success
  · rw [if_pos hbad, if_pos hbad]
  rw [if_neg hbad, if_neg hbad]
  by_cases hparent : parentVerified = true
  · rw [if_pos hparent, if_pos hparent]
  rw [if_neg hparent, if_neg hparent, bind_eq_ok, bind_eq_ok]
  refine exists_congr fun allow => and_congr_right fun _ => ?_
  by_cases hlist : allow = .success
  · rw [if_pos hlist, if_pos hlist]
  rw [if_neg hlist, if_neg hlist, if_neg hne, if_neg hne]
  by_cases hfile : f.datasize < f.dirSize c.secDir + f.dirVirtualAddress c.secDir
  · rw [if_pos hfile, if_pos hfile]
  rw [if_neg hfile, if_neg hfile, certLoop_of_holds hold hxs (by omega),
    certLoop_of_holds hold' hys (by omega)]
  exact tableVerdict_perm hperm

/-- Permuting the entries of a well-formed certificate table does not change the verdict, if the
table lies outside of what is hashed. -/
theorem verifyBufferAuthenticode_perm {g : File} {c' : Context} {xs ys : List CertEntry}
    (hsame : SameButTable f g c c') (hold : HoldsFrom f c 0 xs) (hold' : HoldsFrom g c' 0 ys)
    (hperm : xs.Perm ys) (parentVerified : Bool) (s : EfiStatus) :
    verifyBufferAuthenticode e f c parentVerified = .ok s ↔
      verifyBufferAuthenticode e g c' parentVerified = .ok s := by
  obtain ⟨p, mokPolicy, checkSecdir, hread, hread'⟩ := hsame.read
  have hdata := hsame.datasize
  have hheaders := hsame.headers
  have hhead : ∀ i < c.sizeOfHeaders, f.mem i = g.mem i :=
    fun i hi => hsame.agree i (.inl (by omega))
  have hdirs := secDir_le_headers hread
  obtain rfl : c' = c := by
    rw [(readHeader_ok hread').1, context_congr hread fun i hi _ => hhead i (by omega)]
  have hhash' := generateHash_congr e.resources hsame.addr hdata hread hhead
  by_cases hint : 2 ^ 31 ≤ f.datasize
  · unfold verifyBufferAuthenticode
    rw [← hdata, if_pos hint, if_pos hint]
  cases hhash : generateHash e.resources f c' with
  | error status =>
    unfold verifyBufferAuthenticode
    rw [← hhash', ← hdata, if_neg hint, if_neg hint, hhash]
  | ok input =>
    rw [verifyBufferAuthenticode_of_hash (Nat.not_le.mp hint) hhash,
      verifyBufferAuthenticode_of_hash (Nat.not_le.mp (hdata ▸ hint)) (hhash' ▸ hhash)]
    obtain ⟨hlay, hhashed⟩ := generateHash_ok hread hhash
    have hsec := hhashed.secDir_le
    have hva : f.dirVirtualAddress c'.secDir = g.dirVirtualAddress c'.secDir :=
      load_congr hhead (by omega)
    have hsize : f.dirSize c'.secDir = g.dirSize c'.secDir := load_congr hhead (by omega)
    by_cases hne : f.dirSize c'.secDir = 0
    · -- an empty table: the two files are the same
      have hall : f.mem = g.mem := by
        funext i
        exact hsame.agree i (by omega)
      unfold hashVerdict
      rw [← hsize, hne, hall]
      simp only [if_true]
    rw [← hsame.stream_eq hhash hne]
    exact hashVerdict_perm hdata hva hsize hold hold' hperm hne parentVerified _ s

/-- An accepted image is not denied by its hashes, and is allowed by a hash, or by a PKCS entry of
its certificate table that is allowed and not denied; and the verdict is the same for every order of
the entries of a well-formed table that is not hashed. -/
theorem verifyBufferAuthenticode_verdict (e : VerifyEnv) (f : File) (c : Context) :
    (verifyBufferAuthenticode e f c false = .ok .success →
      ∃ input h, generateHash e.resources f c = .ok input ∧ h = e.digest (input.stream f.mem) ∧
        ¬ DeniedHash e h ∧ AllowedImage e f c h) ∧
    ∀ (g : File) (c' : Context) (xs ys : List CertEntry), SameButTable f g c c' →
      HoldsFrom f c 0 xs → HoldsFrom g c' 0 ys → xs.Perm ys →
      ∀ parentVerified s, verifyBufferAuthenticode e f c parentVerified = .ok s ↔
        verifyBufferAuthenticode e g c' parentVerified = .ok s := by
  refine ⟨fun hrun => ?_, fun g c' xs ys => verifyBufferAuthenticode_perm⟩
  obtain ⟨hint, input, hhash⟩ := verifyBufferAuthenticode_hashed hrun
  rw [verifyBufferAuthenticode_of_hash hint hhash] at hrun
  exact ⟨input, _, hhash, rfl, hashVerdict_accepts hrun⟩

/-! ## A table inside of what is hashed -/

def twoEntries (headers first second : ℕ) : File :=
  PeFields.file
    { sizeOfImage := 0x1000
      sizeOfHeaders := headers
      addressOfEntryPoint := 0
      security := (328, 32)
      sections := []
      body := [(328, 4, 9), (334, 2, 2), (336, 1, first), (344, 4, 9), (350, 2, 2),
        (352, 1, second)] }
    360

def hashDb (hash : List UInt8) : SigDb where
  mem := Mem.ofBytes
    (certSha256Guid ++ [76, 0, 0, 0] ++ [0, 0, 0, 0] ++ [48, 0, 0, 0] ++ List.replicate 16 0 ++ hash)
  size := 76

/-- A machine with the given `db` and build certificate. The digest is the end of the stream, and a
certificate verifies the signature that equals it. -/
def plainEnv (db : Option SigDb) (buildCert : List UInt8) : VerifyEnv where
  crypto := ⟨fun _ => false, fun p7Data cert _ => p7Data = cert⟩
  sha256 := fun stream => stream.drop (stream.length - 32)
  sha1 := fun stream => stream.take 20
  resources := .ok
  verbose := false
  ignoreDb := false
  vendorDeauthorized := ⟨fun _ => 0, 0⟩
  vendorDb := none
  db := db
  dbx := none
  mokListRT := none
  mokListX := none
  buildCert := buildCert
  vendorCert := []

/-- Headers that reach to the end of the file take the table into the hash: the two orders of its
entries then have different verdicts. -/
theorem hashedTable_order_matters :
    let e := plainEnv (some (hashDb ((twoEntries 360 1 2).mem.slice 328 32))) []
    let f := twoEntries 360 1 2
    let g := twoEntries 360 2 1
    readHeader f .x64 0 true = .ok (f.context 64) ∧ readHeader g .x64 0 true = .ok (g.context 64) ∧
      HoldsFrom f (f.context 64) 0 [⟨2, [1], by decide⟩, ⟨2, [2], by decide⟩] ∧
      HoldsFrom g (g.context 64) 0 [⟨2, [2], by decide⟩, ⟨2, [1], by decide⟩] ∧
      verifyBufferAuthenticode e f (f.context 64) false = .ok .success ∧
      verifyBufferAuthenticode e g (g.context 64) false = .ok .securityViolation := by
  refine ⟨by decide +kernel, by decide +kernel, ?_, ?_, by decide +kernel, by decide +kernel⟩
  · simp only [HoldsFrom]
    decide +kernel
  · simp only [HoldsFrom]
    decide +kernel

theorem verifyBufferAuthenticode_verdict_swapped :
    let e := plainEnv none [1]
    let f := twoEntries 328 1 2
    let g := twoEntries 328 2 1
    (∃ o, IsEntry f (f.context 64) o ∧ certType f (f.context 64) o = winCertTypePkcsSignedData) ∧
      verifyBufferAuthenticode e g (g.context 64) false = .ok .success := by
  have hrun : verifyBufferAuthenticode (plainEnv none [1]) (twoEntries 328 1 2)
      ((twoEntries 328 1 2).context 64) false = .ok .success := by decide +kernel
  have hverdict := verifyBufferAuthenticode_verdict (plainEnv none [1]) (twoEntries 328 1 2)
    ((twoEntries 328 1 2).context 64)
  refine ⟨?_, ?_⟩
  · obtain ⟨input, h, hhash, hdigest, -, hallowed | ⟨o, hentry, htype, -⟩⟩ := hverdict.1 hrun
    · simp [AllowedHash, HashListed, plainEnv] at hallowed
    · exact ⟨o, hentry, htype⟩
  · refine (hverdict.2 (twoEntries 328 2 1) ((twoEntries 328 2 1).context 64)
      [⟨2, [1], by decide⟩, ⟨2, [2], by decide⟩] [⟨2, [2], by decide⟩, ⟨2, [1], by decide⟩]
      ⟨⟨.x64, 0, true, by decide +kernel, by decide +kernel⟩, rfl, rfl, ?_, by decide +kernel, ?_⟩
      ?_ ?_ (List.Perm.swap _ _ _) false .success).mp hrun
    · rintro i (hi | hi)
      · have hlow : ∀ i < 328, (twoEntries 328 1 2).mem i = (twoEntries 328 2 1).mem i := by
          decide +kernel
        exact hlow i hi
      · exact (File.ofFields_mem_eq_zero (n := 360) (by decide +kernel) hi).trans
          (File.ofFields_mem_eq_zero (n := 360) (by decide +kernel) hi).symm
    · decide +kernel
    · simp only [HoldsFrom]
      decide +kernel
    · simp only [HoldsFrom]
      decide +kernel

end Shim.Verify
