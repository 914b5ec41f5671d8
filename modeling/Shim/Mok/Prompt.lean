import Shim.Lib.Wide
import Shim.Mok.KeyList
import Shim.Sbat.Level

/-!
# Requests to MokManager

A request to enrol, delete or reset keys comes in variables that anyone can write. What makes it
trustworthy is the password. The functions here read its hash (`MokAuth` and its siblings), ask for
it (`match_password`), and change `MokList` or `MokListX`.
-/

namespace Shim.Mok

open Lib Pe Verify List Sbat
open Sbat (Variable getVariable)

inductive MokVar where
  | mokList
  | mokListX
  | mokNew
  | mokXNew
  | mokDel
  | mokXDel
  | mokAuth
  | mokXAuth
  | mokDelAuth
  | mokXDelAuth
  deriving DecidableEq

def MokVar.isDb (name : MokVar) : Bool := name = .mokList || name = .mokListX

inductive MokEvent where
  | passwordMatched
  | changed (name : MokVar)
  deriving DecidableEq

structure MokState where
  vars : MokVar → Option Variable
  log : List MokEvent

variable {name' : MokVar} {r : EfiStatus × MokState} {wrong : Prop}

def start (vars : MokVar → Option Variable) : MokState := ⟨vars, []⟩

/-- The errors of the variable services during one call; `none` is a service that works. No call gets
to two of the places that share a field. -/
structure MokServices where
  readAuth : Option EfiStatus
  readDb : Option EfiStatus
  setDb : Option EfiStatus
  deleteRequest : Option EfiStatus
  deleteAuth : Option EfiStatus
  deleteDb : Option EfiStatus
  readAuth_ne : readAuth ≠ some .success

def passwordCryptSize : ℕ := 172

def sha256DigestSize : ℕ := 32

def runtimeAccess : ℕ := 0x4

def rtGetVariable (fails : Option EfiStatus) (size : ℕ) (v : Option Variable) : EfiStatus × ℕ :=
  match fails, v with
  | some status, _ => (status, size)
  | none, none => (.notFound, size)
  | none, some v =>
    if size < v.data.length then (.bufferTooSmall, v.data.length) else (.success, v.data.length)

def rtSetVariable (fails : Option EfiStatus) (name : MokVar) (new : Variable) (st : MokState) :
    EfiStatus × MokState :=
  match fails with
  | some status => (status, st)
  | none =>
    if new.data = [] ∧ st.vars name = none then (.notFound, st)
    else
      let value := if new.data = [] then none else some new
      if value = st.vars name then (.success, st)
      else (.success, ⟨Function.update st.vars name value, .changed name :: st.log⟩)

def passwordMin : ℕ := 1

def passwordMax : ℕ := 256

def getHashSize (method : ℕ) : ℕ :=
  if method = 3 then 32 else if method = 4 then 64 else if method = 5 then 31 else 0

structure PasswordCrypto where
  passwordCrypt : (password pwHash : List UInt8) → Except EfiStatus (List UInt8)
  computePwHash : (data password : List UInt8) → Except EfiStatus (List UInt8)

structure PromptEnv where
  services : MokServices
  crypto : PasswordCrypto
  /-- What the user types at the `k`-th question for the password. -/
  typed : ℕ → List UInt16
  yes : Bool
  allocData : Bool
  allocNodes : Bool
  allocMenu : Bool
  /-- What is in a buffer that has just been allocated. -/
  fresh : Mem

def passwordMatches (hashed : List UInt16 → Except EfiStatus (List UInt8)) (authHash : List UInt8)
    (authSize : ℕ) (password : List UInt16) : Bool :=
  if password.length < passwordMin ∨ passwordMax < password.length then false
  else
    match hashed password with
    | .error _ => false
    | .ok hash => hash.take authSize = authHash.take authSize

def askPassword (isRight : List UInt16 → Bool) (typed : ℕ → List UInt16) : ℕ → ℕ → EfiStatus
  | 0, _ => .accessDenied
  | n + 1, k => if isRight (typed k) then .success else askPassword isRight typed n (k + 1)

def asciiBytes (password : List UInt16) : List UInt8 := password.map fun c => c.toUInt8

def matchPassword (env : PromptEnv) (pwCrypt : Option (List UInt8)) (data : List UInt8)
    (auth : Option (List UInt8)) : EfiStatus :=
  match pwCrypt, auth with
  | some pw, _ =>
    let authSize := getHashSize ((Mem.ofBytes pw).u16 0)
    if authSize = 0 then .invalidParameter
    else
      -- the hash is behind the method, the count, the size of the salt and the salt
      askPassword (passwordMatches (fun p => env.crypto.passwordCrypt (asciiBytes p) pw)
        (pw.drop 44) authSize) env.typed 3 0
  | none, some auth =>
    askPassword (passwordMatches (fun p => env.crypto.computePwHash data (wideBytes (p.map UInt16.toNat))) auth
      sha256DigestSize) env.typed 3 0
  | none, none => .invalidParameter

/-- The beginning of `store_keys` and of `delete_keys`; the result is the status with which the
caller returns, if it does. -/
def authenticate (env : PromptEnv) (authName : MokVar) (request : List UInt8) (st : MokState) :
    Option EfiStatus × MokState :=
  let get := rtGetVariable env.services.readAuth passwordCryptSize (st.vars authName)
  let auth := ((st.vars authName).map Variable.data).getD []
  if get.1 ≠ .success ∨ (get.2 ≠ sha256DigestSize ∧ get.2 ≠ passwordCryptSize) then (some get.1, st)
  else
    let status := if get.2 = passwordCryptSize then matchPassword env (some auth) [] none
      else matchPassword env none request (some auth)
    if status ≠ .success then (some .accessDenied, st)
    else (none, { st with log := .passwordMatched :: st.log })

/-! ## Changing the databases -/

def dbName (mokX : Bool) : MokVar := if mokX then .mokListX else .mokList

def authName (mokX : Bool) : MokVar := if mokX then .mokXAuth else .mokAuth

def delAuthName (mokX : Bool) : MokVar := if mokX then .mokXDelAuth else .mokDelAuth

def newName (mokX : Bool) : MokVar := if mokX then .mokXNew else .mokNew

def delName (mokX : Bool) : MokVar := if mokX then .mokXDel else .mokDel

/-- The new keys are put behind the old ones. A database that the running system can write is not
trusted. -/
def writeDb (env : PromptEnv) (name : MokVar) (mokNew : List UInt8) (st : MokState) :
    EfiStatus × MokState :=
  let write := fun old : List UInt8 =>
    if env.allocData = false then (EfiStatus.outOfResources, st)
    else rtSetVariable env.services.setDb name ⟨old ++ mokNew, uefiVarNvBs⟩ st
  match getVariable env.services.readDb (st.vars name) with
  | .error status => if status ≠ .notFound then (status, st) else write []
  | .ok v => if v.attributes &&& runtimeAccess ≠ 0 then write [] else write v.data

def storeAuthenticated (env : PromptEnv) (mokNew : List UInt8) (mokX : Bool) (st : MokState) :
    EfiStatus × MokState :=
  if mokNew = [] then rtSetVariable env.services.setDb (dbName mokX) ⟨[], uefiVarNvBs⟩ st
  else writeDb env (dbName mokX) mokNew st

def storeKeys (env : PromptEnv) (mokNew : List UInt8) (auth mokX : Bool) (st : MokState) :
    EfiStatus × MokState :=
  if auth then
    match authenticate env (authName mokX) mokNew st with
    | (some status, st) => (status, st)
    | (none, st) => storeAuthenticated env mokNew mokX st
  else storeAuthenticated env mokNew mokX st

def writeBackMokList (env : PromptEnv) (mok : MokList) (mokX : Bool) (st : MokState) :
    EfiStatus × MokState :=
  if writeBackSize mok.nodes = 0 then
    (.success, (rtSetVariable env.services.setDb (dbName mokX) ⟨[], uefiVarNvBs⟩ st).2)
  else if env.allocData = false then (.outOfResources, st)
  else rtSetVariable env.services.setDb (dbName mokX)
    ⟨writeBackData env.fresh mok, uefiVarNvBs⟩ st

def keyBuffer (data : List UInt8) : SigDb := ⟨Mem.ofBytes data, data.length⟩

def deleteAuthenticated (env : PromptEnv) (mokDel : List UInt8) (mokX : Bool) (st : MokState) :
    EfiStatus × MokState :=
  let erase := (rtSetVariable env.services.setDb (dbName mokX) ⟨[], uefiVarNvBs⟩ st).2
  match getVariable env.services.readDb (st.vars (dbName mokX)) with
  | .error _ => (.aborted, st)
  | .ok v =>
    if v.attributes &&& runtimeAccess ≠ 0 then (.accessDenied, erase)
    else if v.data = [] then (.success, st)
    else if (countKeys (keyBuffer v.data)).value = 0 then (.aborted, erase)
    else
      match (buildMokList (keyBuffer v.data) env.allocNodes).value with
      | none => (.aborted, st)
      | some mok =>
        if (countKeys (keyBuffer mokDel)).value = 0 then (.aborted, st)
        else
          match (buildMokList (keyBuffer mokDel) env.allocNodes).value with
          | none => (.aborted, st)
          | some del =>
            writeBackMokList env
              (deleteNodes ⟨Mem.ofBytes mokDel, del⟩ ⟨Mem.ofBytes v.data, mok⟩) mokX st

def deleteKeys (env : PromptEnv) (mokDel : List UInt8) (mokX : Bool) (st : MokState) :
    EfiStatus × MokState :=
  match authenticate env (delAuthName mokX) mokDel st with
  | (some status, st) => (status, st)
  | (none, st) => deleteAuthenticated env mokDel mokX st

def listKeys (env : PromptEnv) (keyList : List UInt8) : EfiStatus :=
  if keyList.length < sizeofSignatureList + sizeofSignatureData then .notFound
  else if (countKeys (keyBuffer keyList)).value = 0 then .aborted
  else if (buildMokList (keyBuffer keyList) env.allocNodes).value = none then .aborted
  else if env.allocMenu = false then .outOfResources
  else .success

def libDeleteVariable (fails : Option EfiStatus) (name : MokVar) (st : MokState) : MokState :=
  (rtSetVariable fails name ⟨[], 0⟩ st).2

def deleteRequest (env : PromptEnv) (request auth : MokVar) (st : MokState) : MokState :=
  libDeleteVariable env.services.deleteAuth auth
    (libDeleteVariable env.services.deleteRequest request st)

def mokEnrollmentPrompt (env : PromptEnv) (mokNew : List UInt8) (auth mokX : Bool)
    (st : MokState) : EfiStatus × MokState :=
  if listKeys env mokNew ≠ .success then (listKeys env mokNew, st)
  else if env.yes = false then (.aborted, st)
  else
    let store := storeKeys env mokNew auth mokX st
    if store.1 ≠ .success then store
    else if auth then (.success, deleteRequest env (newName mokX) (authName mokX) store.2)
    else (.success, store.2)

def mokResetPrompt (env : PromptEnv) (mokX : Bool) (st : MokState) : EfiStatus × MokState :=
  if env.yes = false then (.aborted, st)
  else
    let store := storeKeys env [] true mokX st
    if store.1 ≠ .success then store
    else (.success, libDeleteVariable env.services.deleteDb (dbName mokX)
      (deleteRequest env (newName mokX) (authName mokX) store.2))

def mokDeletionPrompt (env : PromptEnv) (mokDel : List UInt8) (mokX : Bool) (st : MokState) :
    EfiStatus × MokState :=
  if listKeys env mokDel ≠ .success then (listKeys env mokDel, st)
  else if env.yes = false then (.aborted, st)
  else
    let delete := deleteKeys env mokDel mokX st
    if delete.1 ≠ .success then delete
    else (.success, deleteRequest env (delName mokX) (delAuthName mokX) delete.2)

/-! ## The log -/

def Authorised (log : List MokEvent) : Prop :=
  ∀ later name earlier, log = later ++ .changed name :: earlier → name.isDb = true →
    .passwordMatched ∈ earlier

def OnlyAfterMatch (vars : MokVar → Option Variable) (st : MokState) : Prop :=
  Authorised st.log ∧
    ∀ name, name.isDb = true → st.vars name ≠ vars name → .passwordMatched ∈ st.log

def Extends (st st' : MokState) : Prop := st.log <:+ st'.log

section

variable {log : List MokEvent} {st st' : MokState} {vars : MokVar → Option Variable}
  {fails : Option EfiStatus} {name : MokVar} {new : Variable}

lemma Authorised.nil : Authorised [] := by
  intro later name earlier h
  simp at h

lemma Authorised.matched (h : Authorised log) : Authorised (.passwordMatched :: log) := by
  rintro (_ | ⟨e, later⟩) name earlier hlog hdb
  · cases hlog
  · exact h later name earlier (List.cons.inj hlog).2 hdb

lemma Authorised.changed (h : Authorised log)
    (hname : name.isDb = true → .passwordMatched ∈ log) : Authorised (.changed name :: log) := by
  rintro (_ | ⟨e, later⟩) name' earlier hlog hdb
  · obtain ⟨hevent, rfl⟩ := List.cons.inj hlog
    cases hevent
    exact hname hdb
  · exact h later name' earlier (List.cons.inj hlog).2 hdb

lemma Authorised.extend {log' : List MokEvent} (h : Authorised log)
    (hmatched : .passwordMatched ∈ log) (hsuffix : log <:+ log') : Authorised log' := by
  obtain ⟨new, rfl⟩ := hsuffix
  induction new with
  | nil => exact h
  | cons e new ih =>
    cases e with
    | passwordMatched => exact ih.matched
    | changed name => exact ih.changed fun _ => mem_append_right _ hmatched

lemma Extends.refl (st : MokState) : Extends st st := suffix_rfl

lemma Extends.trans {st₁ st₂ st₃ : MokState} (h : Extends st₁ st₂) (h' : Extends st₂ st₃) :
    Extends st₁ st₃ := List.IsSuffix.trans h h'

lemma onlyAfterMatch_of_extends (h : Authorised st.log) (hmatched : .passwordMatched ∈ st.log)
    (hext : Extends st st') : OnlyAfterMatch vars st' :=
  ⟨h.extend hmatched hext, fun _ _ _ => hext.subset hmatched⟩

lemma rtSetVariable_cases (fails : Option EfiStatus) (name : MokVar) (new : Variable)
    (st : MokState) :
    (rtSetVariable fails name new st).2 = st ∨
      ∃ value, value ≠ st.vars name ∧ (rtSetVariable fails name new st).2 =
        ⟨Function.update st.vars name value, .changed name :: st.log⟩ := by
  unfold rtSetVariable
  cases fails with
  | some status => exact .inl rfl
  | none =>
    simp only
    by_cases habsent : new.data = [] ∧ st.vars name = none
    · rw [if_pos habsent]
      exact .inl rfl
    rw [if_neg habsent]
    by_cases hsame : (if new.data = [] then none else some new) = st.vars name
    · rw [if_pos hsame]
      exact .inl rfl
    · rw [if_neg hsame]
      exact .inr ⟨_, hsame, rfl⟩

lemma rtSetVariable_extends : Extends st (rtSetVariable fails name new st).2 := by
  rcases rtSetVariable_cases fails name new st with
    h | ⟨value, -, h⟩
  · rw [h]
    exact .refl st
  · rw [h]
    exact suffix_cons _ _

lemma OnlyAfterMatch.start : OnlyAfterMatch vars (start vars) := ⟨.nil, fun _ _ h => absurd rfl h⟩

lemma OnlyAfterMatch.rtSetVariable (h : OnlyAfterMatch vars st) (hname : name.isDb = false) :
    OnlyAfterMatch vars (rtSetVariable fails name new st).2 := by
  rcases rtSetVariable_cases fails name new st with
    h' | ⟨value, -, h'⟩
  · rw [h']
    exact h
  rw [h']
  refine ⟨h.1.changed fun hdb => absurd hdb (by simp [hname]), fun other hdb hne => ?_⟩
  have hother : other ≠ name := by
    rintro rfl
    rw [hname] at hdb
    cases hdb
  simp only [Function.update_of_ne hother] at hne
  exact mem_cons_of_mem _ (h.2 other hdb hne)

end

/-! ## Past the password -/

def WrongSize (env : PromptEnv) (vars : MokVar → Option Variable) (name : MokVar) : Prop :=
  env.services.readAuth = none ∧ ∃ v, vars name = some v ∧ v.data.length ≤ passwordCryptSize ∧
    v.data.length ≠ sha256DigestSize ∧ v.data.length ≠ passwordCryptSize

section

variable {env : PromptEnv} {st : MokState} {vars : MokVar → Option Variable}
  {request : List UInt8} {mokX : Bool} {name : MokVar} {status : EfiStatus} {st' : MokState}

lemma rtGetVariable_success (h : (rtGetVariable env.services.readAuth passwordCryptSize
      (st.vars name)).1 = .success) :
    env.services.readAuth = none ∧ ∃ v, st.vars name = some v ∧ v.data.length ≤ passwordCryptSize ∧
      (rtGetVariable env.services.readAuth passwordCryptSize (st.vars name)).2 =
        v.data.length := by
  unfold rtGetVariable at h ⊢
  cases hfails : env.services.readAuth with
  | some status =>
    rw [hfails] at h
    simp only at h
    rw [h] at hfails
    exact absurd hfails env.services.readAuth_ne
  | none =>
    rw [hfails] at h
    cases hv : st.vars name with
    | none =>
      rw [hv] at h
      cases h
    | some v =>
      rw [hv] at h
      simp only at h ⊢
      by_cases hsize : passwordCryptSize < v.data.length
      · rw [if_pos hsize] at h
        cases h
      · rw [if_neg hsize]
        exact ⟨trivial, v, rfl, not_lt.1 hsize, rfl⟩

/-- A match is logged, or nothing happens at all; then the status is a success iff the variable has
a wrong size. -/
theorem authenticate_spec (env : PromptEnv) (name : MokVar) (request : List UInt8) (st : MokState) :
    (authenticate env name request st = (none, { st with log := .passwordMatched :: st.log }) ∧
        ¬ WrongSize env st.vars name) ∨
      ∃ status, authenticate env name request st = (some status, st) ∧
        (status = .success ↔ WrongSize env st.vars name) := by
  set get := rtGetVariable env.services.readAuth passwordCryptSize (st.vars name) with hget
  have hwrong : WrongSize env st.vars name ↔ get.1 = .success ∧
      (get.2 ≠ sha256DigestSize ∧ get.2 ≠ passwordCryptSize) := by
    constructor
    · rintro ⟨hread, v, hv, hle, hsize⟩
      have : get = (.success, v.data.length) := by
        rw [hget, hread, hv]
        unfold rtGetVariable
        simp only
        rw [if_neg (not_lt.2 hle)]
      rw [this]
      exact ⟨rfl, hsize⟩
    · rintro ⟨hsuccess, hsize⟩
      obtain ⟨hread, v, hv, hle, hlength⟩ := rtGetVariable_success hsuccess
      rw [hget, hlength] at hsize
      exact ⟨hread, v, hv, hle, hsize⟩
  unfold authenticate
  simp only [← hget]
  by_cases hstop : get.1 ≠ .success ∨ (get.2 ≠ sha256DigestSize ∧ get.2 ≠ passwordCryptSize)
  · rw [if_pos hstop]
    refine .inr ⟨get.1, rfl, ?_⟩
    rw [hwrong]
    exact ⟨fun h => ⟨h, hstop.resolve_left (not_not.2 h)⟩, fun h => h.1⟩
  · obtain ⟨hsuccess, hsize⟩ := not_or.1 hstop
    have hright : ¬ WrongSize env st.vars name := fun h => hsize (hwrong.1 h).2
    rw [if_neg hstop]
    split_ifs
    all_goals first
      | exact .inr ⟨_, rfl, iff_of_false EfiStatus.noConfusion hright⟩
      | exact .inl ⟨rfl, hright⟩

lemma writeDb_extends : Extends st (writeDb env name request st).2 := by
  have hwrite : ∀ old : List UInt8, Extends st
      (if env.allocData = false then (EfiStatus.outOfResources, st)
        else rtSetVariable env.services.setDb name ⟨old ++ request, uefiVarNvBs⟩ st).2 := by
    intro old
    split_ifs
    · exact .refl st
    · exact rtSetVariable_extends
  unfold writeDb
  cases getVariable env.services.readDb (st.vars name) with
  | error status =>
    by_cases hfound : status = .notFound
    · simpa only [hfound, ne_eq, not_true_eq_false, if_false] using hwrite []
    · simpa only [hfound, ne_eq, not_false_eq_true, if_true] using .refl st
  | ok v =>
    by_cases hruntime : v.attributes &&& runtimeAccess ≠ 0
    · simpa only [if_pos hruntime] using hwrite []
    · simpa only [if_neg hruntime] using hwrite v.data

lemma storeAuthenticated_extends : Extends st (storeAuthenticated env request mokX st).2 := by
  unfold storeAuthenticated
  split_ifs
  · exact rtSetVariable_extends
  · exact writeDb_extends

lemma writeBackMokList_extends {mok : MokList} :
    Extends st (writeBackMokList env mok mokX st).2 := by
  unfold writeBackMokList
  split_ifs
  · exact rtSetVariable_extends
  · exact .refl st
  · exact rtSetVariable_extends

lemma deleteAuthenticated_extends : Extends st (deleteAuthenticated env request mokX st).2 := by
  unfold deleteAuthenticated
  -- the database is erased, left alone or written back
  repeat' split
  all_goals first
    | exact .refl st
    | exact rtSetVariable_extends
    | exact writeBackMokList_extends

lemma deleteRequest_extends : Extends st (deleteRequest env name name' st) :=
  Extends.trans rtSetVariable_extends rtSetVariable_extends

/-- The password is matched, and what follows is authorised; or nothing happens, and a wrong size of
the variable is a success. -/
def PastPassword (vars : MokVar → Option Variable) (wrong : Prop) (r : EfiStatus × MokState) :
    Prop :=
  (¬ wrong ∧ .passwordMatched ∈ r.2.log ∧ ∀ st', Extends r.2 st' → OnlyAfterMatch vars st') ∨
    ∃ status, r = (status, start vars) ∧ (status = .success ↔ wrong)

lemma authenticated_call {rest : MokState → EfiStatus × MokState}
    (hrest : ∀ st, Extends st (rest st).2)
    (hr : r = match authenticate env name request (start vars) with
      | (some status, st) => (status, st)
      | (none, st) => rest st) : PastPassword vars (WrongSize env vars name) r := by
  rcases authenticate_spec env name request (start vars) with
    ⟨hauth, hright⟩ | ⟨status, hauth, hstatus⟩
  · rw [hauth] at hr
    have hmatched : MokEvent.passwordMatched ∈
        ({ start vars with log := .passwordMatched :: (start vars).log } : MokState).log :=
      mem_cons_self
    have hext := hrest { start vars with log := .passwordMatched :: (start vars).log }
    refine .inl ⟨hright, ?_, fun st' h => ?_⟩
    · rw [hr]
      exact hext.subset hmatched
    · rw [hr] at h
      exact onlyAfterMatch_of_extends (Authorised.matched .nil) hmatched (hext.trans h)
  · rw [hauth] at hr
    exact .inr ⟨status, hr, hstatus⟩

section

variable (env : PromptEnv) (request : List UInt8) (mokX : Bool)

lemma storeKeys_pastPassword (vars : MokVar → Option Variable) :
    PastPassword vars (WrongSize env vars (authName mokX))
      (storeKeys env request true mokX (start vars)) :=
  authenticated_call (fun _ => storeAuthenticated_extends) (by unfold storeKeys; rfl)

lemma deleteKeys_pastPassword (vars : MokVar → Option Variable) :
    PastPassword vars (WrongSize env vars (delAuthName mokX))
      (deleteKeys env request mokX (start vars)) :=
  authenticated_call (fun _ => deleteAuthenticated_extends) (by unfold deleteKeys; rfl)

lemma PastPassword.success_matched_iff (h : PastPassword vars wrong r) :
    (r.1 = .success → .passwordMatched ∈ r.2.log) ↔ ¬ wrong := by
  rcases h with ⟨hright, hmatched, -⟩ | ⟨status, rfl, hstatus⟩
  · exact iff_of_true (fun _ => hmatched) hright
  · rw [← hstatus]
    exact ⟨fun h hs => absurd (h hs) not_mem_nil, fun h hs => absurd hs h⟩

/-! ## The three prompts -/

lemma isDb_newName : (newName mokX).isDb = false := by cases mokX <;> rfl

lemma isDb_delName : (delName mokX).isDb = false := by cases mokX <;> rfl

lemma isDb_authName : (authName mokX).isDb = false := by cases mokX <;> rfl

lemma isDb_delAuthName : (delAuthName mokX).isDb = false := by cases mokX <;> rfl

lemma isDb_dbName : (dbName mokX).isDb = true := by cases mokX <;> rfl

end

lemma OnlyAfterMatch.deleteRequest (h : OnlyAfterMatch vars st)
    (hname : name.isDb = false) (hname' : name'.isDb = false) :
    OnlyAfterMatch vars (deleteRequest env name name' st) :=
  (h.rtSetVariable hname).rtSetVariable hname'

lemma PastPassword.onlyAfterMatch (h : PastPassword vars wrong r) : OnlyAfterMatch vars r.2 := by
  rcases h with ⟨-, -, h⟩ | ⟨status, rfl, -⟩
  · exact h _ (.refl _)
  · exact .start

lemma PastPassword.deleteRequest
    (h : PastPassword vars wrong r) (hname : name.isDb = false) (hname' : name'.isDb = false) :
    OnlyAfterMatch vars (deleteRequest env name name' r.2) := by
  rcases h with ⟨-, -, h⟩ | ⟨status, rfl, -⟩
  · exact h _ deleteRequest_extends
  · exact OnlyAfterMatch.start.deleteRequest hname hname'

section

variable (env : PromptEnv) (request : List UInt8) (mokX : Bool) {fails : Option EfiStatus}

lemma mokEnrollmentPrompt_onlyAfterMatch (vars : MokVar → Option Variable) :
    OnlyAfterMatch vars (mokEnrollmentPrompt env request true mokX (start vars)).2 := by
  have hstore := storeKeys_pastPassword env request mokX vars
  unfold mokEnrollmentPrompt
  simp only [if_true]
  split_ifs
  · exact .start
  · exact .start
  · exact hstore.onlyAfterMatch
  · exact hstore.deleteRequest (isDb_newName mokX) (isDb_authName mokX)

lemma mokDeletionPrompt_onlyAfterMatch (vars : MokVar → Option Variable) :
    OnlyAfterMatch vars (mokDeletionPrompt env request mokX (start vars)).2 := by
  have hdelete := deleteKeys_pastPassword env request mokX vars
  unfold mokDeletionPrompt
  simp only
  split_ifs
  · exact .start
  · exact .start
  · exact hdelete.onlyAfterMatch
  · exact hdelete.deleteRequest (isDb_delName mokX) (isDb_delAuthName mokX)

lemma passwordMatched_mem_rtSetVariable {new : Variable} :
    .passwordMatched ∈ (rtSetVariable fails name new st).2.log ↔ .passwordMatched ∈ st.log := by
  rcases rtSetVariable_cases fails name new st with h' | ⟨value, -, h'⟩
  · rw [h']
  · rw [h']
    simp

lemma onlyAfterMatch_libDeleteVariable_iff (h : OnlyAfterMatch vars st) (hdb : name.isDb = true)
    (hno : .passwordMatched ∉ st.log) :
    OnlyAfterMatch vars (libDeleteVariable fails name st) ↔
      ¬ (vars name ≠ none ∧ fails = none) := by
  have hold : st.vars name = vars name := by
    by_contra hne
    exact hno (h.2 name hdb hne)
  unfold libDeleteVariable rtSetVariable
  cases hfails : fails with
  | some status => simpa using h
  | none =>
    by_cases habsent : vars name = none
    · simp only [hold, habsent, and_self, if_true, ne_eq, not_true_eq_false, false_and,
        not_false_eq_true, iff_true]
      exact h
    · simp only [hold, habsent, and_false, if_false, if_true, ne_eq, not_false_eq_true, and_true,
        not_true_eq_false, iff_false]
      rw [if_neg (Ne.symm habsent)]
      intro hkeeps
      exact hno (hkeeps.1 [] name st.log rfl hdb)

lemma mokResetPrompt_onlyAfterMatch_iff (vars : MokVar → Option Variable) :
    OnlyAfterMatch vars (mokResetPrompt env mokX (start vars)).2 ↔
      ¬ (env.yes = true ∧ WrongSize env vars (authName mokX) ∧ vars (dbName mokX) ≠ none ∧
        env.services.deleteDb = none) := by
  have hstore := storeKeys_pastPassword env [] mokX vars
  unfold mokResetPrompt
  simp only
  by_cases hyes : env.yes = false
  · rw [if_pos hyes]
    exact iff_of_true .start (by simp [hyes])
  rw [if_neg hyes]
  by_cases hfail : (storeKeys env [] true mokX (start vars)).1 ≠ .success
  · rw [if_pos hfail]
    refine iff_of_true hstore.onlyAfterMatch fun h => ?_
    rcases hstore with ⟨hright, -⟩ | ⟨status, hstatus, hwrong⟩
    · exact hright h.2.1
    · rw [hstatus] at hfail
      exact hfail (hwrong.2 h.2.1)
  rw [if_neg hfail]
  rcases hstore with ⟨hright, -, hext⟩ | ⟨status, hstatus, hwrong⟩
  · refine iff_of_true (hext _ ?_) fun h => hright h.2.1
    exact deleteRequest_extends.trans rtSetVariable_extends
  rw [hstatus] at hfail ⊢
  have hw : WrongSize env vars (authName mokX) := hwrong.1 (not_not.1 hfail)
  have hno : MokEvent.passwordMatched ∉
      (deleteRequest env (newName mokX) (authName mokX) (start vars)).log := by
    unfold deleteRequest libDeleteVariable
    rw [passwordMatched_mem_rtSetVariable, passwordMatched_mem_rtSetVariable]
    exact not_mem_nil
  rw [onlyAfterMatch_libDeleteVariable_iff (OnlyAfterMatch.start.deleteRequest
    (isDb_newName mokX) (isDb_authName mokX)) (isDb_dbName mokX) hno]
  simp [hyes, hw]

end

end

/-- Without a password that matched no key database changes, and no success is reported, exactly
when neither authentication variable can be read with a wrong size: then the status of the read, a
success, is returned. -/
theorem mokRequests_authenticated_iff (env : PromptEnv) (request : List UInt8) (mokX : Bool)
    (vars : MokVar → Option Variable) :
    (OnlyAfterMatch vars (mokResetPrompt env mokX (start vars)).2 ∧
      OnlyAfterMatch vars (mokEnrollmentPrompt env request true mokX (start vars)).2 ∧
      OnlyAfterMatch vars (mokDeletionPrompt env request mokX (start vars)).2 ∧
      ((storeKeys env request true mokX (start vars)).1 = .success →
        .passwordMatched ∈ (storeKeys env request true mokX (start vars)).2.log) ∧
      ((deleteKeys env request mokX (start vars)).1 = .success →
        .passwordMatched ∈ (deleteKeys env request mokX (start vars)).2.log)) ↔
    ¬ WrongSize env vars (authName mokX) ∧ ¬ WrongSize env vars (delAuthName mokX) := by
  rw [(storeKeys_pastPassword env request mokX vars).success_matched_iff,
    (deleteKeys_pastPassword env request mokX vars).success_matched_iff,
    mokResetPrompt_onlyAfterMatch_iff]
  constructor
  · rintro ⟨-, -, -, hauth, hdelAuth⟩
    exact ⟨hauth, hdelAuth⟩
  · rintro ⟨hauth, hdelAuth⟩
    exact ⟨fun h => hauth h.2.1, mokEnrollmentPrompt_onlyAfterMatch env request mokX vars,
      mokDeletionPrompt_onlyAfterMatch env request mokX vars, hauth, hdelAuth⟩

def sayYes : PromptEnv where
  services := ⟨none, none, none, none, none, none, EfiStatus.none_ne_success⟩
  crypto := ⟨fun _ _ => .error .outOfResources, fun _ _ => .error .outOfResources⟩
  typed := fun _ => []
  yes := true
  allocData := true
  allocNodes := true
  allocMenu := true
  fresh := fun _ => 0

def shortAuth : MokVar → Option Variable
  | .mokList => some ⟨[1], uefiVarNvBs⟩
  | .mokAuth => some ⟨[0], uefiVarNvBsRt⟩
  | _ => none

/-- A `MokAuth` of one byte is enough to have `MokList` erased without a password. -/
theorem mokResetPrompt_without_password :
    (storeKeys sayYes [] true false (start shortAuth)).1 = .success ∧
      .passwordMatched ∉ (storeKeys sayYes [] true false (start shortAuth)).2.log ∧
      shortAuth .mokList ≠ none ∧
      (mokResetPrompt sayYes false (start shortAuth)).2.vars .mokList = none ∧
      .passwordMatched ∉ (mokResetPrompt sayYes false (start shortAuth)).2.log := by
  decide

end Shim.Mok
