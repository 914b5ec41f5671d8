import Shim.Mok.Prompt

/-!
# The menu of MokManager

`enter_mok_menu` looks in every round which of the four authentication variables are there, and shows
a menu that depends on it. All four reads use one buffer of `PASSWORD_CRYPT_SIZE` bytes, and one
variable for its size, which is set before the loop and not again.
-/

namespace Shim.Mok

open List Sbat

open Sbat (Variable)

/-! ## The function -/

inductive MokRequest where
  | new
  | del
  | sb
  | pw
  | db
  | xNew
  | xDel
  | tml
  deriving DecidableEq

inductive MenuItem where
  | boot
  | resetMok
  | resetMokX
  | enrollMok
  | enrollMokX
  | deleteMok
  | deleteMokX
  | changeSb
  | setPw
  | changeDb
  | keyEnroll
  | hashEnroll
  | changeTml
  deriving DecidableEq

structure MenuState where
  authSize : ℕ
  /-- `MokNew` and the other pointers. -/
  requests : MokRequest → Option (List UInt8)
  changed : Bool
  mok : MokState

structure MenuInput where
  allocStrings : Bool
  allocItems : Bool
  choice : Option ℕ
  prompt : PromptEnv
  /-- What the other functions of the menu do. -/
  other : MenuItem → MokState → EfiStatus × MokState

structure AuthRead where
  name : MokVar
  passed : ℕ
  stored : Option ℕ
  present : Bool
  deriving DecidableEq

def isAuthSize (n : ℕ) : Bool := n = sha256DigestSize || n = passwordCryptSize

def readAuth (vars : MokVar → Option Variable) (authSize : ℕ) (name : MokVar) : AuthRead × ℕ :=
  let get := rtGetVariable none authSize (vars name)
  ({ name := name
     passed := authSize
     stored := (vars name).map fun v => v.data.length
     present := get.1 = .success && isAuthSize get.2 }, get.2)

def readAuths (vars : MokVar → Option Variable) : ℕ → List MokVar → List AuthRead × ℕ
  | authSize, [] => ([], authSize)
  | authSize, name :: names =>
    let first := readAuth vars authSize name
    let rest := readAuths vars first.2 names
    (first.1 :: rest.1, rest.2)

def authVars : List MokVar := [.mokAuth, .mokDelAuth, .mokXAuth, .mokXDelAuth]

def menuItems (requests : MokRequest → Option (List UInt8)) (present : MokVar → Bool) :
    List MenuItem :=
  [MenuItem.boot] ++
  (if (requests .new).isSome || present .mokAuth then
    [if requests .new = none then MenuItem.resetMok else .enrollMok] else []) ++
  (if (requests .del).isSome || present .mokDelAuth then [MenuItem.deleteMok] else []) ++
  (if (requests .xNew).isSome || present .mokXAuth then
    [if requests .xNew = none then MenuItem.resetMokX else .enrollMokX] else []) ++
  (if (requests .xDel).isSome || present .mokXDelAuth then [MenuItem.deleteMokX] else []) ++
  (if (requests .sb).isSome then [MenuItem.changeSb] else []) ++
  (if (requests .pw).isSome then [MenuItem.setPw] else []) ++
  (if (requests .db).isSome then [MenuItem.changeDb] else []) ++
  (if (requests .tml).isSome then [MenuItem.changeTml] else []) ++
  [MenuItem.keyEnroll, .hashEnroll]

def onRequest (request : MokRequest) (act : List UInt8 → MokState → EfiStatus × MokState)
    (st : MenuState) : Except EfiStatus (EfiStatus × MenuState) :=
  match st.requests request with
  | none => .error .aborted
  | some data =>
    let r := act data st.mok
    .ok (r.1, { st with
      mok := r.2
      requests := if r.1 = .success then Function.update st.requests request none
        else st.requests })

def onMok (act : MokState → EfiStatus × MokState) (st : MenuState) :
    Except EfiStatus (EfiStatus × MenuState) :=
  .ok ((act st.mok).1, { st with mok := (act st.mok).2 })

def menuAction (i : MenuInput) (st : MenuState) (item : MenuItem) :
    Except EfiStatus (EfiStatus × MenuState) :=
  match item with
  | .boot => .error .success
  | .resetMok => onMok (mokResetPrompt i.prompt false) st
  | .enrollMok => onRequest .new (fun data => mokEnrollmentPrompt i.prompt data true false) st
  | .deleteMok => onRequest .del (fun data => mokDeletionPrompt i.prompt data false) st
  | .resetMokX => onMok (mokResetPrompt i.prompt true) st
  | .enrollMokX => onRequest .xNew (fun data => mokEnrollmentPrompt i.prompt data true true) st
  | .deleteMokX => onRequest .xDel (fun data => mokDeletionPrompt i.prompt data true) st
  | .changeSb => onRequest .sb (fun _ => i.other .changeSb) st
  | .setPw => onRequest .pw (fun _ => i.other .setPw) st
  | .changeDb => onRequest .db (fun _ => i.other .changeDb) st
  | .keyEnroll => onMok (i.other .keyEnroll) st
  | .hashEnroll => onMok (i.other .hashEnroll) st
  | .changeTml => onRequest .tml (fun _ => i.other .changeTml) st

abbrev MenuEnd : Type := EfiStatus × Bool

def menuRound (i : MenuInput) (present : MokVar → Bool) (st : MenuState) :
    Except MenuEnd MenuState :=
  if i.allocStrings = false ∨ i.allocItems = false then .error (.outOfResources, false)
  else
    match i.choice.bind fun k => (menuItems st.requests present)[k]? with
    | none => .error (.success, st.changed)
    | some item =>
      match menuAction i st item with
      | .error status => .error (status, st.changed)
      | .ok (status, st) => .ok { st with changed := st.changed || status = .success }

def flags (reads : List AuthRead) (name : MokVar) : Bool :=
  reads.any fun r => r.name = name && r.present

def menuLoop : List MenuInput → MenuState → List AuthRead × Option MenuEnd
  | [], st => ((readAuths st.mok.vars st.authSize authVars).1, none)
  | i :: inputs, st =>
    let reads := readAuths st.mok.vars st.authSize authVars
    match menuRound i (flags reads.1) { st with authSize := reads.2 } with
    | .error done => (reads.1, some done)
    | .ok st =>
      let rest := menuLoop inputs st
      (reads.1 ++ rest.1, rest.2)

/-- The function. `locked` is the outcome of `verify_pw`, `waits` that of `draw_countdown`. -/
def enterMokMenu (locked : Option Bool) (waits : Bool) (inputs : List MenuInput)
    (requests : MokRequest → Option (List UInt8)) (mok : MokState) :
    List AuthRead × Option MenuEnd :=
  match locked with
  | none => ([], some (.accessDenied, false))
  | some p =>
    if p = false ∧ waits = false then ([], some (.success, false))
    else menuLoop inputs
      { authSize := passwordCryptSize, requests := requests, changed := false, mok := mok }

/-! ## The size that is passed on -/

def IsThread : ℕ → List AuthRead → Prop
  | _, [] => True
  | a, r :: reads =>
    r.passed = a ∧ (r.present = true ↔ ∃ n, r.stored = some n ∧ n ≤ a ∧ isAuthSize n = true) ∧
      IsThread (r.stored.getD a) reads

def lastSize (a : ℕ) (reads : List AuthRead) : ℕ := reads.foldl (fun a r => r.stored.getD a) a

lemma IsThread.append {a : ℕ} {reads rest : List AuthRead} (h : IsThread a reads)
    (hrest : IsThread (lastSize a reads) rest) : IsThread a (reads ++ rest) := by
  induction reads generalizing a with
  | nil => exact hrest
  | cons r reads ih => exact ⟨h.1, h.2.1, ih h.2.2 hrest⟩

section

variable {vars : MokVar → Option Variable}

lemma readAuth_snd (a : ℕ) (name : MokVar) :
    (readAuth vars a name).2 = (readAuth vars a name).1.stored.getD a := by
  unfold readAuth rtGetVariable
  cases vars name with
  | none => rfl
  | some v =>
    simp only [Option.map_some, Option.getD_some]
    split_ifs <;> rfl

lemma readAuth_present_iff (a : ℕ) (name : MokVar) : (readAuth vars a name).1.present = true ↔
      ∃ n, (readAuth vars a name).1.stored = some n ∧ n ≤ a ∧ isAuthSize n = true := by
  unfold readAuth rtGetVariable
  cases vars name with
  | none => simp
  | some v =>
    by_cases hsize : a < v.data.length
    · simp [hsize]
    · simp [hsize, not_lt.1 hsize]

lemma readAuths_isThread (vars : MokVar → Option Variable) (a : ℕ) (names : List MokVar) :
    IsThread a (readAuths vars a names).1 ∧
      (readAuths vars a names).2 = lastSize a (readAuths vars a names).1 := by
  induction names generalizing a with
  | nil => exact ⟨trivial, rfl⟩
  | cons name names ih =>
    obtain ⟨hthread, hlast⟩ := ih (readAuth vars a name).2
    refine ⟨⟨rfl, readAuth_present_iff a name, ?_⟩, ?_⟩
    · rw [← readAuth_snd]
      exact hthread
    · show _ = lastSize ((readAuth vars a name).1.stored.getD a)
        (readAuths vars (readAuth vars a name).2 names).1
      rw [← readAuth_snd]
      exact hlast

end

section

variable {status : EfiStatus} {st st' : MenuState} {i : MenuInput}

lemma onRequest_authSize {request : MokRequest}
    {act : List UInt8 → MokState → EfiStatus × MokState}
    (h : onRequest request act st = .ok (status, st')) : st'.authSize = st.authSize := by
  unfold onRequest at h
  cases hr : st.requests request with
  | none =>
    rw [hr] at h
    cases h
  | some data =>
    rw [hr] at h
    cases h
    rfl

lemma onMok_authSize {act : MokState → EfiStatus × MokState}
    (h : onMok act st = .ok (status, st')) : st'.authSize = st.authSize := by
  cases h
  rfl

lemma menuAction_authSize {item : MenuItem} (h : menuAction i st item = .ok (status, st')) :
    st'.authSize = st.authSize := by
  cases item with
  | boot => cases h
  | resetMok | resetMokX | keyEnroll | hashEnroll => exact onMok_authSize h
  | enrollMok | enrollMokX | deleteMok | deleteMokX | changeSb | setPw | changeDb | changeTml =>
    exact onRequest_authSize h

lemma menuRound_authSize {present : MokVar → Bool} (h : menuRound i present st = .ok st') :
    st'.authSize = st.authSize := by
  unfold menuRound at h
  split at h
  · cases h
  split at h
  · cases h
  · split at h
    · cases h
    · next haction =>
        cases h
        have hsize := menuAction_authSize haction
        exact hsize

end

lemma menuLoop_isThread (inputs : List MenuInput) (st : MenuState) :
    IsThread st.authSize (menuLoop inputs st).1 := by
  induction inputs generalizing st with
  | nil => exact (readAuths_isThread _ _ _).1
  | cons i inputs ih =>
    obtain ⟨hthread, hlast⟩ := readAuths_isThread st.mok.vars st.authSize authVars
    unfold menuLoop
    cases hround : menuRound i (flags (readAuths st.mok.vars st.authSize authVars).1)
        { st with authSize := (readAuths st.mok.vars st.authSize authVars).2 } with
    | error done =>
      simp only [hround]
      exact hthread
    | ok st' =>
      simp only [hround]
      refine hthread.append ?_
      have hsize := menuRound_authSize hround
      simp only at hsize
      rw [← hlast, ← hsize]
      exact ih st'

/-! ## The sizes with which all reads are right -/

/-- A variable of `n` bytes is not larger than the buffer, if there are reads behind it; and the
next is not a larger one of the two sizes. -/
def Follows (n : ℕ) (rest : List (Option ℕ)) : Prop :=
  (rest ≠ [] → n ≤ passwordCryptSize) ∧
    ∀ gap m post, rest = gap ++ some m :: post → (∀ x ∈ gap, x = none) → isAuthSize m = true → m ≤ n

def SizesOk (sizes : List (Option ℕ)) : Prop :=
  ∀ pre n post, sizes = pre ++ some n :: post → Follows n post

section

variable {m n : ℕ} {sizes : List (Option ℕ)}

lemma sizesOk_nil : SizesOk [] := by
  intro pre n post h
  simp at h

@[simp] lemma sizesOk_cons_none : SizesOk (none :: sizes) ↔ SizesOk sizes := by
  constructor
  · intro h pre n post hsizes
    exact h (none :: pre) n post (by rw [hsizes]; rfl)
  · rintro h (_ | ⟨x, pre⟩) n post hsizes
    · cases hsizes
    · exact h pre n post (List.cons.inj hsizes).2

@[simp] lemma sizesOk_cons_some :
    SizesOk (some n :: sizes) ↔ Follows n sizes ∧ SizesOk sizes := by
  constructor
  · intro h
    refine ⟨h [] n sizes rfl, fun pre m post hsizes => ?_⟩
    exact h (some n :: pre) m post (by rw [hsizes]; rfl)
  · rintro ⟨hfollows, h⟩ (_ | ⟨x, pre⟩) m post hsizes
    · cases hsizes
      exact hfollows
    · exact h pre m post (List.cons.inj hsizes).2

lemma follows_nil : Follows n [] := by
  refine ⟨fun h => absurd rfl h, fun gap m post h => ?_⟩
  simp at h

@[simp] lemma follows_cons_none :
    Follows n (none :: sizes) ↔ n ≤ passwordCryptSize ∧ Follows n sizes := by
  constructor
  · rintro ⟨hle, hnext⟩
    refine ⟨hle (cons_ne_nil _ _), fun _ => hle (cons_ne_nil _ _),
      fun gap m post hsizes hgap => ?_⟩
    refine hnext (none :: gap) m post (by rw [hsizes]; rfl) fun x hx => ?_
    rcases mem_cons.1 hx with rfl | hx
    · rfl
    · exact hgap x hx
  · rintro ⟨hle, -, hnext⟩
    refine ⟨fun _ => hle, ?_⟩
    rintro (_ | ⟨x, gap⟩) m post hsizes hgap
    · cases hsizes
    · exact hnext gap m post (List.cons.inj hsizes).2 fun x hx => hgap x (mem_cons_of_mem _ hx)

@[simp] lemma follows_cons_some :
    Follows n (some m :: sizes) ↔ n ≤ passwordCryptSize ∧ (isAuthSize m = true → m ≤ n) := by
  constructor
  · rintro ⟨hle, hnext⟩
    exact ⟨hle (cons_ne_nil _ _), hnext [] m sizes rfl (fun _ h => absurd h not_mem_nil)⟩
  · rintro ⟨hle, hnext⟩
    refine ⟨fun _ => hle, ?_⟩
    rintro (_ | ⟨x, gap⟩) k post hsizes hgap
    · cases hsizes
      exact hnext
    · have hx := hgap x mem_cons_self
      rw [← (List.cons.inj hsizes).1] at hx
      cases hx

lemma follows_passwordCryptSize : Follows passwordCryptSize sizes := by
  refine ⟨fun _ => le_rfl, fun gap m post _ _ hm => ?_⟩
  unfold isAuthSize passwordCryptSize sha256DigestSize at *
  simp only [Bool.or_eq_true, decide_eq_true_eq] at hm
  omega

end

def AuthRead.Right (r : AuthRead) : Prop :=
  r.passed ≤ passwordCryptSize ∧
    (r.present = true ↔ ∃ n, r.stored = some n ∧ (n = sha256DigestSize ∨ n = passwordCryptSize))

lemma isAuthSize_iff {n : ℕ} :
    isAuthSize n = true ↔ n = sha256DigestSize ∨ n = passwordCryptSize := by
  simp [isAuthSize]

lemma IsThread.right_iff {a : ℕ} {reads : List AuthRead} (h : IsThread a reads) :
    (∀ r ∈ reads, r.Right) ↔
      Follows a (reads.map AuthRead.stored) ∧ SizesOk (reads.map AuthRead.stored) := by
  induction reads generalizing a with
  | nil => exact iff_of_true (fun _ h => absurd h not_mem_nil) ⟨follows_nil, sizesOk_nil⟩
  | cons r reads ih =>
    obtain ⟨hpassed, hpresent, hrest⟩ := h
    rw [forall_mem_cons, ih hrest, map_cons]
    unfold AuthRead.Right
    rw [hpassed, hpresent]
    cases hstored : r.stored with
    | none => simp [and_assoc]
    | some n =>
      simp only [Option.some.injEq, exists_eq_left', isAuthSize_iff, Option.getD_some,
        follows_cons_some, sizesOk_cons_some, and_iff_right_iff_imp, and_assoc]

/-- Every `GetVariable` gets a size that fits the buffer, and every flag is right, iff no variable
but the last is larger than the buffer, and one of the two sizes does not come after a smaller
variable. -/
theorem enterMokMenu_reads_iff (locked : Option Bool) (waits : Bool) (inputs : List MenuInput)
    (requests : MokRequest → Option (List UInt8)) (mok : MokState) :
    (∀ r ∈ (enterMokMenu locked waits inputs requests mok).1,
      r.passed ≤ passwordCryptSize ∧ (r.present = true ↔
        ∃ n, r.stored = some n ∧ (n = sha256DigestSize ∨ n = passwordCryptSize))) ↔
    SizesOk ((enterMokMenu locked waits inputs requests mok).1.map AuthRead.stored) := by
  have hthread : IsThread passwordCryptSize (enterMokMenu locked waits inputs requests mok).1 := by
    unfold enterMokMenu
    cases locked with
    | none => exact trivial
    | some p =>
      simp only
      split_ifs
      · exact trivial
      · exact menuLoop_isThread inputs
          { authSize := passwordCryptSize, requests := requests, changed := false, mok := mok }
  exact hthread.right_iff.trans (and_iff_right follows_passwordCryptSize)

def authsOfSize (auth delAuth : ℕ) : MokVar → Option Variable
  | .mokAuth => some ⟨List.replicate auth 0, uefiVarNvBsRt⟩
  | .mokDelAuth => some ⟨List.replicate delAuth 0, uefiVarNvBsRt⟩
  | _ => none

/-- A `MokAuth` of 200 bytes makes the next read one of 200 bytes into a buffer of 172, and one of
32 bytes hides a `MokDelAuth` of 172. -/
theorem enterMokMenu_overflows :
    (enterMokMenu (some true) true [] (fun _ => none) (start (authsOfSize 200 200))).1[1]? =
        some ⟨.mokDelAuth, 200, some 200, false⟩ ∧
      passwordCryptSize < 200 ∧
      (enterMokMenu (some true) true [] (fun _ => none)
          (start (authsOfSize sha256DigestSize passwordCryptSize))).1[1]? =
        some ⟨.mokDelAuth, sha256DigestSize, some passwordCryptSize, false⟩ := by
  decide +kernel

end Shim.Mok
