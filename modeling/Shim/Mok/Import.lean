import Shim.Mok.StateVariables

/-!
# What the import of the MOK state does to a global

A row of the table sets a global of shim when its variable has one byte. The table is walked twice, a
row keeps its data from the first walk to the second, and it can lose it on the way.
-/

namespace Shim.Mok

open Lib List Function ImportEnv
open Sbat (Variable getVariable)

/-! ## What a row leaves alone -/

lemma keepViolation_left (status : EfiStatus) :
    keepViolation .securityViolation status = .securityViolation := if_neg fun h => h.2 rfl

lemma keepViolation_right (ret : EfiStatus) :
    keepViolation ret .securityViolation = .securityViolation := by
  unfold keepViolation
  split
  · rfl
  · rename_i h
    by_contra hne
    exact h ⟨rfl, hne⟩

/-- The variable `x` is not the one of the row, and no variable that the row is mirrored to: those
have names that start with `rtname`. -/
def MokStateVariable.Foreign (v : MokStateVariable) (x : VarName) : Prop :=
  v.var ≠ x ∧ ¬ v.rtname.toList <+: x.name.toList

instance (v : MokStateVariable) (x : VarName) : Decidable (v.Foreign x) :=
  inferInstanceAs (Decidable (_ ∧ _))

def MokStateVariable.Apart (x : VarName) (f : StateFlag) (v : MokStateVariable) : Prop :=
  v.Foreign x ∧ v.state ≠ some f

instance (x : VarName) (f : StateFlag) (v : MokStateVariable) : Decidable (v.Apart x f) :=
  inferInstanceAs (Decidable (_ ∧ _))

section

variable {env : ImportEnv} {onlyFirst : Bool} {v : MokStateVariable} {vars : VarStore} {x : VarName}
  {f : StateFlag} {ret : EfiStatus} {st : ImportState}

section

variable {rtname : String} {guid : VendorGuid} {fails : Option Failure} {y : VarName}

lemma numberedName_ne (h : ¬ rtname.toList <+: x.name.toList) (i : Option ℕ) :
    x ≠ ⟨numberedName rtname i, guid⟩ := by
  intro hx
  apply h
  rw [hx]
  cases i with
  | none => exact prefix_refl _
  | some i =>
    show rtname.toList <+: (rtname ++ toString i).toList
    rw [String.toList_append]
    exact prefix_append _ _

lemma deleteVariable_of_ne (h : x ≠ y) : (deleteVariable fails y vars).2 x = vars x := by
  unfold deleteVariable
  split
  · rfl
  · rfl
  · exact update_of_ne h _ _

lemma writeVariable_of_ne {new : Variable} (h : x ≠ y) :
    (writeVariable fails y new vars).2 x = vars x :=
  update_of_ne h _ _

lemma applyWrites_of_not_prefix (h : ¬ rtname.toList <+: x.name.toList)
    (writes : List (Option ℕ × Variable)) : applyWrites rtname guid writes vars x = vars x := by
  unfold applyWrites
  induction writes generalizing vars with
  | nil => rfl
  | cons w writes ih =>
    rw [foldl_cons, ih]
    exact update_of_ne (numberedName_ne h _) _ _

end

lemma publish_vars (h : ¬ v.rtname.toList <+: x.name.toList) (full : List UInt8) :
    (publish env onlyFirst v full vars).2 x = vars x := by
  unfold publish
  split
  · rfl
  split
  · exact applyWrites_of_not_prefix h _
  · split
    · exact writeVariable_of_ne (numberedName_ne h none)
    · rfl

lemma assembleFull_left {keyData : List UInt8} {full : VarData} {left : MokStateVariable}
    (h : assembleFull env onlyFirst v keyData = .ok (full, left)) :
    ∃ d, left = { v with data := d } := by
  unfold assembleFull at h
  split at h
  · split at h
    · exact ⟨v.data, (Prod.mk.inj (Except.ok.inj h)).2.symm⟩
    · cases h
  split at h
  · exact ⟨.null 0, (Prod.mk.inj (Except.ok.inj h)).2.symm⟩
  · split at h
    · split at h
      · cases hd : dummyEntry with
        | error e => rw [hd] at h; cases h
        | ok d =>
          rw [hd] at h
          exact ⟨v.data, (Prod.mk.inj (Except.ok.inj h)).2.symm⟩
      · cases h
    · exact ⟨v.data, (Prod.mk.inj (Except.ok.inj h)).2.symm⟩

/-- Whatever happens, a row only changes its data, and the variables are as they were or as they are
published. -/
theorem mirrorOneMokVariable_cases (env : ImportEnv) (onlyFirst : Bool) (v : MokStateVariable)
    (vars : VarStore) : ∃ d, (mirrorOneMokVariable env onlyFirst v vars).2.1 = { v with data := d } ∧
      ((mirrorOneMokVariable env onlyFirst v vars).2.2 = vars ∨
        ∃ full, (mirrorOneMokVariable env onlyFirst v vars).2.2 =
          (publish env onlyFirst v full vars).2) := by
  unfold mirrorOneMokVariable
  cases hfull : fullData env onlyFirst v with
  | error status => exact ⟨v.data, rfl, .inl rfl⟩
  | ok p =>
    obtain ⟨full, left⟩ := p
    obtain ⟨keyData, -, hleft⟩ := bind_eq_ok.mp hfull
    obtain ⟨d, rfl⟩ := assembleFull_left hleft
    dsimp only
    split
    · exact ⟨full, rfl, .inl rfl⟩
    · split
      · exact ⟨d, rfl, .inr ⟨_, rfl⟩⟩
      · exact ⟨full, rfl, .inr ⟨_, rfl⟩⟩

lemma mirrorOneMokVariable_vars (h : ¬ v.rtname.toList <+: x.name.toList) :
    (mirrorOneMokVariable env onlyFirst v vars).2.2 x = vars x := by
  obtain ⟨-, -, hvars | ⟨full, hvars⟩⟩ := mirrorOneMokVariable_cases env onlyFirst v vars
  · rw [hvars]
  · rw [hvars, publish_vars h]

lemma storeState_of_ne {flags : StateFlag → UInt8} (h : v.state ≠ some f) :
    storeState v flags f = flags f := by
  unfold storeState
  cases hstate : v.state with
  | none => rfl
  | some flag =>
    apply update_of_ne
    rintro rfl
    exact h hstate

lemma maybeMirrorOneMokVariable_row (env : ImportEnv) (onlyFirst : Bool) (v : MokStateVariable)
    (ret : EfiStatus) (st : ImportState) :
    ∃ d, (maybeMirrorOneMokVariable env onlyFirst v ret st).2.1 = { v with data := d } :=
  (mirrorOneMokVariable_cases env onlyFirst v _).imp fun _ => And.left

lemma maybeMirrorOneMokVariable_vars (h : ¬ v.rtname.toList <+: x.name.toList) :
    (maybeMirrorOneMokVariable env onlyFirst v ret st).2.2.vars x = st.vars x := by
  unfold maybeMirrorOneMokVariable
  dsimp only
  rw [mirrorOneMokVariable_vars h]
  split
  · exact deleteVariable_of_ne (numberedName_ne h none)
  · rfl

lemma maybeMirrorOneMokVariable_flags (h : v.state ≠ some f) :
    (maybeMirrorOneMokVariable env onlyFirst v ret st).2.2.flags f = st.flags f := by
  obtain ⟨d, hd⟩ := maybeMirrorOneMokVariable_row env onlyFirst v ret st
  apply storeState_of_ne
  show (maybeMirrorOneMokVariable env onlyFirst v ret st).2.1.state ≠ some f
  rw [hd]
  exact h

section

variable (env : ImportEnv) (onlyFirst : Bool) (v : MokStateVariable) (st : ImportState)

/-- The function returns early with the row, or hands it on to be mirrored. -/
theorem importOneMokState_cases :
    (∃ status d, importOneMokState env onlyFirst v st = (status, { v with data := d }, st)) ∨
      ∃ d ret vars, (vars = st.vars ∨ vars = (deleteBad env onlyFirst v st.vars).2) ∧
        importOneMokState env onlyFirst v st = maybeMirrorOneMokVariable env onlyFirst
          { v with data := d } ret { st with vars := vars } := by
  unfold importOneMokState handedOn
  cases readOwn env onlyFirst v st.vars with
  | error status => exact .inl ⟨status, v.data, rfl⟩
  | ok p =>
    dsimp only
    cases formatRow env onlyFirst v p.1 >>= fun data => readConfig env onlyFirst v data st.vars with
    | error e => exact .inl ⟨e.1, e.2, rfl⟩
    | ok data =>
      refine .inr ⟨_, _, _, ?_, rfl⟩
      split_ifs
      · exact .inr rfl
      · exact .inl rfl

lemma importOneMokState_row :
    ∃ d, (importOneMokState env onlyFirst v st).2.1 = { v with data := d } := by
  obtain ⟨status, d, h⟩ | ⟨d, ret, vars, -, h⟩ := importOneMokState_cases env onlyFirst v st
  · exact ⟨d, by rw [h]⟩
  · rw [h]
    exact maybeMirrorOneMokVariable_row env onlyFirst { v with data := d } _ _

end

lemma importOneMokState_vars (hv : v.Foreign x) :
    (importOneMokState env onlyFirst v st).2.2.vars x = st.vars x := by
  obtain ⟨status, d, h⟩ | ⟨d, ret, vars, hvars, h⟩ := importOneMokState_cases env onlyFirst v st
  · rw [h]
  rw [h, maybeMirrorOneMokVariable_vars (v := { v with data := d }) hv.2]
  rcases hvars with rfl | rfl
  · rfl
  · exact deleteVariable_of_ne (Ne.symm hv.1)

lemma importOneMokState_flags (hv : v.state ≠ some f) :
    (importOneMokState env onlyFirst v st).2.2.flags f = st.flags f := by
  obtain ⟨status, d, h⟩ | ⟨d, ret, vars, -, h⟩ := importOneMokState_cases env onlyFirst v st
  · rw [h]
  · rw [h]
    exact maybeMirrorOneMokVariable_flags (v := { v with data := d }) hv

lemma MokStateVariable.Apart.of_data (h : v.Apart x f) (d : VarData) :
    MokStateVariable.Apart x f { v with data := d } := h

variable (env onlyFirst) {rows : List MokStateVariable}

lemma importPass_rows {P : MokStateVariable → Prop}
    (hP : ∀ v d, P v → P { v with data := d })
    (h : ∀ v ∈ rows, P v) (ret : EfiStatus) (st : ImportState) :
    ∀ v ∈ (importPass env onlyFirst rows ret st).2.1, P v := by
  induction rows generalizing ret st with
  | nil => exact h
  | cons v rows ih =>
    obtain ⟨hv, hrest⟩ := forall_mem_cons.mp h
    refine forall_mem_cons.mpr ⟨?_, ih hrest _ _⟩
    obtain ⟨d, hd⟩ := importOneMokState_row env onlyFirst v st
    rw [hd]
    exact hP v d hv

lemma importPass_vars (h : ∀ v ∈ rows, v.Foreign x) (ret : EfiStatus) (st : ImportState) :
    (importPass env onlyFirst rows ret st).2.2.vars x = st.vars x := by
  induction rows generalizing ret st with
  | nil => rfl
  | cons v rows ih =>
    obtain ⟨hv, hrest⟩ := forall_mem_cons.mp h
    exact (ih hrest _ _).trans (importOneMokState_vars hv)

lemma importPass_flags (h : ∀ v ∈ rows, v.state ≠ some f) (ret : EfiStatus) (st : ImportState) :
    (importPass env onlyFirst rows ret st).2.2.flags f = st.flags f := by
  induction rows generalizing ret st with
  | nil => rfl
  | cons v rows ih =>
    obtain ⟨hv, hrest⟩ := forall_mem_cons.mp h
    exact (ih hrest _ _).trans (importOneMokState_flags hv)

lemma importPass_apart (h : ∀ v ∈ rows, v.Apart x f) (ret : EfiStatus) (st : ImportState) :
    (importPass env onlyFirst rows ret st).2.2.vars x = st.vars x ∧
      (importPass env onlyFirst rows ret st).2.2.flags f = st.flags f ∧
      ∀ v ∈ (importPass env onlyFirst rows ret st).2.1, v.Apart x f :=
  ⟨importPass_vars env onlyFirst (fun v hv => (h v hv).1) ret st,
    importPass_flags env onlyFirst (fun v hv => (h v hv).2) ret st,
    importPass_rows env onlyFirst (fun _ d hv => hv.of_data d) h ret st⟩

end

/-! ## Rows that only set a global -/

/-- A row that is not only for the configuration table, and whose data is what its variable says. -/
structure MokStateVariable.Own (v : MokStateVariable) : Prop where
  configOnly : v.has mokVariableConfigOnly = false
  inverse : v.has mokVariableInverse = false
  format : v.format = none

/-- Such a row, and no key database. -/
structure MokStateVariable.Plain (v : MokStateVariable) : Prop extends v.Own where
  keydb : v.has mokMirrorKeydb = false

def ImportEnv.recorded (env : ImportEnv) (onlyFirst : Bool) (v : MokStateVariable) : Bool :=
  !onlyFirst || ((!v.has mokVariableMeasure || (env.tpmMeasureVariable v.name).isNone) &&
    (!v.has mokVariableLog || (env.tpmLogEvent v.name).isNone))

def ImportEnv.accepted (env : ImportEnv) (onlyFirst : Bool) (v : MokStateVariable)
    (vars : VarStore) : VarData :=
  match env.getVariableAttr onlyFirst v vars with
  | .ok x => if v.attributesOk x.attributes then .buf x.data else .null 0
  | .error _ => .null 0

def ImportEnv.rejects (env : ImportEnv) (onlyFirst : Bool) (v : MokStateVariable)
    (vars : VarStore) : Bool :=
  match env.getVariableAttr onlyFirst v vars with
  | .ok x => !v.attributesOk x.attributes
  | .error e => e ≠ .notFound

def ImportEnv.offered (env : ImportEnv) (onlyFirst : Bool) (v : MokStateVariable)
    (vars : VarStore) : VarData :=
  if v.data = .null 0 then env.accepted onlyFirst v vars else v.data

/-- The data that the row has afterwards. A row whose measurement fails loses its data: it had been
taken over to `FullData`. -/
def ImportEnv.kept (env : ImportEnv) (onlyFirst : Bool) (v : MokStateVariable) (d : VarData) :
    VarData :=
  if env.recorded onlyFirst v then d else .null 0

section

variable {env : ImportEnv} {onlyFirst : Bool} {v : MokStateVariable} {vars : VarStore}
  {f : StateFlag} {ret : EfiStatus} {st : ImportState}

lemma measure_isOk (env : ImportEnv) (onlyFirst : Bool) (v : MokStateVariable)
    (status : EfiStatus) :
    (measure env onlyFirst v status).isOk = env.recorded onlyFirst v := by
  unfold measure recorded
  cases onlyFirst with
  | false => rfl
  | true =>
    cases v.has mokVariableMeasure <;> cases v.has mokVariableLog <;>
      cases env.tpmMeasureVariable v.name <;> cases env.tpmLogEvent v.name <;> rfl

lemma keyData_of_not_keydb (hkeydb : v.has mokMirrorKeydb = false) : env.keyData v = .ok [] := by
  unfold keyData
  rw [hkeydb]
  rfl

lemma mirrorOneMokVariable_null (hkeydb : v.has mokMirrorKeydb = false) (hdata : v.data = .null 0) :
    mirrorOneMokVariable env onlyFirst v vars = (.success, v, vars) := by
  have hfull : assembleFull env onlyFirst v [] = .ok (.null 0, v) := by
    unfold assembleFull
    rw [if_neg (not_not.mpr rfl), hdata, hkeydb]
    rfl
  unfold mirrorOneMokVariable fullData
  rw [keyData_of_not_keydb hkeydb, ok_bind, hfull]
  dsimp only
  rw [if_pos (show (VarData.null 0).size = 0 from rfl), ← hdata]

lemma mirrorOneMokVariable_kept {left : MokStateVariable} {keyData : List UInt8} {full : VarData}
    (hkey : env.keyData v = .ok keyData)
    (hfull : assembleFull env onlyFirst v keyData = .ok (full, left)) (hsize : full.size ≠ 0) :
    (mirrorOneMokVariable env onlyFirst v vars).2.1.data =
      if env.recorded onlyFirst v then full else left.data := by
  unfold mirrorOneMokVariable fullData
  rw [hkey, ok_bind, hfull]
  dsimp only
  rw [if_neg hsize, ← measure_isOk env onlyFirst v (publish env onlyFirst v full.bytes vars).1]
  cases measure env onlyFirst v (publish env onlyFirst v full.bytes vars).1 with
  | error status => rfl
  | ok status => rfl

lemma mirrorOneMokVariable_data (hkeydb : v.has mokMirrorKeydb = false) (hdata : v.data.size ≠ 0) :
    (mirrorOneMokVariable env onlyFirst v vars).2.1.data = env.kept onlyFirst v v.data := by
  have hfull : assembleFull env onlyFirst v [] = .ok (v.data, { v with data := .null 0 }) := by
    unfold assembleFull
    rw [if_neg (not_not.mpr rfl), if_pos hdata]
  exact mirrorOneMokVariable_kept (keyData_of_not_keydb hkeydb) hfull hdata

lemma storeState_self {flags : StateFlag → UInt8} (h : v.state = some f) :
    storeState v flags f = v.data.stateOver (flags f) := by
  unfold storeState
  rw [h]
  exact update_self f _ flags

lemma ImportEnv.kept_null : env.kept onlyFirst v (.null 0) = .null 0 := by
  unfold kept
  split
  · rfl
  · rfl

lemma maybeMirrorOneMokVariable_plain (env : ImportEnv) (onlyFirst : Bool) (ret : EfiStatus)
    (st : ImportState) (hkeydb : v.has mokMirrorKeydb = false) (hstate : v.state = some f)
    (hdata : v.data = .null 0 ∨ v.data.size ≠ 0) :
    (maybeMirrorOneMokVariable env onlyFirst v ret st).2.1.data = env.kept onlyFirst v v.data ∧
      (maybeMirrorOneMokVariable env onlyFirst v ret st).2.2.flags f =
        (env.kept onlyFirst v v.data).stateOver (st.flags f) := by
  have hrow : (maybeMirrorOneMokVariable env onlyFirst v ret st).2.1.data =
      env.kept onlyFirst v v.data := by
    rcases hdata with hnull | hsize
    · unfold maybeMirrorOneMokVariable
      dsimp only
      rw [mirrorOneMokVariable_null hkeydb hnull, hnull, kept_null]
    · exact mirrorOneMokVariable_data hkeydb hsize
  refine ⟨hrow, ?_⟩
  obtain ⟨d, hd⟩ := maybeMirrorOneMokVariable_row env onlyFirst v ret st
  rw [← hrow]
  apply storeState_self
  show (maybeMirrorOneMokVariable env onlyFirst v ret st).2.1.state = some f
  rw [hd]
  exact hstate

lemma maybeMirrorOneMokVariable_violation :
    (maybeMirrorOneMokVariable env onlyFirst v .securityViolation st).1 = .securityViolation :=
  keepViolation_left _

lemma formatRow_readConfig (env : ImportEnv) (onlyFirst : Bool)
    (hconfig : v.has mokVariableConfigOnly = false) (hformat : v.format = none) (d : VarData)
    (vars : VarStore) :
    (formatRow env onlyFirst v d >>= fun d => readConfig env onlyFirst v d vars) = .ok d := by
  unfold formatRow
  rw [hformat]
  show readConfig env onlyFirst v d vars = .ok d
  unfold readConfig
  rw [hconfig]
  exact if_neg fun h => Bool.false_ne_true h.2.1

lemma importOneMokState_of_read (hconfig : v.has mokVariableConfigOnly = false)
    (hformat : v.format = none) :
    importOneMokState env onlyFirst v st = match readOwn env onlyFirst v st.vars with
      | .error status => (status, v, st)
      | .ok (data, delete) =>
        if delete then
          maybeMirrorOneMokVariable env onlyFirst { v with data := .null 0 }
            (deleteBad env onlyFirst v st.vars).1
            { st with vars := (deleteBad env onlyFirst v st.vars).2 }
        else maybeMirrorOneMokVariable env onlyFirst { v with data := data } .success st := by
  unfold importOneMokState handedOn
  cases readOwn env onlyFirst v st.vars with
  | error status => rfl
  | ok p =>
    dsimp only
    rw [formatRow_readConfig env onlyFirst hconfig hformat]
    cases p.2 <;> rfl

lemma getVariable_ok_ne_nil {fails : Option EfiStatus} {o : Option Variable} {x : Variable}
    (h : getVariable fails o = .ok x) : x.data ≠ [] := by
  unfold getVariable at h
  split at h
  · cases h
  · cases h
  · split at h
    · cases h
    · rename_i hne
      rw [← Except.ok.inj h]
      exact hne

lemma accepted_cases (env : ImportEnv) (onlyFirst : Bool) (v : MokStateVariable)
    (vars : VarStore) :
    env.accepted onlyFirst v vars = .null 0 ∨ (env.accepted onlyFirst v vars).size ≠ 0 := by
  unfold accepted
  cases hget : env.getVariableAttr onlyFirst v vars with
  | error e => exact .inl rfl
  | ok x =>
    dsimp only
    split
    · exact .inr fun h0 => getVariable_ok_ne_nil hget (length_eq_zero_iff.mp h0)
    · exact .inl rfl

lemma accepted_of_rejects (h : env.rejects onlyFirst v vars = true) :
    env.accepted onlyFirst v vars = .null 0 := by
  unfold rejects at h
  unfold accepted
  cases hget : env.getVariableAttr onlyFirst v vars with
  | error e => rfl
  | ok x =>
    rw [hget, Bool.not_eq_true'] at h
    dsimp only
    rw [h]
    rfl

lemma readOwn_null (hv : v.Own) (hnull : v.data = .null 0) (vars : VarStore) :
    ∃ d, readOwn env onlyFirst v vars = .ok (d, env.rejects onlyFirst v vars) ∧
      (env.rejects onlyFirst v vars = false → d = env.accepted onlyFirst v vars) := by
  unfold readOwn rejects accepted
  rw [if_pos ⟨hnull, hv.configOnly⟩, hv.inverse]
  cases env.getVariableAttr onlyFirst v vars with
  | ok x =>
    refine ⟨.buf x.data, rfl, ?_⟩
    intro h
    rw [Bool.not_eq_false'] at h
    dsimp only
    rw [h]
    rfl
  | error e =>
    refine ⟨.null 0, ?_, fun _ => rfl⟩
    cases e <;> rfl

lemma importOneMokState_null (hv : v.Own) (hnull : v.data = .null 0) :
    importOneMokState env onlyFirst v st = if env.rejects onlyFirst v st.vars then
        maybeMirrorOneMokVariable env onlyFirst v (deleteBad env onlyFirst v st.vars).1
          { st with vars := (deleteBad env onlyFirst v st.vars).2 }
      else maybeMirrorOneMokVariable env onlyFirst
        { v with data := env.accepted onlyFirst v st.vars } .success st := by
  obtain ⟨d, hread, hd⟩ := readOwn_null hv hnull st.vars
  rw [importOneMokState_of_read hv.configOnly hv.format, hread]
  dsimp only
  split
  · rw [← hnull]
  · rename_i hkeep
    rw [hd (Bool.eq_false_of_not_eq_true hkeep)]

lemma importOneMokState_of_data (hconfig : v.has mokVariableConfigOnly = false)
    (hformat : v.format = none) (hdata : v.data ≠ .null 0) :
    importOneMokState env onlyFirst v st =
      maybeMirrorOneMokVariable env onlyFirst v .success st := by
  have hread : readOwn env onlyFirst v st.vars = .ok (v.data, false) := if_neg fun h => hdata h.1
  rw [importOneMokState_of_read hconfig hformat, hread]
  rfl

variable (env onlyFirst)

lemma importOneMokState_plain (st : ImportState)
    (hv : v.Plain) (hstate : v.state = some f)
    (hdata : v.data = .null 0 ∨ v.data.size ≠ 0) :
    (importOneMokState env onlyFirst v st).2.1.data =
        env.kept onlyFirst v (env.offered onlyFirst v st.vars) ∧
      (importOneMokState env onlyFirst v st).2.2.flags f =
        (env.kept onlyFirst v (env.offered onlyFirst v st.vars)).stateOver (st.flags f) := by
  unfold offered
  by_cases hnull : v.data = .null 0
  · rw [if_pos hnull, importOneMokState_null hv.toOwn hnull]
    split
    · rename_i hrejects
      rw [accepted_of_rejects hrejects, ← hnull]
      exact maybeMirrorOneMokVariable_plain env onlyFirst _ _ hv.keydb hstate (.inl hnull)
    · exact maybeMirrorOneMokVariable_plain env onlyFirst .success st
        (v := { v with data := env.accepted onlyFirst v st.vars }) hv.keydb hstate
        (accepted_cases env onlyFirst v st.vars)
  · rw [if_neg hnull, importOneMokState_of_data hv.configOnly hv.format hnull]
    exact maybeMirrorOneMokVariable_plain env onlyFirst .success st hv.keydb hstate hdata

lemma deleteBad_cases (v : MokStateVariable)
    (vars : VarStore) :
    (deleteBad env onlyFirst v vars).1 = .securityViolation ∨
      (deleteBad env onlyFirst v vars).2 v.var = none := by
  unfold deleteBad
  dsimp only
  by_cases h : isError (deleteVariable (env.delete onlyFirst v.name) v.var vars).1 = true
  · exact .inl (if_pos h)
  refine .inr ?_
  unfold deleteVariable at h ⊢
  cases hfails : env.delete onlyFirst v.name with
  | some status =>
    rw [hfails] at h
    exact absurd (decide_eq_true status.2) h
  | none =>
    cases hvar : vars v.var with
    | none => exact hvar
    | some x => exact update_self _ _ _

lemma importOneMokState_own (st : ImportState)
    (hv : v.Own) (hnull : v.data = .null 0)
    (hrt : ¬ v.rtname.toList <+: v.name.toList) :
    (env.rejects onlyFirst v st.vars = false →
        (importOneMokState env onlyFirst v st).2.2.vars v.var = st.vars v.var) ∧
      (env.rejects onlyFirst v st.vars = true →
        (importOneMokState env onlyFirst v st).2.2.vars v.var = none ∨
          (importOneMokState env onlyFirst v st).1 = .securityViolation) := by
  rw [importOneMokState_null hv hnull]
  refine ⟨?_, ?_⟩
  · intro h
    rw [h]
    exact maybeMirrorOneMokVariable_vars (v := { v with data := _ }) hrt
  · intro h
    rw [if_pos h]
    rcases deleteBad_cases env onlyFirst v st.vars with hbad | hnone
    · rw [hbad]
      exact .inr maybeMirrorOneMokVariable_violation
    · refine .inl (Eq.trans ?_ hnone)
      exact maybeMirrorOneMokVariable_vars (v := v) hrt

end

/-! ## Both walks -/

section

variable {env : ImportEnv} {onlyFirst : Bool} {v : MokStateVariable} {f : StateFlag}
  {before after : List MokStateVariable} {st : ImportState}

lemma importPass_append (rows rows' : List MokStateVariable) (ret : EfiStatus)
    (st : ImportState) :
    importPass env onlyFirst (rows ++ rows') ret st =
      let first := importPass env onlyFirst rows ret st
      let second := importPass env onlyFirst rows' first.1 first.2.2
      (second.1, first.2.1 ++ second.2.1, second.2.2) := by
  induction rows generalizing ret st with
  | nil => rfl
  | cons v rows ih =>
    rw [cons_append, importPass, ih]
    rfl

lemma importPass_violation (rows : List MokStateVariable) (st : ImportState) :
    (importPass env onlyFirst rows .securityViolation st).1 = .securityViolation := by
  induction rows generalizing st with
  | nil => rfl
  | cons v rows ih =>
    rw [importPass, keepViolation_left]
    exact ih _

/-- If only the row `v` is about its variable and sets `f`, a walk leaves of the two what the import
of the row does. -/
theorem importPass_row (env : ImportEnv) (onlyFirst : Bool) (hbefore : ∀ w ∈ before, w.Apart v.var f)
    (hafter : ∀ w ∈ after, w.Apart v.var f) (ret : EfiStatus) (st : ImportState) :
    ∃ mid : ImportState, mid.vars v.var = st.vars v.var ∧ mid.flags f = st.flags f ∧
      ∃ before' after' : List MokStateVariable,
        let walk := importPass env onlyFirst (before ++ v :: after) ret st
        let one := importOneMokState env onlyFirst v mid
        (∀ w ∈ before', w.Apart v.var f) ∧ (∀ w ∈ after', w.Apart v.var f) ∧
        walk.2.1 = before' ++ one.2.1 :: after' ∧ walk.2.2.vars v.var = one.2.2.vars v.var ∧
        walk.2.2.flags f = one.2.2.flags f ∧
        (one.1 = .securityViolation → walk.1 = .securityViolation) := by
  rw [importPass_append]
  obtain ⟨hvars, hflags, hrows⟩ := importPass_apart env onlyFirst hbefore ret st
  generalize importPass env onlyFirst before ret st = first at hvars hflags hrows ⊢
  obtain ⟨hvars', hflags', hrows'⟩ := importPass_apart env onlyFirst hafter
    (keepViolation first.1 (importOneMokState env onlyFirst v first.2.2).1)
    (importOneMokState env onlyFirst v first.2.2).2.2
  refine ⟨first.2.2, hvars, hflags, first.2.1, _, hrows, hrows', rfl, hvars', hflags', ?_⟩
  intro h
  show (importPass env onlyFirst after (keepViolation first.1 _) _).1 = _
  rw [h, keepViolation_right]
  exact importPass_violation after _

/-- The data that the two walks import for a row: of the first one, or of the second if the first
has lost it or found no variable. -/
def ImportEnv.imported (env : ImportEnv) (v : MokStateVariable) (vars : VarStore) : VarData :=
  if env.kept true v (env.accepted true v vars) ≠ .null 0 then env.accepted true v vars
  else if env.rejects true v vars then .null 0
  else env.accepted false v vars

lemma VarData.stateOver_twice (d : VarData) (b : UInt8) :
    d.stateOver (d.stateOver b) = d.stateOver b := by
  rcases d with n | _ | ⟨c, _ | ⟨_, _⟩⟩
  · rfl
  · rfl
  · rfl
  · rfl

lemma accepted_congr {vars vars' : VarStore} (h : vars v.var = vars' v.var) :
    env.accepted onlyFirst v vars = env.accepted onlyFirst v vars' := by
  unfold accepted getVariableAttr
  rw [h]

lemma accepted_of_none {vars : VarStore} (h : vars v.var = none) :
    env.accepted onlyFirst v vars = .null 0 := by
  unfold accepted getVariableAttr
  rw [h]
  cases env.read onlyFirst v.name with
  | none => rfl
  | some e => rfl

lemma rejects_congr {vars vars' : VarStore} (h : vars v.var = vars' v.var) :
    env.rejects onlyFirst v vars = env.rejects onlyFirst v vars' := by
  unfold rejects getVariableAttr
  rw [h]

lemma kept_of_ne {d : VarData} (h : env.kept onlyFirst v d ≠ .null 0) :
    env.kept onlyFirst v d = d := by
  unfold kept at h ⊢
  split at h
  · rename_i hrec
    exact if_pos hrec
  · exact absurd rfl h

lemma accepted_eq_buf {vars : VarStore} {d : List UInt8} :
    env.accepted onlyFirst v vars = .buf d ↔
      env.read onlyFirst v.name = none ∧ ∃ x, vars v.var = some x ∧ x.data = d ∧ x.data ≠ [] ∧
        v.attributesOk x.attributes = true := by
  unfold accepted getVariableAttr
  cases hread : env.read onlyFirst v.name with
  | some e => simp [getVariable]
  | none =>
    cases hvar : vars v.var with
    | none => simp [getVariable]
    | some x =>
      by_cases hempty : x.data = []
      · simp [getVariable, hempty]
      · by_cases hattr : v.attributesOk x.attributes = true
        · simp [getVariable, hempty, hattr]
        · simp [getVariable, hempty, hattr]

def ImportEnv.missed (env : ImportEnv) (onlyFirst : Bool) (name : String) : Prop :=
  (env.read onlyFirst name).map Subtype.val = some .notFound

instance (env : ImportEnv) (onlyFirst : Bool) (name : String) :
    Decidable (env.missed onlyFirst name) :=
  inferInstanceAs (Decidable (_ = _))

lemma rejects_of_unread (vars : VarStore) (h : env.read onlyFirst v.name ≠ none) :
    env.rejects onlyFirst v vars = false ↔ env.missed onlyFirst v.name := by
  obtain ⟨e, he⟩ := Option.ne_none_iff_exists'.mp h
  unfold rejects getVariableAttr missed
  rw [he]
  simp [getVariable]

lemma accepted_of_unread {vars : VarStore} (h : env.read onlyFirst v.name ≠ none) :
    env.accepted onlyFirst v vars = .null 0 := by
  obtain ⟨e, he⟩ := Option.ne_none_iff_exists'.mp h
  unfold accepted getVariableAttr
  rw [he]
  rfl

lemma rejects_of_accepted {vars : VarStore} {d : List UInt8}
    (h : env.accepted onlyFirst v vars = .buf d) : env.rejects onlyFirst v vars = false := by
  cases hrej : env.rejects onlyFirst v vars with
  | false => rfl
  | true =>
    rw [accepted_of_rejects hrej] at h
    cases h

def ImportEnv.Reads (env : ImportEnv) (v : MokStateVariable) : Prop :=
  (env.read true v.name = none ∧ env.recorded true v = true) ∨
    ((env.read true v.name = none ∨ env.missed true v.name) ∧ env.read false v.name = none)

lemma imported_eq_buf {vars : VarStore} {d : List UInt8} : env.imported v vars = .buf d ↔
      (∃ x, vars v.var = some x ∧ x.data = d ∧ x.data ≠ [] ∧ v.attributesOk x.attributes = true) ∧
        env.Reads v := by
  unfold imported
  constructor
  · intro h
    split at h
    · rename_i hkept
      obtain ⟨hread, hx⟩ := accepted_eq_buf.mp h
      refine ⟨hx, .inl ⟨hread, ?_⟩⟩
      by_contra hrec
      exact hkept (if_neg hrec)
    · split at h
      · cases h
      · rename_i hrej
        obtain ⟨hread, hx⟩ := accepted_eq_buf.mp h
        refine ⟨hx, .inr ⟨?_, hread⟩⟩
        by_cases hfirst : env.read true v.name = none
        · exact .inl hfirst
        · exact .inr ((rejects_of_unread vars hfirst).mp (Bool.eq_false_of_not_eq_true hrej))
  · rintro ⟨hx, ⟨hread, hrec⟩ | ⟨hfirst, hread⟩⟩
    · have hacc := accepted_eq_buf.mpr ⟨hread, hx⟩
      rw [hacc, if_pos]
      unfold kept
      rw [if_pos hrec]
      exact fun h => by cases h
    · have hsecond := accepted_eq_buf.mpr ⟨hread, hx⟩
      by_cases hread1 : env.read true v.name = none
      · have hacc := accepted_eq_buf.mpr ⟨hread1, hx⟩
        rw [hsecond, hacc, rejects_of_accepted hacc]
        exact ite_self _
      · have hrej := (rejects_of_unread vars hread1).mpr (hfirst.resolve_left hread1)
        rw [accepted_of_unread hread1, kept_null, if_neg (not_not.mpr rfl), hrej]
        exact hsecond

/-- The two walks import such a row twice, the second time with what the first one has left. -/
theorem importMokVariables_row (env : ImportEnv) (hbefore : ∀ w ∈ before, w.Apart v.var f)
    (hafter : ∀ w ∈ after, w.Apart v.var f) (st : ImportState) :
    ∃ mid mid' : ImportState, ∃ d : VarData,
      let one := importOneMokState env true v mid
      mid.vars v.var = st.vars v.var ∧ mid.flags f = resetFlags st.flags f ∧ one.2.1.data = d ∧
      mid'.vars v.var = one.2.2.vars v.var ∧ mid'.flags f = one.2.2.flags f ∧
      (importPass env true (before ++ v :: after) .success
        { st with flags := resetFlags st.flags }).2.2.flags f = one.2.2.flags f ∧
      (importMokVariables env (before ++ v :: after) st).2.2.flags f =
        (importOneMokState env false { v with data := d } mid').2.2.flags f ∧
      (one.1 = .securityViolation →
        (importMokVariables env (before ++ v :: after) st).1 = .securityViolation) := by
  obtain ⟨mid, hmidVars, hmidFlags, before', after', hbefore', hafter', hrows, hvars, hflags,
    hviol⟩ :=
    importPass_row env true hbefore hafter .success { st with flags := resetFlags st.flags }
  obtain ⟨d, hd⟩ := importOneMokState_row env true v mid
  rw [hd] at hrows
  obtain ⟨mid', hmidVars', hmidFlags', -, -, -, -, -, -, hflags', -⟩ :=
    importPass_row env false (v := { v with data := d }) hbefore' hafter' .success
      (importPass env true (before ++ v :: after) .success
        { st with flags := resetFlags st.flags }).2.2
  refine ⟨mid, mid', d, hmidVars, hmidFlags, congrArg MokStateVariable.data hd,
    hmidVars'.trans hvars, hmidFlags'.trans hflags, hflags, ?_, hviol⟩
  unfold importMokVariables
  dsimp only
  rw [hrows]
  exact hflags'

lemma importMokVariables_flag (hv : v.Plain) (hstate : v.state = some f)
    (hnull : v.data = .null 0) (hrt : ¬ v.rtname.toList <+: v.name.toList)
    (hbefore : ∀ w ∈ before, w.Apart v.var f) (hafter : ∀ w ∈ after, w.Apart v.var f)
    (hret : (importMokVariables env (before ++ v :: after) st).1 ≠ .securityViolation) :
    (importMokVariables env (before ++ v :: after) st).2.2.flags f =
      (env.imported v st.vars).stateOver (resetFlags st.flags f) := by
  obtain ⟨mid, mid', d, hmidVars, hmidFlags, hd, hvars, hflags, -, hend, hviol⟩ :=
    importMokVariables_row env hbefore hafter st
  obtain ⟨hdata1, hflag1⟩ := importOneMokState_plain env true mid hv hstate (.inl hnull)
  obtain ⟨hkeeps, hrejects⟩ := importOneMokState_own env true mid hv.toOwn hnull hrt
  have hoffered : env.offered true v mid.vars = env.accepted true v st.vars :=
    (if_pos hnull).trans (accepted_congr hmidVars)
  rw [hoffered, hd] at hdata1
  rw [hoffered, ← hdata1, hmidFlags] at hflag1
  have hwf : d = .null 0 ∨ d.size ≠ 0 := by
    rw [hdata1]
    unfold kept
    split
    · exact accepted_cases env true v st.vars
    · exact .inl rfl
  obtain ⟨-, hflag2⟩ := importOneMokState_plain env false mid' (v := { v with data := d })
    ⟨⟨hv.configOnly, hv.inverse, hv.format⟩, hv.keydb⟩ hstate hwf
  have hsecond : (importMokVariables env (before ++ v :: after) st).2.2.flags f =
      (if d = .null 0 then env.accepted false v mid'.vars else d).stateOver
        (d.stateOver (resetFlags st.flags f)) := by
    rw [hend, hflag2, hflags, hflag1]
    rfl
  rw [hsecond]
  unfold imported
  rw [← hdata1]
  by_cases hd0 : d = .null 0
  · rw [if_pos hd0, if_neg (not_not.mpr hd0), hd0, ← rejects_congr hmidVars]
    show (env.accepted false v mid'.vars).stateOver (resetFlags st.flags f) = _
    by_cases hrej : env.rejects true v mid.vars = true
    · have hgone := (hrejects hrej).resolve_right fun h => hret (hviol h)
      rw [if_pos hrej, accepted_of_none (hvars.trans hgone)]
    · have hstays := hkeeps (Bool.eq_false_of_not_eq_true hrej)
      rw [if_neg hrej, accepted_congr ((hvars.trans hstays).trans hmidVars)]
  · have hacc : d = env.accepted true v st.vars := by
      rw [hdata1] at hd0 ⊢
      exact kept_of_ne hd0
    rw [if_neg hd0, if_pos hd0, VarData.stateOver_twice, ← hacc]

end

/-- Nothing fails, and nothing is built in. -/
def workingImports : ImportEnv where
  read _ _ := none
  readLen _ _ := 0
  delete _ _ := none
  deleteRt _ := none
  setRt _ := none
  mirrorMokDb _ _ _ := (.success, [])
  tpmMeasureVariable _ := none
  tpmLogEvent _ := none
  alloc _ _ _ := true
  vendorAuthorized := []
  vendorAuthorizedCategory := .none
  vendorDeauthorized := []
  userCert := []
  buildCert := []
  hsiStatus := 0
  variableInfo _ := []

end Shim.Mok
