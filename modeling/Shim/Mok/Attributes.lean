import Shim.Boot

/-!
# Which attributes a MOK variable needs

A variable of shim's own should be accessible to boot services and not volatile, and not accessible
at run time: `yes_attr` and `no_attr`. `import_one_mok_state` asks for one bit of `yes_attr`.
-/

namespace Shim.Mok

open Lib List Function Option ImportEnv ImportState MokStateVariable
open Sbat (Variable getVariable)

def configEntries (rows : List MokStateVariable) : List (String × List UInt8) :=
  rows.filterMap fun v =>
    match v.data with
    | .null _ => none
    | .buf bytes => if bytes = [] then none else some (v.rtname, bytes)

def importedConfig (env : ImportEnv) (rows : List MokStateVariable) (st : ImportState) :
    List (String × List UInt8) :=
  configEntries (importPass env true rows .success { st with flags := resetFlags st.flags }).2.1

def MokStateVariable.Demands (v : MokStateVariable) (attributes : ℕ) : Prop :=
  attributes &&& v.yesAttr = v.yesAttr ∧ attributes &&& v.noAttr = 0

instance (v : MokStateVariable) (attributes : ℕ) : Decidable (v.Demands attributes) :=
  inferInstanceAs (Decidable (_ ∧ _))

/-! ## Other variables -/

def ImportState.setVar (st : ImportState) (x : VarName) (o : Option Variable) : ImportState :=
  { st with vars := Function.update st.vars x o }

section

variable {env : ImportEnv} {onlyFirst : Bool} {v : MokStateVariable} {vars : VarStore}
  {x : VarName} {o : Option Variable} {ret : EfiStatus} {st : ImportState}

lemma deleteVariable_update {fails : Option Failure} {y : VarName} (h : y ≠ x) :
    deleteVariable fails y (Function.update vars x o) =
      ((deleteVariable fails y vars).1, Function.update (deleteVariable fails y vars).2 x o) := by
  unfold deleteVariable
  rw [update_of_ne h]
  cases fails with
  | some status => rfl
  | none =>
    cases vars y with
    | none => rfl
    | some z => exact Prod.ext rfl (update_comm h none o vars).symm

lemma writeVariable_update {fails : Option Failure} {y : VarName} {new : Variable} (h : y ≠ x) :
    writeVariable fails y new (Function.update vars x o) = ((writeVariable fails y new vars).1,
        Function.update (writeVariable fails y new vars).2 x o) := by
  unfold writeVariable
  rw [update_of_ne h]
  exact Prod.ext rfl (update_comm h _ o vars).symm

lemma applyWrites_update {rtname : String} {guid : VendorGuid}
    (h : ¬ rtname.toList <+: x.name.toList) (writes : List (Option ℕ × Variable)) :
    applyWrites rtname guid writes (Function.update vars x o) =
      Function.update (applyWrites rtname guid writes vars) x o := by
  unfold applyWrites
  induction writes generalizing vars with
  | nil => rfl
  | cons w writes ih =>
    rw [foldl_cons, foldl_cons, ← ih, update_comm (numberedName_ne h w.1).symm]

section

variable (h : ¬ v.rtname.toList <+: x.name.toList)
include h

lemma publish_update (full : List UInt8) :
    publish env onlyFirst v full (Function.update vars x o) =
      ((publish env onlyFirst v full vars).1,
        Function.update (publish env onlyFirst v full vars).2 x o) := by
  unfold publish
  split_ifs
  · rfl
  · exact Prod.ext rfl (applyWrites_update h _)
  · exact writeVariable_update (numberedName_ne h none).symm
  · rfl

lemma mirrorOneMokVariable_update :
    mirrorOneMokVariable env onlyFirst v (Function.update vars x o) =
      ((mirrorOneMokVariable env onlyFirst v vars).1,
        (mirrorOneMokVariable env onlyFirst v vars).2.1,
        Function.update (mirrorOneMokVariable env onlyFirst v vars).2.2 x o) := by
  unfold mirrorOneMokVariable
  cases fullData env onlyFirst v with
  | error status => rfl
  | ok p =>
    dsimp only
    split_ifs
    · rfl
    rw [publish_update h]
    dsimp only
    cases measure env onlyFirst v (publish env onlyFirst v p.1.bytes vars).1 with
    | error status => rfl
    | ok status => rfl

lemma maybeMirrorOneMokVariable_setVar (st : ImportState) :
    maybeMirrorOneMokVariable env onlyFirst v ret (st.setVar x o) =
      let one := maybeMirrorOneMokVariable env onlyFirst v ret st
      (one.1, one.2.1, one.2.2.setVar x o) := by
  have hdelete : (if onlyFirst ∧ v.has mokMirrorDeleteFirst then
        (deleteVariable (env.deleteRt v.name) ⟨v.rtname, v.guid⟩ (st.setVar x o).vars).2
      else (st.setVar x o).vars) =
      Function.update (if onlyFirst ∧ v.has mokMirrorDeleteFirst then
        (deleteVariable (env.deleteRt v.name) ⟨v.rtname, v.guid⟩ st.vars).2 else st.vars) x o := by
    split_ifs
    · exact congrArg Prod.snd (deleteVariable_update (numberedName_ne h none).symm)
    · rfl
  unfold maybeMirrorOneMokVariable
  dsimp only
  rw [hdelete, mirrorOneMokVariable_update h]
  rfl

end

lemma getVariableAttr_update (h : v.var ≠ x) :
    env.getVariableAttr onlyFirst v (Function.update vars x o) =
      env.getVariableAttr onlyFirst v vars := by
  unfold getVariableAttr
  rw [update_of_ne h]

lemma importOneMokState_setVar (h : v.Foreign x) :
    importOneMokState env onlyFirst v (st.setVar x o) =
      ((importOneMokState env onlyFirst v st).1, (importOneMokState env onlyFirst v st).2.1,
        (importOneMokState env onlyFirst v st).2.2.setVar x o) := by
  have hread : readOwn env onlyFirst v (st.setVar x o).vars = readOwn env onlyFirst v st.vars := by
    unfold readOwn setVar
    rw [getVariableAttr_update h.1]
  have hconfig : ∀ data, readConfig env onlyFirst v data (st.setVar x o).vars =
      readConfig env onlyFirst v data st.vars := by
    intro data
    unfold readConfig setVar
    rw [getVariableAttr_update h.1]
  have hbad : deleteBad env onlyFirst v (st.setVar x o).vars =
      ((deleteBad env onlyFirst v st.vars).1,
        Function.update (deleteBad env onlyFirst v st.vars).2 x o) := by
    unfold deleteBad setVar
    rw [deleteVariable_update h.1]
  have hdelete : ∀ delete : Bool, (if delete then deleteBad env onlyFirst v (st.setVar x o).vars
        else (.success, (st.setVar x o).vars)) =
      let d := if delete then deleteBad env onlyFirst v st.vars else (.success, st.vars)
      (d.1, Function.update d.2 x o) := by
    rintro (_ | _)
    · rfl
    · exact hbad
  unfold importOneMokState handedOn
  rw [hread]
  cases readOwn env onlyFirst v st.vars with
  | error status => rfl
  | ok p =>
    dsimp only
    simp only [hconfig]
    cases formatRow env onlyFirst v p.1 >>= fun data => readConfig env onlyFirst v data st.vars with
    | error e => rfl
    | ok data =>
      dsimp only
      rw [hdelete]
      exact maybeMirrorOneMokVariable_setVar (v := { v with data := if p.2 then .null 0 else data })
        h.2 { st with vars := (if p.2 then deleteBad env onlyFirst v st.vars else
          (.success, st.vars)).2 }

end

/-! ## Variables that are refused -/

/-- The second state is the first one, or has another content in a variable that is there with the
attributes. -/
def Hides (x : VarName) (attributes : ℕ) (st st' : ImportState) : Prop :=
  st' = st ∨ ∃ data data' : List UInt8, data ≠ [] ∧ data' ≠ [] ∧
    st.vars x = some ⟨data, attributes⟩ ∧ st' = st.setVar x (some ⟨data', attributes⟩)

structure MokStateVariable.Refuses (v : MokStateVariable) (x : VarName) (attributes : ℕ) : Prop where
  var : v.var = x
  configOnly : v.has mokVariableConfigOnly = false
  format : v.format = none
  rtname : ¬ v.rtname.toList <+: x.name.toList
  attributes : v.attributesOk attributes = false

section

variable {env : ImportEnv} {onlyFirst : Bool} {v : MokStateVariable} {x : VarName}
  {attributes : ℕ} {ret : EfiStatus} {st st' : ImportState}

section

variable (h : Hides x attributes st st')
include h

lemma Hides.flags : st'.flags = st.flags := by
  rcases h with rfl | ⟨_, _, _, _, _, rfl⟩
  · rfl
  · rfl

lemma Hides.vars {y : VarName} (hy : y ≠ x) : st'.vars y = st.vars y := by
  rcases h with rfl | ⟨_, _, _, _, _, rfl⟩
  · rfl
  · exact update_of_ne hy _ _

lemma Hides.maybeMirror (hrt : ¬ v.rtname.toList <+: x.name.toList) :
    let one := maybeMirrorOneMokVariable env onlyFirst v ret st
    let other := maybeMirrorOneMokVariable env onlyFirst v ret st'
    other.1 = one.1 ∧ other.2.1 = one.2.1 ∧ Hides x attributes one.2.2 other.2.2 := by
  rcases h with rfl | ⟨data, data', hdata, hdata', hvar, rfl⟩
  · exact ⟨rfl, rfl, .inl rfl⟩
  · rw [maybeMirrorOneMokVariable_setVar hrt]
    exact ⟨rfl, rfl, .inr ⟨data, data', hdata, hdata',
      (maybeMirrorOneMokVariable_vars hrt).trans hvar, rfl⟩⟩

end

lemma readOwn_of_get {vars : VarStore} {y : Variable} (hnull : v.data = .null 0)
    (hconfig : v.has mokVariableConfigOnly = false)
    (hget : env.getVariableAttr onlyFirst v vars = .ok y) :
    readOwn env onlyFirst v vars = .ok (if v.has mokVariableInverse then .null 0 else .buf y.data,
        !v.attributesOk y.attributes) := by
  unfold readOwn
  rw [if_pos ⟨hnull, hconfig⟩, hget]

lemma getVariableAttr_ok {vars : VarStore} {data : List UInt8} (hdata : data ≠ [])
    (hread : env.read onlyFirst v.name = none) (hvar : vars v.var = some ⟨data, attributes⟩) :
    env.getVariableAttr onlyFirst v vars = .ok ⟨data, attributes⟩ := by
  unfold getVariableAttr
  rw [hread, hvar]
  exact if_neg hdata

lemma readOwn_refused (hv : v.Refuses x attributes) {vars : VarStore} {data data' : List UInt8}
    (hdata : data ≠ []) (hdata' : data' ≠ []) (hvar : vars x = some ⟨data, attributes⟩) :
    readOwn env onlyFirst v (Function.update vars x (some ⟨data', attributes⟩)) =
        readOwn env onlyFirst v vars ∨
      ∃ d d', readOwn env onlyFirst v vars = .ok (d, true) ∧
        readOwn env onlyFirst v (Function.update vars x (some ⟨data', attributes⟩)) =
          .ok (d', true) := by
  obtain rfl := hv.var
  by_cases hnull : v.data = .null 0
  · cases hread : env.read onlyFirst v.name with
    | none =>
      have hget := getVariableAttr_ok hdata hread hvar
      have hvar' := update_self v.var (some (⟨data', attributes⟩ : Variable)) vars
      have hget' := getVariableAttr_ok hdata' hread hvar'
      have hfound := readOwn_of_get hnull hv.configOnly hget
      have hfound' := readOwn_of_get hnull hv.configOnly hget'
      dsimp only at hfound hfound'
      rw [hv.attributes] at hfound hfound'
      exact .inr ⟨_, _, hfound, hfound'⟩
    | some e =>
      left
      unfold readOwn getVariableAttr
      rw [hread]
      rfl
  · left
    unfold readOwn
    rw [if_neg fun h => hnull h.1, if_neg fun h => hnull h.1]

section

variable (env : ImportEnv) (onlyFirst : Bool)

lemma deleteBad_hides (hx : v.var = x) (h : Hides x attributes st st') :
    (deleteBad env onlyFirst v st'.vars).1 = (deleteBad env onlyFirst v st.vars).1 ∧
      Hides x attributes { st with vars := (deleteBad env onlyFirst v st.vars).2 }
        { st' with vars := (deleteBad env onlyFirst v st'.vars).2 } := by
  subst hx
  rcases h with rfl | ⟨data, data', hdata, hdata', hvar, rfl⟩
  · exact ⟨rfl, .inl rfl⟩
  unfold deleteBad deleteVariable setVar
  dsimp only
  rw [hvar, update_self]
  cases env.delete onlyFirst v.name with
  | some status => exact ⟨rfl, .inr ⟨data, data', hdata, hdata', hvar, rfl⟩⟩
  | none =>
    refine ⟨rfl, .inl ?_⟩
    simp only [update_idem]

lemma importOneMokState_hides (hv : v.Foreign x ∨ v.Refuses x attributes)
    (h : Hides x attributes st st') :
    (importOneMokState env onlyFirst v st').1 = (importOneMokState env onlyFirst v st).1 ∧
      (importOneMokState env onlyFirst v st').2.1 = (importOneMokState env onlyFirst v st).2.1 ∧
      Hides x attributes (importOneMokState env onlyFirst v st).2.2
        (importOneMokState env onlyFirst v st').2.2 := by
  rcases hv with hv | hv
  · rcases h with rfl | ⟨data, data', hdata, hdata', hvar, rfl⟩
    · exact ⟨rfl, rfl, .inl rfl⟩
    · rw [importOneMokState_setVar hv]
      exact ⟨rfl, rfl, .inr ⟨data, data', hdata, hdata',
        (importOneMokState_vars hv).trans hvar, rfl⟩⟩
  have hread : readOwn env onlyFirst v st'.vars = readOwn env onlyFirst v st.vars ∨
      ∃ d d', readOwn env onlyFirst v st.vars = .ok (d, true) ∧
        readOwn env onlyFirst v st'.vars = .ok (d', true) := by
    rcases h with rfl | ⟨data, data', hdata, hdata', hvar, rfl⟩
    · exact .inl rfl
    · exact readOwn_refused hv hdata hdata' hvar
  obtain ⟨hstatus, hafter⟩ := deleteBad_hides env onlyFirst hv.var h
  rw [importOneMokState_of_read hv.configOnly hv.format,
    importOneMokState_of_read hv.configOnly hv.format]
  rcases hread with heq | ⟨d, d', hd, hd'⟩
  · rw [heq]
    cases readOwn env onlyFirst v st.vars with
    | error status => exact ⟨rfl, rfl, h⟩
    | ok p =>
      dsimp only
      split_ifs
      · rw [hstatus]
        exact hafter.maybeMirror (v := { v with data := .null 0 }) hv.rtname
      · exact h.maybeMirror (v := { v with data := p.1 }) hv.rtname
  · rw [hd, hd']
    dsimp only
    rw [if_pos rfl, if_pos rfl, hstatus]
    exact hafter.maybeMirror (v := { v with data := .null 0 }) hv.rtname

lemma importPass_hides {rows : List MokStateVariable}
    (hrows : ∀ v ∈ rows, v.Foreign x ∨ v.Refuses x attributes) (h : Hides x attributes st st')
    (ret : EfiStatus) :
    (importPass env onlyFirst rows ret st').1 = (importPass env onlyFirst rows ret st).1 ∧
      (importPass env onlyFirst rows ret st').2.1 = (importPass env onlyFirst rows ret st).2.1 ∧
      Hides x attributes (importPass env onlyFirst rows ret st).2.2
        (importPass env onlyFirst rows ret st').2.2 := by
  induction rows generalizing ret st st' with
  | nil => exact ⟨rfl, rfl, h⟩
  | cons v rows ih =>
    obtain ⟨hv, hrest⟩ := forall_mem_cons.mp hrows
    obtain ⟨hstatus, hrow, hafter⟩ := importOneMokState_hides env onlyFirst hv h
    obtain ⟨hstatuses, hlist, hend⟩ := ih hrest hafter
      (keepViolation ret (importOneMokState env onlyFirst v st).1)
    unfold importPass
    dsimp only
    rw [hstatus, hrow, hlist]
    exact ⟨hstatuses, rfl, hend⟩

end

end

section

variable {devel : Bool} {v w : MokStateVariable} {attributes : ℕ}

section

variable (hv : v ∈ mokStateVariableData devel)
include hv

lemma mokStateVariableData_yesAttr (hyes : v.yesAttr ≠ 0) :
    v.data = .null 0 ∧ v.has mokVariableConfigOnly = false ∧ v.format.isNone = true ∧
      ¬ v.rtname.toList <+: v.name.toList := by
  have htable : (mokStateVariableData devel).all (fun v => v.yesAttr = 0 || decide (v.data = .null 0 ∧
      v.has mokVariableConfigOnly = false ∧ v.format.isNone = true ∧
      ¬ v.rtname.toList <+: v.name.toList)) = true := by
    cases devel <;> decide +kernel
  have hrow := all_eq_true.mp htable v hv
  rw [Bool.or_eq_true, decide_eq_true_eq, decide_eq_true_eq] at hrow
  exact hrow.resolve_left hyes

lemma mokStateVariableData_foreign (hyes : v.yesAttr ≠ 0)
    (hw : w ∈ mokStateVariableData devel) :
    w.Foreign v.var ∨ w.var = v.var ∧ w.yesAttr = v.yesAttr ∧ w.noAttr = v.noAttr := by
  have htable : (mokStateVariableData devel).all (fun v => v.yesAttr = 0 ||
      (mokStateVariableData devel).all fun w => decide (w.Foreign v.var ∨
        w.var = v.var ∧ w.yesAttr = v.yesAttr ∧ w.noAttr = v.noAttr)) = true := by
    cases devel <;> decide +kernel
  have hrow := all_eq_true.mp htable v hv
  rw [Bool.or_eq_true, decide_eq_true_eq] at hrow
  exact of_decide_eq_true (all_eq_true.mp (hrow.resolve_left hyes) w hw)

lemma mokStateVariableData_refuses (hyes : v.yesAttr ≠ 0)
    (hbad : v.attributesOk attributes = false) :
    ∀ w ∈ mokStateVariableData devel, w.Foreign v.var ∨ w.Refuses v.var attributes := by
  intro w hw
  refine (mokStateVariableData_foreign hv hyes hw).imp id ?_
  rintro ⟨hvar, hyes', hno⟩
  obtain ⟨-, hconfig, hformat, hrt⟩ := mokStateVariableData_yesAttr hw (hyes' ▸ hyes)
  have hname : w.name = v.name := congrArg VarName.name hvar
  refine ⟨hvar, hconfig, isNone_iff_eq_none.mp hformat, ?_, ?_⟩
  · show ¬ w.rtname.toList <+: v.name.toList
    rw [← hname]
    exact hrt
  · unfold attributesOk at hbad ⊢
    rw [hyes', hno]
    exact hbad

end

end

/-! ## What the attributes decide -/

/-- A call that is given a content with the attributes deletes the variable, or fails; with another
content it returns the same and leaves the same row, globals and other variables. -/
def DiscardsOne (env : ImportEnv) (onlyFirst : Bool) (v : MokStateVariable) (attributes : ℕ) :
    Prop :=
  ∀ st data, env.getVariableAttr onlyFirst v st.vars = .ok ⟨data, attributes⟩ →
    let one := importOneMokState env onlyFirst v st
    (one.2.2.vars v.var = none ∨
      env.delete onlyFirst v.name ≠ none ∧ one.1 = .securityViolation) ∧
    ∀ data', data' ≠ [] →
      let other := importOneMokState env onlyFirst v (st.setVar v.var (some ⟨data', attributes⟩))
      other.1 = one.1 ∧ other.2.1 = one.2.1 ∧ other.2.2.flags = one.2.2.flags ∧
        ∀ y, y ≠ v.var → other.2.2.vars y = one.2.2.vars y

/-- In both walks the content has no effect on the status, the configuration table, the globals and
the other variables. -/
def DiscardsBoth (env : ImportEnv) (rows : List MokStateVariable) (x : VarName) (attributes : ℕ) :
    Prop :=
  ∀ st data data', data ≠ [] → data' ≠ [] → st.vars x = some ⟨data, attributes⟩ →
    let st' := st.setVar x (some ⟨data', attributes⟩)
    (importMokVariables env rows st').1 = (importMokVariables env rows st).1 ∧
      importedConfig env rows st' = importedConfig env rows st ∧
      (importMokVariables env rows st').2.2.flags = (importMokVariables env rows st).2.2.flags ∧
      ∀ y, y ≠ x → (importMokVariables env rows st').2.2.vars y =
        (importMokVariables env rows st).2.2.vars y

section

variable {env : ImportEnv} {onlyFirst devel : Bool} {v : MokStateVariable} {x : VarName}
  {attributes : ℕ} {st : ImportState}

lemma discardsOne_of_refuses (hv : v.Refuses v.var attributes) (hnull : v.data = .null 0) :
    DiscardsOne env onlyFirst v attributes := by
  intro st data hget
  have hfound := readOwn_of_get hnull hv.configOnly hget
  dsimp only at hfound
  rw [hv.attributes] at hfound
  have hthere : env.read onlyFirst v.name = none ∧ data ≠ [] ∧
      st.vars v.var = some ⟨data, attributes⟩ := by
    unfold getVariableAttr at hget
    cases hread : env.read onlyFirst v.name with
    | some e =>
      rw [hread] at hget
      cases hget
    | none =>
      cases hvar : st.vars v.var with
      | none =>
        rw [hread, hvar] at hget
        cases hget
      | some y =>
        rw [hread, hvar] at hget
        simp only [map_none, getVariable] at hget
        split_ifs at hget with hempty
        obtain rfl := Except.ok.inj hget
        exact ⟨rfl, hempty, rfl⟩
  obtain ⟨hread, hdata, hvar⟩ := hthere
  refine ⟨?_, fun data' hdata' => ?_⟩
  · rw [importOneMokState_of_read hv.configOnly hv.format, hfound]
    dsimp only
    rw [if_pos (show (!false) = true from rfl)]
    have hkept : ∀ ret st, (maybeMirrorOneMokVariable env onlyFirst { v with data := .null 0 } ret
        st).2.2.vars v.var = st.vars v.var :=
      fun ret st => maybeMirrorOneMokVariable_vars (v := { v with data := .null 0 }) hv.rtname
    rw [hkept]
    unfold deleteBad deleteVariable
    rw [hvar]
    cases env.delete onlyFirst v.name with
    | none => exact .inl (update_self _ _ _)
    | some e =>
      refine .inr ⟨some_ne_none e, ?_⟩
      have herror : isError e.1 = true := decide_eq_true e.2
      dsimp only
      rw [if_pos herror]
      exact maybeMirrorOneMokVariable_violation
  · have hhides : Hides v.var attributes st (st.setVar v.var (some ⟨data', attributes⟩)) :=
      .inr ⟨data, data', hdata, hdata', hvar, rfl⟩
    obtain ⟨hstatus, hrow, hafter⟩ := importOneMokState_hides env onlyFirst (.inr hv) hhides
    exact ⟨hstatus, hrow, hafter.flags, fun y hy => hafter.vars hy⟩

lemma discardsBoth_of_refuses {rows : List MokStateVariable}
    (hrows : ∀ w ∈ rows, w.Foreign x ∨ w.Refuses x attributes) :
    DiscardsBoth env rows x attributes := by
  intro st data data' hdata hdata' hvar
  have hhides : Hides x attributes { st with flags := resetFlags st.flags }
      { st.setVar x (some ⟨data', attributes⟩) with flags := resetFlags st.flags } :=
    .inr ⟨data, data', hdata, hdata', hvar, rfl⟩
  obtain ⟨hstatus, hlist, hmid⟩ := importPass_hides env true hrows hhides .success
  have hleft := importPass_rows env true (P := fun w => w.Foreign x ∨ w.Refuses x attributes)
    (fun _ _ hw => hw.imp id fun h => ⟨h.var, h.configOnly, h.format, h.rtname, h.attributes⟩)
    hrows .success { st with flags := resetFlags st.flags }
  obtain ⟨-, -, hafter⟩ := importPass_hides env false hleft hmid .success
  have hend : Hides x attributes (importMokVariables env rows st).2.2
      (importMokVariables env rows (st.setVar x (some ⟨data', attributes⟩))).2.2 := by
    show Hides x attributes (importPass env false (importPass env true rows .success
        { st with flags := resetFlags st.flags }).2.1 .success _).2.2
      (importPass env false (importPass env true rows .success
        { st.setVar x (some ⟨data', attributes⟩) with flags := resetFlags st.flags }).2.1
          .success _).2.2
    rw [hlist]
    exact hafter
  exact ⟨hstatus, congrArg configEntries hlist, hend.flags, fun y hy => hend.vars hy⟩

/-- A variable without all bits of `yes_attr`, or with one of `no_attr`, is deleted and has no
effect, in every call and in the whole import, iff the attributes are not some bits of `yes_attr`
and none of `no_attr`. -/
theorem importOneMokState_demands_iff (hv : v ∈ mokStateVariableData devel) (hyes : v.yesAttr ≠ 0)
    (attributes : ℕ) :
    (¬ v.Demands attributes → ∀ env, (∀ onlyFirst, DiscardsOne env onlyFirst v attributes) ∧
        DiscardsBoth env (mokStateVariableData devel) v.var attributes) ↔
      ¬ (attributes &&& v.yesAttr ≠ 0 ∧ attributes &&& v.yesAttr ≠ v.yesAttr ∧
        attributes &&& v.noAttr = 0) := by
  obtain ⟨hnull, hconfig, hformat, hrt⟩ := mokStateVariableData_yesAttr hv hyes
  replace hformat := isNone_iff_eq_none.mp hformat
  constructor
  · rintro h ⟨hsome, hmissing, hno⟩
    let st : ImportState :=
      ⟨fun x => if x = v.var then some ⟨[0], attributes⟩ else none, fun _ => 0⟩
    have hvar : st.vars v.var = some ⟨[0], attributes⟩ := if_pos rfl
    have hget : workingImports.getVariableAttr true v st.vars = .ok ⟨[0], attributes⟩ :=
      getVariableAttr_ok (by decide) rfl hvar
    have hok : v.attributesOk attributes = true := by
      unfold attributesOk
      simp [hsome, hno]
    have hdiscards := (h (fun hd => hmissing hd.1) workingImports).1 true
    rcases (hdiscards st [0] hget).1 with hgone | ⟨hfails, -⟩
    · rw [importOneMokState_of_read hconfig hformat, readOwn_of_get hnull hconfig hget] at hgone
      dsimp only at hgone
      rw [hok, if_neg (show ¬ (!true) = true by decide),
        maybeMirrorOneMokVariable_vars (v := { v with data := _ }) hrt, hvar] at hgone
      cases hgone
    · exact hfails rfl
  · intro hcond hnot env
    have hbad : v.attributesOk attributes = false := by
      unfold attributesOk
      by_cases hno : attributes &&& v.noAttr = 0
      · have hnone : attributes &&& v.yesAttr = 0 := by
          by_contra hsome
          exact hcond ⟨hsome, fun hall => hnot ⟨hall, hno⟩, hno⟩
        simp [hnone]
      · simp [hno]
    exact ⟨fun onlyFirst => discardsOne_of_refuses ⟨rfl, hconfig, hformat, hrt, hbad⟩ hnull,
      discardsBoth_of_refuses (mokStateVariableData_refuses hv hyes hbad)⟩

def mokSbStateRow : MokStateVariable :=
  ownVariable "MokSBState" "MokSBStateRT"
    (mokMirrorDeleteFirst ||| mokVariableMeasure ||| mokVariableLog) (some .userInsecureMode)

def volatileMokSbState (b : UInt8) : ImportState :=
  ⟨fun x => if x = mokSbStateRow.var then some ⟨[b], variableBootserviceAccess⟩ else none, fun _ => 0⟩

/-- A volatile `MokSBState` is imported: its byte becomes `user_insecure_mode` and is mirrored. -/
theorem importOneMokState_volatile :
    mokSbStateRow ∈ mokStateVariableData false ∧ mokSbStateRow.yesAttr ≠ 0 ∧
      ¬ mokSbStateRow.Demands variableBootserviceAccess ∧
      ∀ b ∈ [(0 : UInt8), 1],
        let r := importOneMokState workingImports true mokSbStateRow (volatileMokSbState b)
        (r.2.2.vars mokSbStateRow.var).map Variable.data = some [b] ∧
          r.2.2.flags .userInsecureMode = b ∧
          (r.2.2.vars ⟨"MokSBStateRT", .shimLock⟩).map Variable.data = some [b] := by
  refine ⟨?_, by decide, by decide, by decide +kernel⟩
  exact mem_append_left _ (mem_cons_of_mem _ (mem_cons_of_mem _ mem_cons_self))

theorem importOneMokState_demands_runtime :
    ¬ mokListRow.Demands 7 ∧ ∀ env, (∀ onlyFirst, DiscardsOne env onlyFirst mokListRow 7) ∧
      DiscardsBoth env (mokStateVariableData false) mokListRow.var 7 := by
  have hrow : mokListRow ∈ mokStateVariableData false := mem_cons_self
  have hdemands : ¬ mokListRow.Demands 7 := by decide
  exact ⟨hdemands, (importOneMokState_demands_iff hrow (by decide) 7).mpr (by decide) hdemands⟩

end

end Shim.Mok
