import Shim.Mok.Import

/-!
# The second walk over the MOK state variables

A row that has data after the first walk is not read again, so the second walk can only change a
global whose row has none. `MokListTrusted` is inverse: its global is set when there is no variable,
and the first walk itself can see to that.
-/

namespace Shim.Mok

open Lib MokStateVariable VarData
open Sbat (Variable getVariable)

/-! ## The import of a row when the services work -/

/-- A row that is mirrored as one variable: neither a key database nor only for the configuration
table, and not formatted. It may be inverse. -/
structure MokStateVariable.Single (v : MokStateVariable) : Prop where
  keydb : v.has mokMirrorKeydb = false
  configOnly : v.has mokVariableConfigOnly = false
  format : v.format = none

/-- Variables can be read, events can be measured and logged, and there is memory. That a variable can
be deleted or written is not asked for. -/
structure ImportEnv.Works (env : ImportEnv) : Prop where
  read : ∀ onlyFirst name, env.read onlyFirst name = none
  measure : ∀ name, env.tpmMeasureVariable name = none
  log : ∀ name, env.tpmLogEvent name = none
  alloc : ∀ onlyFirst name site, env.alloc onlyFirst name site = true

/-- The data that a row without data takes from its variable. An inverse row takes a one when there is
none. -/
def MokStateVariable.shown (v : MokStateVariable) : Option Variable → VarData
  | none => if v.has mokVariableInverse then .buf [1] else .null 0
  | some x =>
    if v.has mokVariableInverse = false ∧ v.attributesOk x.attributes then .buf x.data else .null 0

def MokStateVariable.bad (v : MokStateVariable) : Option Variable → Bool
  | none => false
  | some x => !v.attributesOk x.attributes

def MokStateVariable.remains (v : MokStateVariable) (fails : Option Failure) (o : Option Variable) :
    Option Variable :=
  if v.bad o ∧ fails = none then none else o

section

variable {env : ImportEnv} {onlyFirst : Bool} {v : MokStateVariable} {vars : VarStore}
  {f : StateFlag} {st : ImportState} {o : Option Variable}

lemma ImportEnv.Works.kept (henv : env.Works) (d : VarData) : env.kept onlyFirst v d = d := by
  unfold ImportEnv.kept ImportEnv.recorded
  rw [henv.measure, henv.log]
  simp

lemma MokStateVariable.shown_none :
    v.shown none = if v.has mokVariableInverse then .buf [1] else .null 0 := rfl

lemma MokStateVariable.shown_some (x : Variable) : v.shown (some x) =
      if v.has mokVariableInverse = false ∧ v.attributesOk x.attributes then .buf x.data
      else .null 0 := rfl

lemma MokStateVariable.shown_of_bad (h : v.bad o = true) : v.shown o = .null 0 := by
  cases o with
  | none => cases h
  | some x =>
    apply if_neg
    rintro ⟨-, hok⟩
    exact absurd h (by rw [bad, hok]; decide)

lemma MokStateVariable.shown_cases (hdata : ∀ x, o = some x → x.data ≠ []) :
    v.shown o = .null 0 ∨ (v.shown o).size ≠ 0 := by
  cases o with
  | none =>
    rw [shown_none]
    split
    · exact .inr Nat.one_ne_zero
    · exact .inl rfl
  | some x =>
    rw [shown_some]
    split
    · exact .inr fun h0 => hdata x rfl (List.length_eq_zero_iff.mp h0)
    · exact .inl rfl

lemma readOwn_shown (onlyFirst : Bool) (henv : env.Works) (hv : v.Single)
    (hnull : v.data = .null 0) (hdata : ∀ x, vars v.var = some x → x.data ≠ []) :
    ∃ d, readOwn env onlyFirst v vars = .ok (d, v.bad (vars v.var)) ∧
      (v.bad (vars v.var) = false → d = v.shown (vars v.var)) := by
  unfold readOwn ImportEnv.getVariableAttr
  rw [if_pos ⟨hnull, hv.configOnly⟩, henv.read, henv.alloc]
  cases hvar : vars v.var with
  | none =>
    refine ⟨v.shown none, ?_, fun _ => rfl⟩
    show (if v.has mokVariableInverse then _ else _) = _
    rw [shown_none]
    split
    · rfl
    · rfl
  | some x =>
    have hget : getVariable ((none : Option Failure).map Subtype.val) (some x) = .ok x :=
      if_neg (hdata x hvar)
    rw [hget]
    refine ⟨_, rfl, ?_⟩
    intro hok
    rw [bad, Bool.not_eq_false'] at hok
    rw [shown_some, hok]
    cases v.has mokVariableInverse with
    | false => rfl
    | true => rfl

lemma deleteBad_remains (h : v.bad (vars v.var) = true) :
    (deleteBad env onlyFirst v vars).2 v.var =
      v.remains (env.delete onlyFirst v.name) (vars v.var) := by
  unfold deleteBad deleteVariable remains
  cases hvar : vars v.var with
  | none =>
    rw [hvar] at h
    cases h
  | some x =>
    rw [hvar] at h
    rw [h]
    cases env.delete onlyFirst v.name with
    | none => exact Function.update_self _ _ _
    | some status => exact hvar

lemma importOneMokState_shown (onlyFirst : Bool) (henv : env.Works) (hv : v.Single)
    (hstate : v.state = some f) (hrt : ¬ v.rtname.toList <+: v.name.toList) (hnull : v.data = .null 0)
    (hdata : ∀ x, st.vars v.var = some x → x.data ≠ []) :
    (importOneMokState env onlyFirst v st).2.1.data = v.shown (st.vars v.var) ∧
      (importOneMokState env onlyFirst v st).2.2.flags f =
        (v.shown (st.vars v.var)).stateOver (st.flags f) ∧
      (importOneMokState env onlyFirst v st).2.2.vars v.var =
        v.remains (env.delete onlyFirst v.name) (st.vars v.var) := by
  obtain ⟨d, hread, hd⟩ := readOwn_shown onlyFirst henv hv hnull hdata
  rw [importOneMokState_of_read hv.configOnly hv.format, hread]
  dsimp only
  by_cases hbad : v.bad (st.vars v.var) = true
  · obtain ⟨hrow, hflag⟩ := maybeMirrorOneMokVariable_plain env onlyFirst
      (deleteBad env onlyFirst v st.vars).1
      { st with vars := (deleteBad env onlyFirst v st.vars).2 }
      (v := { v with data := .null 0 }) hv.keydb hstate (.inl rfl)
    rw [henv.kept] at hrow hflag
    rw [if_pos hbad, hrow, hflag, shown_of_bad hbad]
    refine ⟨rfl, rfl, ?_⟩
    exact (maybeMirrorOneMokVariable_vars (v := { v with data := .null 0 }) hrt).trans
      (deleteBad_remains hbad)
  · obtain ⟨hrow, hflag⟩ := maybeMirrorOneMokVariable_plain env onlyFirst .success st
      (v := { v with data := v.shown (st.vars v.var) }) hv.keydb hstate
      (shown_cases hdata)
    rw [henv.kept] at hrow hflag
    rw [if_neg hbad, hd (Bool.eq_false_of_not_eq_true hbad), hrow, hflag]
    refine ⟨rfl, rfl, ?_⟩
    unfold remains
    rw [if_neg fun h => hbad h.1]
    exact maybeMirrorOneMokVariable_vars (v := { v with data := v.shown (st.vars v.var) }) hrt

lemma importOneMokState_again (onlyFirst : Bool) (st : ImportState) (henv : env.Works)
    (hv : v.Single) (hstate : v.state = some f) (hdata : v.data.size ≠ 0) :
    (importOneMokState env onlyFirst v st).2.2.flags f = v.data.stateOver (st.flags f) := by
  have hne : v.data ≠ .null 0 := by
    intro h
    rw [h] at hdata
    exact hdata rfl
  obtain ⟨-, hflag⟩ := maybeMirrorOneMokVariable_plain env onlyFirst .success st
    hv.keydb hstate (.inr hdata)
  rw [importOneMokState_of_data hv.configOnly hv.format hne, hflag, henv.kept]

end

/-! ## One global -/

section

variable {env : ImportEnv} {v : MokStateVariable} {f : StateFlag}
  {before after : List MokStateVariable} {st : ImportState} {o : Option Variable}

def flagsAfterFirst (env : ImportEnv) (rows : List MokStateVariable) (st : ImportState) :
    StateFlag → UInt8 :=
  (importPass env true rows .success { st with flags := resetFlags st.flags }).2.2.flags

/-- The second walk changes a global only for a row without data that takes some from its variable.
-/
theorem importMokVariables_keeps_iff (henv : env.Works) (hv : v.Single) (hstate : v.state = some f)
    (hrt : ¬ v.rtname.toList <+: v.name.toList) (hnull : v.data = .null 0)
    (hdata : ∀ x, st.vars v.var = some x → x.data ≠ [])
    (hbefore : ∀ w ∈ before, w.Apart v.var f) (hafter : ∀ w ∈ after, w.Apart v.var f) :
    (importMokVariables env (before ++ v :: after) st).2.2.flags f =
        flagsAfterFirst env (before ++ v :: after) st f ↔
      (v.shown (st.vars v.var) = .null 0 →
        (v.shown (v.remains (env.delete true v.name) (st.vars v.var))).stateOver
          (resetFlags st.flags f) = resetFlags st.flags f) := by
  obtain ⟨mid, mid', d, hmidVars, hmidFlags, hd, hvars, hflags, hfirst, hend, -⟩ :=
    importMokVariables_row env hbefore hafter st
  rw [← hmidVars] at hdata ⊢
  obtain ⟨hdata1, hflag1, hvar1⟩ := importOneMokState_shown true henv hv hstate hrt hnull hdata
  rw [hdata1] at hd
  rw [hmidFlags] at hflag1
  unfold flagsAfterFirst
  rw [hfirst, hend, hflag1]
  by_cases hshown : v.shown (mid.vars v.var) = .null 0
  · have hrest : ∀ x, mid'.vars v.var = some x → x.data ≠ [] := by
      intro x hx
      rw [hvars, hvar1] at hx
      unfold remains at hx
      split at hx
      · cases hx
      · exact hdata x hx
    rw [show ({ v with data := d } : MokStateVariable) = v by rw [← hd, hshown, ← hnull]]
    rw [(importOneMokState_shown false henv hv hstate hrt hnull hrest).2.1, hflags,
      hflag1, hvars, hvar1, hshown]
    exact ⟨fun h _ => h, fun h => h rfl⟩
  · have hsize := (shown_cases hdata).resolve_left hshown
    have hagain := importOneMokState_again false mid'
      (v := { v with data := d }) henv ⟨hv.keydb, hv.configOnly, hv.format⟩ hstate (hd ▸ hsize)
    rw [hagain, hflags, hflag1, ← hd]
    exact ⟨fun _ h => absurd h hshown, fun _ => stateOver_twice _ _⟩

lemma MokStateVariable.shown_remains (hinverse : v.has mokVariableInverse = false)
    (fails : Option Failure) (h : v.shown o = .null 0) : v.shown (v.remains fails o) = .null 0 := by
  unfold remains
  split
  · exact if_neg (by rw [hinverse]; decide)
  · exact h

/-- Such an inverse row finds its variable deleted iff the attributes are bad and it can be deleted.
-/
theorem MokStateVariable.shown_remains_inverse (hinverse : v.has mokVariableInverse = true)
    (fails : Option Failure) :
    (v.shown o = .null 0 → (v.shown (v.remains fails o)).stateOver 0 = 0) ↔
      ∀ x, o = some x → v.attributesOk x.attributes = true ∨ fails ≠ none := by
  cases o with
  | none =>
    simp [shown_none, hinverse]
  | some x =>
    have hshown : ∀ y : Variable, v.shown (some y) = .null 0 := fun y =>
      if_neg fun h => by rw [hinverse] at h; exact Bool.noConfusion h.1
    have habsent : v.shown none = .buf [1] := if_pos hinverse
    unfold remains bad
    by_cases hok : v.attributesOk x.attributes = true
    · simp [hok, hshown, stateOver]
    · cases fails with
      | none => simp [hok, hshown, habsent, stateOver]
      | some status => simp [hok, hshown, stateOver]

end

/-! ## The four globals -/

def mokListTrustedRow : MokStateVariable :=
  ownVariable "MokListTrusted" "MokListTrustedRT"
    (mokMirrorDeleteFirst ||| mokVariableInverse ||| mokVariableLog) (some .trustMokList)

def stateRow : StateFlag → MokStateVariable
  | .userInsecureMode =>
    ownVariable "MokSBState" "MokSBStateRT"
      (mokMirrorDeleteFirst ||| mokVariableMeasure ||| mokVariableLog) (some .userInsecureMode)
  | .ignoreDb => ownVariable "MokDBState" "MokIgnoreDB" 0 (some .ignoreDb)
  | .trustMokList => mokListTrustedRow
  | .mokPolicy => mokPolicyRow

def stateIndex : StateFlag → ℕ
  | .userInsecureMode => 2
  | .ignoreDb => 3
  | .trustMokList => 5
  | .mokPolicy => 6

section

variable (devel : Bool) (f : StateFlag)

lemma mokStateVariableData_split :
    mokStateVariableData devel = (mokStateVariableData devel).take (stateIndex f) ++
      stateRow f :: (mokStateVariableData devel).drop (stateIndex f + 1) := by
  cases f <;> cases devel <;> rfl

lemma take_stateIndex_apart :
    ∀ w ∈ (mokStateVariableData devel).take (stateIndex f), w.Apart (stateRow f).var f := by
  cases f <;> cases devel <;> decide +kernel

lemma drop_stateIndex_apart :
    ∀ w ∈ (mokStateVariableData devel).drop (stateIndex f + 1), w.Apart (stateRow f).var f := by
  cases f <;> cases devel <;> decide +kernel

lemma stateRow_single : (stateRow f).Single := by
  cases f <;> exact ⟨by decide, by decide, rfl⟩

end

section

variable {env : ImportEnv} {st : ImportState}

lemma importMokVariables_keeps_stateRow (henv : env.Works) (devel : Bool) (f : StateFlag)
    (hdata : ∀ y x, st.vars y = some x → x.data ≠ []) :
    (importMokVariables env (mokStateVariableData devel) st).2.2.flags f =
        flagsAfterFirst env (mokStateVariableData devel) st f ↔
      ((stateRow f).shown (st.vars (stateRow f).var) = .null 0 →
        ((stateRow f).shown ((stateRow f).remains (env.delete true (stateRow f).name)
          (st.vars (stateRow f).var))).stateOver (resetFlags st.flags f) =
            resetFlags st.flags f) := by
  have hstate : (stateRow f).state = some f := by cases f <;> rfl
  have hnull : (stateRow f).data = .null 0 := by cases f <;> rfl
  have hrt : ¬ (stateRow f).rtname.toList <+: (stateRow f).name.toList := by
    cases f <;> decide
  rw [mokStateVariableData_split devel f]
  exact importMokVariables_keeps_iff henv (stateRow_single f) hstate hrt hnull
    (hdata (stateRow f).var) (take_stateIndex_apart devel f) (drop_stateIndex_apart devel f)

lemma importMokVariables_keeps_own (henv : env.Works) (devel : Bool) {f : StateFlag}
    (hf : f ≠ .trustMokList) (hdata : ∀ y x, st.vars y = some x → x.data ≠ []) :
    (importMokVariables env (mokStateVariableData devel) st).2.2.flags f =
      flagsAfterFirst env (mokStateVariableData devel) st f := by
  have hinverse : (stateRow f).has mokVariableInverse = false := by
    cases f with
    | trustMokList => exact absurd rfl hf
    | _ => decide
  apply (importMokVariables_keeps_stateRow henv devel f hdata).mpr
  intro hshown
  rw [shown_remains hinverse _ hshown]
  rfl

/-- With services that work, the second walk leaves every global as the first one has iff
`MokListTrusted` is not a variable with bad attributes that was deleted. -/
theorem importMokVariables_settled_iff (henv : env.Works) (devel : Bool)
    (hdata : ∀ y x, st.vars y = some x → x.data ≠ []) :
    (∀ f, (importMokVariables env (mokStateVariableData devel) st).2.2.flags f =
        flagsAfterFirst env (mokStateVariableData devel) st f) ↔
      ∀ x, st.vars mokListTrustedRow.var = some x →
        mokListTrustedRow.attributesOk x.attributes = true ∨
          env.delete true mokListTrustedRow.name ≠ none := by
  have hinverse : mokListTrustedRow.has mokVariableInverse = true := by decide
  have htrust := (importMokVariables_keeps_stateRow henv devel .trustMokList hdata).trans
    (shown_remains_inverse hinverse _)
  refine ⟨fun h => htrust.mp (h .trustMokList), ?_⟩
  intro h f
  by_cases hf : f = .trustMokList
  · rw [hf]
    exact htrust.mpr h
  · exact importMokVariables_keeps_own henv devel hf hdata

lemma workingImports_works : workingImports.Works :=
  ⟨fun _ _ => rfl, fun _ => rfl, fun _ => rfl, fun _ _ _ => rfl⟩

def trustedState (x : Variable) : ImportState where
  vars y := if y = mokListTrustedRow.var then some x else none
  flags _ := 0

lemma trustedState_vars (x : Variable) :
    (trustedState x).vars mokListTrustedRow.var = some x := by
  show (if mokListTrustedRow.var = mokListTrustedRow.var then some x else none) = some x
  exact if_pos rfl

lemma trustedState_ne_nil {x : Variable} (hx : x.data ≠ []) :
    ∀ y z, (trustedState x).vars y = some z → z.data ≠ [] := by
  intro y z h
  by_cases hy : y = mokListTrustedRow.var
  · rw [hy, trustedState_vars] at h
    rw [← Option.some.inj h]
    exact hx
  · have hnone : (trustedState x).vars y = none := if_neg hy
    rw [hnone] at h
    cases h

/-- `MokListTrusted` with runtime access: the first walk deletes it, and the second one sets
`trust_mok_list`. -/
theorem importMokVariables_trusts_deleted :
    flagsAfterFirst workingImports (mokStateVariableData false) (trustedState ⟨[1], 7⟩) .trustMokList =
        0 ∧
      (importMokVariables workingImports (mokStateVariableData false)
        (trustedState ⟨[1], 7⟩)).2.2.flags .trustMokList = 1 := by
  decide +kernel

theorem importMokVariables_settled_trusted :
    (∀ y z, (trustedState ⟨[1], 3⟩).vars y = some z → z.data ≠ []) ∧ workingImports.Works ∧
      ∀ f, (importMokVariables workingImports (mokStateVariableData false)
          (trustedState ⟨[1], 3⟩)).2.2.flags f =
        flagsAfterFirst workingImports (mokStateVariableData false) (trustedState ⟨[1], 3⟩) f := by
  have hdata := trustedState_ne_nil (x := ⟨[1], 3⟩) (by decide)
  refine ⟨hdata, workingImports_works, ?_⟩
  apply (importMokVariables_settled_iff workingImports_works false hdata).mpr
  intro x hx
  rw [trustedState_vars] at hx
  rw [← Option.some.inj hx]
  exact .inl (by decide)

end

end Shim.Mok
