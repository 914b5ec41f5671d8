import Shim.Boot

/-!
# The full data of a key database, in both walks

`mirror_one_mok_variable` puts the vendor's addend, the build certificate and the user's certificates
in front of the data of a key database, and stores the result in the row, as its data. The second walk
over the table starts from the row as the first one leaves it.
-/

namespace Shim.Mok

open Lib List ImportEnv VarData
open Sbat (Variable getVariable)

/-! ## What is assembled -/

/-- The `FullData` of a row, if there is one. -/
def assembled (env : ImportEnv) (onlyFirst : Bool) (v : MokStateVariable) : Option VarData :=
  (fullData env onlyFirst v).toOption.map Prod.fst

def fullDataLog (env : ImportEnv) (onlyFirst : Bool) :
    List MokStateVariable → ImportState → List (VarName × VarData)
  | [], _ => []
  | v :: rows, st =>
    ((handedOn env onlyFirst v st.vars).toOption.bind fun row =>
        assembled env onlyFirst row.1).toList.map (v.var, ·) ++
      fullDataLog env onlyFirst rows (importOneMokState env onlyFirst v st).2.2

def firstWalk (env : ImportEnv) (rows : List MokStateVariable) (st : ImportState) :
    EfiStatus × List MokStateVariable × ImportState :=
  importPass env true rows .success { st with flags := resetFlags st.flags }

def fullDataFirst (env : ImportEnv) (rows : List MokStateVariable) (st : ImportState) :
    List (VarName × VarData) :=
  fullDataLog env true rows { st with flags := resetFlags st.flags }

def fullDataSecond (env : ImportEnv) (rows : List MokStateVariable) (st : ImportState) :
    List (VarName × VarData) :=
  fullDataLog env false (firstWalk env rows st).2.1 (firstWalk env rows st).2.2

section

variable {env : ImportEnv} {onlyFirst : Bool} {v : MokStateVariable} {x : VarName}
  {vars : VarStore} {st : ImportState} {before after : List MokStateVariable}

lemma handedOn_own (env : ImportEnv) (onlyFirst : Bool) (hv : v.Own) (vars : VarStore) :
    ∃ delete, handedOn env onlyFirst v vars =
      .ok ({ v with data := env.offered onlyFirst v vars }, delete) := by
  have hdata := fun d => formatRow_readConfig env onlyFirst hv.configOnly hv.format d vars
  unfold handedOn offered
  by_cases hnull : v.data = .null 0
  · obtain ⟨d, hread, hd⟩ := readOwn_null hv hnull vars
    refine ⟨env.rejects onlyFirst v vars, ?_⟩
    rw [hread, if_pos hnull]
    dsimp only
    rw [hdata]
    dsimp only
    by_cases hrejects : env.rejects onlyFirst v vars = true
    · rw [if_pos hrejects, accepted_of_rejects hrejects]
    · rw [if_neg hrejects, hd (Bool.eq_false_of_not_eq_true hrejects)]
  · have hread : readOwn env onlyFirst v vars = .ok (v.data, false) := if_neg fun h => hnull h.1
    refine ⟨false, ?_⟩
    rw [hread, if_neg hnull]
    dsimp only
    rw [hdata]
    rfl

lemma fullDataLog_append (ret : EfiStatus) : fullDataLog env onlyFirst (before ++ after) st =
      fullDataLog env onlyFirst before st ++
        fullDataLog env onlyFirst after (importPass env onlyFirst before ret st).2.2 := by
  induction before generalizing ret st with
  | nil => rfl
  | cons w before ih =>
    rw [cons_append, fullDataLog, fullDataLog, append_assoc, ih]
    rfl

lemma not_mem_fullDataLog {rows : List MokStateVariable} (h : ∀ w ∈ rows, w.Foreign x)
    (full : VarData) : (x, full) ∉ fullDataLog env onlyFirst rows st := by
  induction rows generalizing st with
  | nil => exact not_mem_nil
  | cons w rows ih =>
    obtain ⟨hw, hrest⟩ := forall_mem_cons.mp h
    rw [fullDataLog, mem_append, not_or]
    refine ⟨fun hmem => ?_, ih hrest⟩
    obtain ⟨_, -, heq⟩ := mem_map.mp hmem
    exact hw.1 (congrArg Prod.fst heq)

/-- If only `v` is about its variable, what a walk assembles for the variable is that of the row. -/
theorem mem_fullDataLog (hv : v.Own) (hbefore : ∀ w ∈ before, w.Foreign v.var)
    (hafter : ∀ w ∈ after, w.Foreign v.var) (full : VarData) :
    (v.var, full) ∈ fullDataLog env onlyFirst (before ++ v :: after) st ↔
      assembled env onlyFirst { v with data := env.offered onlyFirst v st.vars } = some full := by
  have hmid : env.offered onlyFirst v (importPass env onlyFirst before .success st).2.2.vars =
      env.offered onlyFirst v st.vars := by
    unfold offered
    rw [accepted_congr (importPass_vars env onlyFirst hbefore .success st)]
  obtain ⟨delete, hrow⟩ := handedOn_own env onlyFirst hv
    (importPass env onlyFirst before .success st).2.2.vars
  rw [fullDataLog_append .success, fullDataLog, mem_append, mem_append, hrow, hmid]
  constructor
  · rintro (hmem | hmem | hmem)
    · exact absurd hmem (not_mem_fullDataLog hbefore full)
    · obtain ⟨full', hfull', heq⟩ := mem_map.mp hmem
      obtain rfl : full' = full := congrArg Prod.snd heq
      exact Option.mem_toList.mp hfull'
    · exact absurd hmem (not_mem_fullDataLog hafter full)
  · intro hfull
    exact .inr (.inl (mem_map.mpr ⟨full, Option.mem_toList.mpr hfull, rfl⟩))

lemma importPass_split (env : ImportEnv) (onlyFirst : Bool)
    (hbefore : ∀ w ∈ before, w.Foreign v.var) (hafter : ∀ w ∈ after, w.Foreign v.var)
    (ret : EfiStatus) (st : ImportState) :
    ∃ (mid : ImportState) (before' after' : List MokStateVariable),
      mid.vars v.var = st.vars v.var ∧ (∀ w ∈ before', w.Foreign v.var) ∧
        (∀ w ∈ after', w.Foreign v.var) ∧
        (importPass env onlyFirst (before ++ v :: after) ret st).2.1 =
          before' ++ (importOneMokState env onlyFirst v mid).2.1 :: after' ∧
        (importPass env onlyFirst (before ++ v :: after) ret st).2.2.vars v.var =
          (importOneMokState env onlyFirst v mid).2.2.vars v.var := by
  have hforeign : ∀ (w : MokStateVariable) (d : VarData), w.Foreign v.var →
      MokStateVariable.Foreign { w with data := d } v.var := fun _ _ hw => hw
  rw [importPass_append]
  exact ⟨_, _, _, importPass_vars env onlyFirst hbefore ret st,
    importPass_rows env onlyFirst hforeign hbefore ret st,
    importPass_rows env onlyFirst hforeign hafter _ _, rfl,
    importPass_vars env onlyFirst hafter _ _⟩

end

section

variable {env : ImportEnv} {onlyFirst : Bool} {v left : MokStateVariable} {vars : VarStore}
  {st : ImportState} {keyData : List UInt8} {full : VarData}

lemma importOneMokState_kept (hv : v.Own) (hnull : v.data = .null 0)
    (hkey : env.keyData v = .ok keyData)
    (hfull : assembleFull env onlyFirst { v with data := env.accepted onlyFirst v st.vars } keyData =
      .ok (full, left)) (hsize : full.size ≠ 0) :
    (importOneMokState env onlyFirst v st).2.1 =
      { v with data := if env.recorded onlyFirst v then full else left.data } := by
  have hrow : ∀ (ret : EfiStatus) (st' : ImportState),
      (maybeMirrorOneMokVariable env onlyFirst { v with data := env.accepted onlyFirst v st.vars } ret
        st').2.1 = { v with data := if env.recorded onlyFirst v then full else left.data } := by
    intro ret st'
    obtain ⟨d, hd⟩ := maybeMirrorOneMokVariable_row env onlyFirst
      { v with data := env.accepted onlyFirst v st.vars } ret st'
    have hdata : d = if env.recorded onlyFirst v then full else left.data := by
      exact (congrArg MokStateVariable.data hd).symm.trans (mirrorOneMokVariable_kept
        (v := { v with data := env.accepted onlyFirst v st.vars }) hkey hfull hsize)
    rw [hd, hdata]
  rw [importOneMokState_null hv hnull]
  by_cases hrejects : env.rejects onlyFirst v st.vars = true
  · have hsame : { v with data := env.accepted onlyFirst v st.vars } = v := by
      rw [accepted_of_rejects hrejects, ← hnull]
    rw [hsame] at hrow
    rw [if_pos hrejects]
    exact hrow _ _
  · rw [if_neg hrejects]
    exact hrow _ _

/-- A second read finds what the first one has found, if the firmware gives the same answer. -/
theorem accepted_again (hv : v.Own) (hnull : v.data = .null 0)
    (hrt : ¬ v.rtname.toList <+: v.name.toList) (hread : env.read true v.name = env.read false v.name)
    (hvars : vars v.var = (importOneMokState env true v st).2.2.vars v.var) :
    env.accepted false v vars = env.accepted true v st.vars := by
  have hanswer : ∀ vars, env.accepted false v vars = env.accepted true v vars := by
    intro vars
    unfold accepted getVariableAttr
    rw [hread]
  have hkept : ∀ (w : MokStateVariable) ret st', w.rtname = v.rtname →
      (maybeMirrorOneMokVariable env true w ret st').2.2.vars v.var = st'.vars v.var := by
    intro w ret st' hw
    exact maybeMirrorOneMokVariable_vars (hw ▸ hrt)
  rw [hanswer]
  by_cases hrejects : env.rejects true v st.vars = true
  · have hcases : vars v.var = none ∨ vars v.var = st.vars v.var := by
      rw [hvars, importOneMokState_null hv hnull, if_pos hrejects, hkept v _ _ rfl]
      unfold deleteBad deleteVariable
      cases env.delete true v.name with
      | some status => exact .inr rfl
      | none =>
        cases hvar : st.vars v.var with
        | none => exact .inl hvar
        | some y => exact .inl (Function.update_self _ _ _)
    rcases hcases with hgone | hsame
    · rw [accepted_of_none hgone, accepted_of_rejects hrejects]
    · exact accepted_congr hsame
  · apply accepted_congr
    rw [hvars, importOneMokState_null hv hnull, if_neg hrejects]
    exact hkept _ _ _ rfl

end

/-! ## Both walks -/

section

variable {env : ImportEnv} {onlyFirst devel : Bool} {v left : MokStateVariable}
  {st : ImportState} {keyData : List UInt8} {d full : VarData}

lemma assembled_eq_some : assembled env onlyFirst v = some full ↔
      ∃ keyData left, env.keyData v = .ok keyData ∧
        assembleFull env onlyFirst v keyData = .ok (full, left) := by
  unfold assembled fullData
  cases env.keyData v with
  | error status => simp [bind, Except.bind, Except.toOption]
  | ok keyData =>
    cases hfull : assembleFull env onlyFirst v keyData with
    | error status => simp [hfull, Except.toOption]
    | ok p => simp [hfull, Except.toOption, Prod.ext_iff]

lemma dummyEntry_eq : ∃ dummy, dummyEntry = .ok dummy ∧ dummy ≠ [] := by
  refine ⟨_, rfl, ?_⟩
  decide +kernel

lemma assembleFull_added (hkey : keyData ≠ []) :
    assembleFull env onlyFirst v keyData = .ok (full, left) ↔
      env.allocatesFull onlyFirst v = true ∧ full = .buf (keyData ++ v.data.bytes) ∧ left = v := by
  unfold assembleFull
  rw [if_pos hkey]
  by_cases halloc : env.allocatesFull onlyFirst v = true
  · simp [halloc, eq_comm]
  · simp [halloc]

lemma assembleFull_nothing (hkeydb : v.has mokMirrorKeydb = true)
    (h : assembleFull env onlyFirst v [] = .ok (full, left)) :
    full.size ≠ 0 ∧ (v.data.size ≠ 0 ∧ full = v.data ∧ left.data = .null 0 ∨
      v.data.size = 0 ∧ dummyEntry.map buf = .ok full ∧ left = v) := by
  unfold assembleFull at h
  rw [if_neg (not_not.mpr rfl)] at h
  by_cases hsize : v.data.size ≠ 0
  · rw [if_pos hsize] at h
    obtain ⟨rfl, rfl⟩ := Prod.mk.inj (Except.ok.inj h)
    exact ⟨hsize, .inl ⟨hsize, rfl, rfl⟩⟩
  rw [if_neg hsize, if_pos hkeydb] at h
  split_ifs at h
  obtain ⟨dummy, hdummy, hne⟩ := dummyEntry_eq
  rw [hdummy] at h ⊢
  obtain ⟨rfl, rfl⟩ := Prod.mk.inj (Except.ok.inj h)
  exact ⟨fun hzero => hne (length_eq_zero_iff.mp hzero), .inr ⟨not_not.mp hsize, rfl, rfl⟩⟩

lemma VarData.size_append_ne_zero {bytes : List UInt8} (hkey : keyData ≠ []) :
    (buf (keyData ++ bytes)).size ≠ 0 := fun hzero =>
  hkey (append_eq_nil_iff.mp (length_eq_zero_iff.mp hzero)).1

lemma assembleFull_again {next full' : VarData} {left' : MokStateVariable}
    (hkeydb : v.has mokMirrorKeydb = true) (hd : d = .null 0 ∨ d.size ≠ 0)
    (hfirst : assembleFull env true { v with data := d } [] = .ok (full, left))
    (hnext : full.size ≠ 0 → next = full ∨ next = left.data)
    (hsecond : assembleFull env false { v with data := if next = .null 0 then d else next } [] =
      .ok (full', left')) : full' = full := by
  obtain ⟨hsize, hcases⟩ := assembleFull_nothing (v := { v with data := d }) hkeydb hfirst
  obtain ⟨hsize', hcases'⟩ := assembleFull_nothing
    (v := { v with data := if next = .null 0 then d else next }) hkeydb hsecond
  have hfullne : full ≠ .null 0 := by
    rintro rfl
    exact hsize rfl
  rcases hcases with ⟨hdsize, rfl, hleft⟩ | ⟨hdsize, hdummy, rfl⟩
  · have hdata : (if next = .null 0 then full else next) = full := by
      rcases hnext hsize with rfl | hlost
      · exact ite_self _
      · exact if_pos (hlost.trans hleft)
    dsimp only at hcases'
    rw [hdata] at hcases'
    exact (hcases'.resolve_right fun h => hdsize h.1).2.1
  · have hnull : d = .null 0 := hd.resolve_right fun h => h hdsize
    rcases hcases' with ⟨hsize', rfl, -⟩ | ⟨-, hdummy', -⟩
    · dsimp only at hsize' ⊢
      rcases hnext hsize with rfl | hlost
      · exact if_neg hfullne
      · rw [if_pos (hlost.trans hnull)] at hsize'
        exact absurd hdsize hsize'
    · exact Except.ok.inj (hdummy'.symm.trans hdummy)

/-- The next walk assembles the full data of the first one, or the data again if its record has
failed. -/
theorem fullData_again (hkeydb : v.has mokMirrorKeydb = true) (hd : d = .null 0 ∨ d.size ≠ 0)
    {next : VarData}
    (hnext : ∀ keyData full left, env.keyData v = .ok keyData →
      assembleFull env true { v with data := d } keyData = .ok (full, left) → full.size ≠ 0 →
      next = if env.recorded true v then full else left.data) :
    (∀ full full', assembled env true { v with data := d } = some full →
      assembled env false { v with data := if next = .null 0 then d else next } = some full' →
      full' = full) ↔
      ∀ keyData, env.keyData v = .ok keyData → keyData ≠ [] → env.recorded true v = true →
        env.allocatesFull true v = true → env.allocatesFull false v = false := by
  constructor
  · intro h keyData hkey hne hrecorded halloc
    by_contra halloc'
    rw [Bool.not_eq_false] at halloc'
    have hfirst : assembleFull env true { v with data := d } keyData =
        .ok (.buf (keyData ++ d.bytes), { v with data := d }) :=
      (assembleFull_added hne).mpr ⟨halloc, rfl, rfl⟩
    have hkept := hnext keyData _ _ hkey hfirst (size_append_ne_zero hne)
    rw [if_pos hrecorded] at hkept
    have hsecond : assembleFull env false
        { v with data := if next = .null 0 then d else next } keyData =
        .ok (.buf (keyData ++ (keyData ++ d.bytes)),
          { v with data := if next = .null 0 then d else next }) := by
      refine (assembleFull_added hne).mpr ⟨halloc', ?_, rfl⟩
      rw [hkept, if_neg (by simp)]
      rfl
    have hsame := h _ _ (assembled_eq_some.mpr ⟨keyData, _, hkey, hfirst⟩)
      (assembled_eq_some.mpr ⟨keyData, _, hkey, hsecond⟩)
    have hlength := congrArg VarData.size hsame
    simp only [VarData.size, length_append] at hlength
    exact hne (length_eq_zero_iff.mp (by omega))
  · intro hcond full full' hfull hfull'
    obtain ⟨keyData, left, hkey, hfirst⟩ := assembled_eq_some.mp hfull
    obtain ⟨keyData', left', hkey', hsecond⟩ := assembled_eq_some.mp hfull'
    replace hkey : env.keyData v = .ok keyData := hkey
    obtain rfl : keyData = keyData' := Except.ok.inj (hkey.symm.trans hkey')
    have hkept := hnext keyData full left hkey hfirst
    by_cases hne : keyData = []
    · subst hne
      refine assembleFull_again hkeydb hd hfirst (fun hsize => ?_) hsecond
      rw [hkept hsize]
      split_ifs
      · exact .inl rfl
      · exact .inr rfl
    · obtain ⟨halloc, rfl, rfl⟩ := (assembleFull_added hne).mp hfirst
      obtain ⟨halloc', rfl, -⟩ := (assembleFull_added hne).mp hsecond
      have hfails : ¬ env.recorded true v = true := by
        intro hrecorded
        have := hcond keyData hkey hne hrecorded halloc
        rw [show env.allocatesFull false v = true from halloc'] at this
        cases this
      have hlost : next = d := (hkept (size_append_ne_zero hne)).trans (if_neg hfails)
      dsimp only
      rw [hlost, ite_self]

/-- The rows of the key databases: what is mirrored is what their variables say, and no other row is
about these. -/
theorem mokStateVariableData_keydb (hv : v ∈ mokStateVariableData devel)
    (hkeydb : v.has mokMirrorKeydb = true) :
    v.Own ∧ v.data = .null 0 ∧ (¬ v.rtname.toList <+: v.name.toList) ∧
      ∃ before after, mokStateVariableData devel = before ++ v :: after ∧
        (∀ w ∈ before, w.Foreign v.var) ∧ ∀ w ∈ after, w.Foreign v.var := by
  have hothers :
      ((mokStateVariableData devel).drop 2).all (fun w => !w.has mokMirrorKeydb) = true := by
    cases devel <;> decide +kernel
  have hforeign : ((mokStateVariableData devel).drop 2).all (fun w =>
      decide (w.Foreign mokListRow.var ∧ w.Foreign mokListXRow.var)) = true := by
    cases devel <;> decide +kernel
  have hdrop : ∀ w ∈ (mokStateVariableData devel).drop 2,
      w.Foreign mokListRow.var ∧ w.Foreign mokListXRow.var :=
    fun w hw => of_decide_eq_true (all_eq_true.mp hforeign w hw)
  have htable : mokStateVariableData devel =
      mokListRow :: mokListXRow :: (mokStateVariableData devel).drop 2 := rfl
  rw [htable] at hv
  rcases mem_cons.mp hv with rfl | hv
  · refine ⟨⟨by decide, by decide, rfl⟩, rfl, by decide +kernel, [], _, htable, by simp, ?_⟩
    exact forall_mem_cons.mpr ⟨by decide +kernel, fun w hw => (hdrop w hw).1⟩
  rcases mem_cons.mp hv with rfl | hv
  · refine ⟨⟨by decide, by decide, rfl⟩, rfl, by decide +kernel, [mokListRow], _, htable, ?_, ?_⟩
    · exact forall_mem_singleton.mpr (by decide +kernel)
    · exact fun w hw => (hdrop w hw).2
  · have hnot := all_eq_true.mp hothers v hv
    rw [hkeydb] at hnot
    cases hnot

/-- For every key database: the second walk assembles what the first one has, if both reads are
answered alike, iff there is nothing to add, or the log entry of the first walk has failed, or one
of the walks has no memory for it. -/
theorem fullData_twice_iff (hv : v ∈ mokStateVariableData devel)
    (hkeydb : v.has mokMirrorKeydb = true) (hread : env.read true v.name = env.read false v.name)
    (st : ImportState) :
    (∀ full full', (v.var, full) ∈ fullDataFirst env (mokStateVariableData devel) st →
      (v.var, full') ∈ fullDataSecond env (mokStateVariableData devel) st → full' = full) ↔
      ∀ keyData, env.keyData v = .ok keyData → keyData ≠ [] → env.recorded true v = true →
        env.allocatesFull true v = true → env.allocatesFull false v = false := by
  obtain ⟨hown, hnull, hrt, before, after, htable, hbefore, hafter⟩ :=
    mokStateVariableData_keydb hv hkeydb
  obtain ⟨mid, before', after', hmid, hbefore', hafter', hrows, hvars⟩ :=
    importPass_split env true hbefore hafter .success { st with flags := resetFlags st.flags }
  obtain ⟨next, hnext⟩ := importOneMokState_row env true v mid
  have hmidAccepted : env.accepted true v mid.vars = env.accepted true v st.vars :=
    accepted_congr hmid
  have hfirst : ∀ full, (v.var, full) ∈ fullDataFirst env (mokStateVariableData devel) st ↔
      assembled env true { v with data := env.accepted true v st.vars } = some full := by
    intro full
    unfold fullDataFirst
    rw [htable, mem_fullDataLog hown hbefore hafter]
    unfold offered
    rw [if_pos hnull]
  have hsecond : ∀ full, (v.var, full) ∈ fullDataSecond env (mokStateVariableData devel) st ↔
      assembled env false
        { v with data := if next = .null 0 then env.accepted true v st.vars else next } =
        some full := by
    intro full
    have hagain := accepted_again hown hnull hrt hread hvars
    have hown' : MokStateVariable.Own { v with data := next } :=
      ⟨hown.configOnly, hown.inverse, hown.format⟩
    unfold fullDataSecond firstWalk
    rw [htable, hrows, hnext]
    refine (mem_fullDataLog hown' hbefore' hafter' full).trans ?_
    rw [← hmidAccepted, ← hagain]
    rfl
  simp only [hfirst, hsecond]
  refine fullData_again hkeydb (accepted_cases env true v st.vars) ?_
  intro keyData full left hkey hfull hsize
  rw [← hmidAccepted] at hfull
  exact congrArg MokStateVariable.data
    (hnext.symm.trans (importOneMokState_kept hown hnull hkey hfull hsize))

end

def vendorImports : ImportEnv :=
  { workingImports with
    vendorAuthorized := [0x30, 0x03, 0x02, 0x01, 0x00]
    vendorAuthorizedCategory := .x509 }

def noVariables : ImportState := ⟨fun _ => none, fun _ => 0⟩

/-- The certificate of the vendor is assembled into `MokListRT` once in the first walk, and twice in
the second one. -/
theorem fullData_twice_vendor :
    ∃ cert, fillEslWithOneSignature Verify.certTypeX509Guid vendorImports.vendorAuthorized = .ok cert ∧
      (mokListRow.var, .buf cert) ∈
        fullDataFirst vendorImports (mokStateVariableData false) noVariables ∧
      (mokListRow.var, .buf (cert ++ cert)) ∈
        fullDataSecond vendorImports (mokStateVariableData false) noVariables := by
  refine ⟨_, rfl, ?_, ?_⟩
  · decide +kernel
  · decide +kernel

theorem fullData_twice_none : mokListRow ∈ mokStateVariableData false ∧ ∀ st full full',
      (mokListRow.var, full) ∈ fullDataFirst workingImports (mokStateVariableData false) st →
      (mokListRow.var, full') ∈ fullDataSecond workingImports (mokStateVariableData false) st →
      full' = full := by
  have hrow : mokListRow ∈ mokStateVariableData false := mem_cons_self
  refine ⟨hrow, fun st => ?_⟩
  refine (fullData_twice_iff hrow (by decide) rfl st).mpr ?_
  intro keyData hkey hne
  exact absurd (Except.ok.inj hkey).symm hne

end Shim.Mok
