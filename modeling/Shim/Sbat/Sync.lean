import Shim.Sbat.Level

/-!
# `SbatLevel` and the list that is in force

Images are checked against the list `sbat_var`, which is meant to be the content of `SbatLevel`.
`set_sbat_uefi_variable` changes both, in separate steps: the candidate is parsed into the list, shim
is checked against it, the variable is deleted, written and read back.
-/

namespace Shim.Sbat

open Lib Pe

def storedEntries (level : Option Variable) : Except EfiStatus (List VarEntry) := do
  let v ← getVariable none level
  parseSbatVarData .working (Mem.ofBytes v.data) (v.data.length + 1)

def Synced (st : SbatState) : Prop := storedEntries st.level = .ok st.sbatVar

structure Services.AreErrors (s : Services) : Prop where
  deleteLevel : s.deleteLevel ≠ some .success
  writeLevel : s.writeLevel ≠ some .success
  rereadLevel : s.rereadLevel ≠ some .success

/-- What a call promises: an error leaves the variable alone, and variable and list are in step. -/
def KeepsStep (st : SbatState) (r : EfiStatus × SbatState) : Prop :=
  (r.1 ≠ .success → r.2.level = st.level) ∧ Synced r.2

variable {env : LevelEnv} {st : SbatState} {v : Variable} {automatic latest candidate : List UInt8}
  {entries : List VarEntry}

lemma Synced.exists_variable (h : Synced st) : ∃ v, st.level = some v ∧ v.data ≠ [] := by
  unfold Synced storedEntries at h
  rw [bind_eq_ok] at h
  obtain ⟨v, hget, -⟩ := h
  unfold getVariable at hget
  cases hlevel : st.level with
  | none =>
    rw [hlevel] at hget
    cases hget
  | some u =>
    refine ⟨u, rfl, fun hempty => ?_⟩
    rw [hlevel] at hget
    simp [hempty] at hget

lemma storedEntries_empty {attributes : ℕ} :
    storedEntries (some ⟨[], attributes⟩) ≠ .ok entries := by
  intro h
  cases h

@[simp] lemma readPolicy_sbatVar (s : Services) (st : SbatState) :
    (readPolicy s st).2.sbatVar = st.sbatVar := by
  unfold readPolicy
  split_ifs
  · cases getVariable s.readPolicy st.policy <;> rfl
  · rfl

def newLevel (env : LevelEnv) (candidate : List UInt8) : Variable :=
  ⟨candidate, sbatVarAttrs env.devel⟩

lemma writeLevel_of_fails {status : EfiStatus} (hstatus : env.services.writeLevel = some status)
    (herror : status ≠ .success) : writeLevel env candidate st = (status, st) := by
  unfold writeLevel
  simp only [hstatus, setVariable]
  rw [if_pos herror]

lemma writeLevel_of_empty (st : SbatState) (hwrite : env.services.writeLevel = none)
    (herrors : env.services.AreErrors) :
    (writeLevel env [] st).1 ≠ .success ∧ (writeLevel env [] st).2.level = none := by
  unfold writeLevel
  simp only [hwrite, setVariable, if_true, ne_eq, not_true_eq_false, if_false]
  cases hreread : env.services.rereadLevel with
  | none => exact ⟨by simp [getVariable], by simp [getVariable]⟩
  | some status =>
    refine ⟨?_, by simp [getVariable]⟩
    simp only [getVariable]
    rintro rfl
    exact herrors.rereadLevel hreread

lemma writeLevel_of_writes (hwrite : env.services.writeLevel = none) (hne : candidate ≠ []) :
    writeLevel env candidate st = ((env.services.rereadLevel.getD .success),
        { st with level := some (newLevel env candidate) }) := by
  have hsame : (Mem.ofBytes candidate).strncmp 0 (Mem.ofBytes candidate) 0 candidate.length = 0 :=
    Mem.strncmp_eq_zero rfl
  unfold writeLevel newLevel
  simp only [hwrite, setVariable, if_neg hne, ne_eq, not_true_eq_false, if_false]
  cases hreread : env.services.rereadLevel with
  | none => simp [getVariable, hne, hsame]
  | some status => simp [getVariable]

lemma writeLevel_atomic_iff {st₀ : SbatState} (herrors : env.services.AreErrors)
    (hlevel : st₀.level = some v) (hv : v.data ≠ []) :
    KeepsStep st₀ (writeLevel env candidate st) ↔
      if env.services.writeLevel ≠ none then st.level = some v ∧ Synced st
      else if env.services.rereadLevel = none then
        storedEntries (some (newLevel env candidate)) = .ok st.sbatVar
      else newLevel env candidate = v ∧ storedEntries (some v) = .ok st.sbatVar := by
  unfold KeepsStep
  rw [hlevel]
  cases hwrite : env.services.writeLevel with
  | some status =>
    have herror : status ≠ .success := by
      rintro rfl
      exact herrors.writeLevel hwrite
    rw [writeLevel_of_fails hwrite herror, if_pos (by simp)]
    exact ⟨fun h => ⟨h.1 herror, h.2⟩, fun h => ⟨fun _ => h.1, h.2⟩⟩
  | none =>
    rw [if_neg (by simp)]
    by_cases hempty : candidate = []
    · subst hempty
      obtain ⟨hstatus, hgone⟩ := writeLevel_of_empty st hwrite herrors
      refine iff_of_false (fun h => ?_) ?_
      · have hkept := h.1 hstatus
        rw [hgone] at hkept
        cases hkept
      · split_ifs
        · exact storedEntries_empty
        · rintro ⟨rfl, -⟩
          exact hv rfl
    · rw [writeLevel_of_writes hwrite hempty]
      unfold Synced
      cases hreread : env.services.rereadLevel with
      | none => simp
      | some status =>
        have herror : status ≠ .success := by
          rintro rfl
          exact herrors.rereadLevel hreread
        rw [if_neg (by simp)]
        simp only [Option.getD_some, Option.some.injEq]
        constructor
        · rintro ⟨hkept, hsync⟩
          have hnew := hkept herror
          rw [hnew] at hsync
          exact ⟨hnew, hsync⟩
        · rintro ⟨hnew, hsync⟩
          rw [hnew]
          exact ⟨fun _ => rfl, hsync⟩

/-! ## A call -/

def callCandidate (env : LevelEnv) (automatic latest : List UInt8) (st : SbatState) :
    List UInt8 × Bool :=
  sbatVarCandidate env.secureMode (readPolicy env.services st).1 automatic latest

/-- The variable that a call writes, if it writes one. -/
abbrev calledLevel (env : LevelEnv) (automatic latest : List UInt8) (st : SbatState) :=
  newLevel env (callCandidate env automatic latest st).1

/-- The call leaves the variable as it is. -/
abbrev Kept (env : LevelEnv) (automatic latest : List UInt8) (st : SbatState) (v : Variable) : Prop :=
  (callCandidate env automatic latest st).2 = false ∧
    preserveSbatUefiVariable env.devel v (callCandidate env automatic latest st).1 = true

structure Replaces (env : LevelEnv) (automatic latest : List UInt8) (st : SbatState)
    (entries : List VarEntry) : Prop where
  read : env.services.readLevel = none
  differs : ∀ v, st.level = some v → ¬ Kept env automatic latest st v
  parse : parseSbatVar env.sbat.pool (callCandidate env automatic latest st).1 = .ok entries

/-- The outcomes of the services and of the self-check with which a call keeps variable and list in
step. -/
structure CallAtomic (env : LevelEnv) (automatic latest : List UInt8) (st : SbatState) : Prop where
  unread : env.services.readLevel ≠ none → env.services.writeLevel = none →
    st.level ≠ some (calledLevel env automatic latest st) →
      env.services.rereadLevel = none ∧
        storedEntries (some (calledLevel env automatic latest st)) = .ok st.sbatVar
  refused : ∀ entries, Replaces env automatic latest st entries →
    verifySbatSection env.sbat entries env.shimSbat ≠ .success ∨ env.services.deleteLevel ≠ none →
      entries = st.sbatVar
  replaced : ∀ entries, Replaces env automatic latest st entries →
    verifySbatSection env.sbat entries env.shimSbat = .success → env.services.deleteLevel = none →
      env.services.writeLevel = none ∧
      (env.services.rereadLevel = none →
        storedEntries (some (calledLevel env automatic latest st)) = .ok entries) ∧
      (env.services.rereadLevel ≠ none →
        st.level = some (calledLevel env automatic latest st) ∧ entries = st.sbatVar)

lemma setSbatUefiVariable_of_unread {status : EfiStatus}
    (hread : env.services.readLevel = some status) :
    setSbatUefiVariable env automatic latest st =
      writeLevel env (callCandidate env automatic latest st).1 (readPolicy env.services st).2 := by
  unfold setSbatUefiVariable callCandidate
  simp only [hread, getVariable]

lemma setSbatUefiVariable_of_kept (hread : env.services.readLevel = none)
    (hlevel : st.level = some v) (hv : v.data ≠ [])
    (hkept : Kept env automatic latest st v) :
    setSbatUefiVariable env automatic latest st = (.success, (readPolicy env.services st).2) := by
  unfold setSbatUefiVariable
  unfold Kept callCandidate at hkept
  simp only [hread, getVariable, readPolicy_level, hlevel, if_neg hv]
  rw [if_pos hkept]

lemma setSbatUefiVariable_of_not_kept (hread : env.services.readLevel = none)
    (hlevel : st.level = some v) (hv : v.data ≠ [])
    (hkept : ¬ Kept env automatic latest st v) :
    setSbatUefiVariable env automatic latest st =
      replaceLevel env v (callCandidate env automatic latest st).1
        (readPolicy env.services st).2 := by
  unfold setSbatUefiVariable
  unfold Kept callCandidate at hkept; unfold callCandidate
  simp only [hread, getVariable, readPolicy_level, hlevel, if_neg hv]
  rw [if_neg hkept]

lemma replaceLevel_atomic_iff {st₀ : SbatState} (herrors : env.services.AreErrors)
    (hlevel₀ : st₀.level = some v) (hsync : Synced st₀) (hv : v.data ≠ [])
    (hlevel : st.level = some v)
    (hparse : parseSbatVar env.sbat.pool candidate = .ok entries) :
    KeepsStep st₀ (replaceLevel env v candidate st) ↔
      if verifySbatSection env.sbat entries env.shimSbat ≠ .success ∨
          env.services.deleteLevel ≠ none then entries = st₀.sbatVar
      else env.services.writeLevel = none ∧ (env.services.rereadLevel = none →
          storedEntries (some (newLevel env candidate)) = .ok entries) ∧
        (env.services.rereadLevel ≠ none →
          st₀.level = some (newLevel env candidate) ∧ entries = st₀.sbatVar) := by
  have hold : storedEntries (some v) = .ok st₀.sbatVar := hlevel₀ ▸ hsync
  have hlive : ∀ entries', storedEntries (some v) = .ok entries' ↔ entries' = st₀.sbatVar := by
    intro entries'
    rw [hold, Except.ok.injEq]
    exact eq_comm
  unfold replaceLevel
  simp only [hparse]
  by_cases hself : verifySbatSection env.sbat entries env.shimSbat = .success
  · rw [if_neg (not_not.2 hself)]
    cases hdelete : env.services.deleteLevel with
    | some status =>
      have herror : status ≠ .success := by
        rintro rfl
        exact herrors.deleteLevel hdelete
      rw [if_pos (Or.inr (by simp))]
      simp only [setVariable, ne_eq, herror, not_false_eq_true, if_true]
      simp only [KeepsStep, Synced, hlevel, hlevel₀, hlive, implies_true, true_and]
    | none =>
      rw [if_neg (not_or.2 ⟨not_not.2 hself, by simp⟩)]
      simp only [setVariable, if_true, ne_eq, not_true_eq_false, if_false]
      rw [writeLevel_atomic_iff herrors hlevel₀ hv]
      by_cases hwrite : env.services.writeLevel = none
      · rw [if_neg (not_not.2 hwrite), hlive, hlevel₀]
        by_cases hreread : env.services.rereadLevel = none
        · simp [hwrite, hreread]
        · simp [hwrite, hreread, eq_comm]
      · rw [if_pos hwrite]
        exact iff_of_false (fun h => by cases h.1) (fun h => hwrite h.1)
  · rw [if_pos hself, if_pos (.inl hself)]
    simp only [KeepsStep, Synced, hlevel, hlevel₀, hlive, implies_true, true_and]

lemma Replaces.unique {entries' : List VarEntry}
    (h : Replaces env automatic latest st entries) (h' : Replaces env automatic latest st entries') :
    entries' = entries :=
  Except.ok.inj (h'.parse.symm.trans h.parse)

lemma callAtomic_of_not_replaces (hread : env.services.readLevel = none)
    (hnever : ∀ entries, ¬ Replaces env automatic latest st entries) :
    CallAtomic env automatic latest st :=
  ⟨fun h => absurd hread h, fun _ h => absurd h (hnever _), fun _ h => absurd h (hnever _)⟩

lemma callAtomic_iff_of_replaces (h : Replaces env automatic latest st entries) :
    CallAtomic env automatic latest st ↔
      if verifySbatSection env.sbat entries env.shimSbat ≠ .success ∨
          env.services.deleteLevel ≠ none then entries = st.sbatVar
      else env.services.writeLevel = none ∧ (env.services.rereadLevel = none →
          storedEntries (some (calledLevel env automatic latest st)) = .ok entries) ∧
        (env.services.rereadLevel ≠ none →
          st.level = some (calledLevel env automatic latest st) ∧ entries = st.sbatVar) := by
  constructor
  · intro hatomic
    split_ifs with hfail
    · exact hatomic.refused entries h hfail
    · obtain ⟨hself, hdelete⟩ := not_or.1 hfail
      exact hatomic.replaced entries h (not_not.1 hself) (not_not.1 hdelete)
  · intro hif
    refine ⟨fun hread => absurd h.read hread, fun entries' h' hfail => ?_,
      fun entries' h' hself hdelete => ?_⟩
    · rw [h.unique h'] at hfail ⊢
      rwa [if_pos hfail] at hif
    · rw [h.unique h'] at hself ⊢
      rwa [if_neg (not_or.2 ⟨not_not.2 hself, not_not.2 hdelete⟩)] at hif

lemma unread_atomic_iff {status : EfiStatus} (herrors : env.services.AreErrors)
    (hsync : Synced st) (hlevel : st.level = some v) (hv : v.data ≠ [])
    (hread : env.services.readLevel = some status) :
    KeepsStep st (setSbatUefiVariable env automatic latest st) ↔
      CallAtomic env automatic latest st := by
  have hstored : storedEntries (some v) = .ok st.sbatVar := hlevel ▸ hsync
  have hnever : ∀ entries, ¬ Replaces env automatic latest st entries := by
    intro entries h
    rw [h.read] at hread
    cases hread
  rw [setSbatUefiVariable_of_unread hread, writeLevel_atomic_iff herrors hlevel hv,
    readPolicy_sbatVar, readPolicy_level, hlevel]
  constructor
  · intro h
    refine ⟨fun _ hwrite hnew => ?_, fun _ h => absurd h (hnever _), fun _ h =>
      absurd h (hnever _)⟩
    rw [if_neg (not_not.2 hwrite)] at h
    split_ifs at h with hreread
    · exact ⟨hreread, h⟩
    · exact absurd (hlevel.trans (congrArg some h.1.symm)) hnew
  · intro h
    have hunread := h.unread (by rw [hread]; exact Option.some_ne_none _)
    by_cases hwrite : env.services.writeLevel = none
    · rw [if_neg (not_not.2 hwrite)]
      by_cases hnew : newLevel env (callCandidate env automatic latest st).1 = v
      · rw [hnew]
        split_ifs
        · exact hstored
        · exact ⟨rfl, hstored⟩
      · obtain ⟨hreread, hstored'⟩ := hunread hwrite fun h =>
          hnew (Option.some.inj (hlevel.symm.trans h)).symm
        rwa [if_pos hreread]
    · rw [if_pos hwrite]
      refine ⟨rfl, ?_⟩
      unfold Synced
      rw [readPolicy_level, readPolicy_sbatVar]
      exact hsync

/-- A call keeps the list in step with the variable, which is untouched when it fails, exactly for
the outcomes of `CallAtomic`. -/
theorem setSbatUefiVariable_atomic_iff (env : LevelEnv) (automatic latest : List UInt8)
    (st : SbatState) (hsync : Synced st) (herrors : env.services.AreErrors) :
    (((setSbatUefiVariable env automatic latest st).1 ≠ .success →
        (setSbatUefiVariable env automatic latest st).2.level = st.level) ∧
      Synced (setSbatUefiVariable env automatic latest st).2) ↔
    CallAtomic env automatic latest st := by
  obtain ⟨v, hlevel, hv⟩ := hsync.exists_variable
  have hsync' : Synced (readPolicy env.services st).2 := by
    unfold Synced
    rw [readPolicy_level, readPolicy_sbatVar]
    exact hsync
  change KeepsStep st _ ↔ _
  cases hread : env.services.readLevel with
  | some status => exact unread_atomic_iff herrors hsync hlevel hv hread
  | none =>
    by_cases hkept : Kept env automatic latest st v
    · rw [setSbatUefiVariable_of_kept hread hlevel hv hkept]
      exact iff_of_true ⟨fun h => absurd rfl h, hsync'⟩
        (callAtomic_of_not_replaces hread fun entries h => h.differs v hlevel hkept)
    rw [setSbatUefiVariable_of_not_kept hread hlevel hv hkept]
    cases hparse : parseSbatVar env.sbat.pool (callCandidate env automatic latest st).1 with
    | error status =>
      unfold replaceLevel
      simp only [hparse]
      refine iff_of_true ⟨fun _ => readPolicy_level _ _, hsync'⟩
        (callAtomic_of_not_replaces hread fun entries h => ?_)
      rw [h.parse] at hparse
      cases hparse
    | ok entries =>
      have hreplaces : Replaces env automatic latest st entries := by
        refine ⟨hread, fun u hu => ?_, hparse⟩
        obtain rfl : v = u := Option.some.inj (hlevel.symm.trans hu)
        exact hkept
      have hlevel' : (readPolicy env.services st).2.level = some v := by
        rw [readPolicy_level, hlevel]
      rw [replaceLevel_atomic_iff herrors hlevel hsync hv hlevel' hparse,
        callAtomic_iff_of_replaces hreplaces]

def originalSynced : SbatState :=
  { originalState with sbatVar := (storedEntries originalState.level).toOption.getD [] }

def grubPayload : List UInt8 := ofText "sbat,1,2025010100\ngrub,3\n"

def fullStore : LevelEnv :=
  { generation4 with services := { Services.working with writeLevel := some .outOfResources } }

/-- A payload that revokes shim is refused and yet in force afterwards, and one that cannot be
stored costs the old one. -/
theorem setSbatUefiVariable_not_atomic :
    let st := originalSynced
    let refused := setSbatUefiVariable generation4 revokingPayload.bytes revokingPayload.bytes st
    let lost := setSbatUefiVariable fullStore grubPayload grubPayload st
    storedEntries st.level = .ok st.sbatVar ∧
    (refused.1 = .securityViolation ∧ storedEntries refused.2.level ≠ .ok refused.2.sbatVar) ∧
    (lost.1 = .outOfResources ∧ lost.2.level ≠ st.level) := by
  decide +kernel

theorem setSbatUefiVariable_atomic_grub : Synced originalSynced ∧ generation4.services.AreErrors ∧
      CallAtomic generation4 grubPayload grubPayload originalSynced := by
  have hsync : Synced originalSynced := by
    unfold Synced
    decide +kernel
  have herrors : generation4.services.AreErrors := ⟨by decide, by decide, by decide⟩
  have hkeeps : Synced (setSbatUefiVariable generation4 grubPayload grubPayload
      originalSynced).2 := by
    unfold Synced
    decide +kernel
  exact ⟨hsync, herrors, (setSbatUefiVariable_atomic_iff _ _ _ _ hsync herrors).1
    ⟨by decide +kernel, hkeeps⟩⟩

end Shim.Sbat
