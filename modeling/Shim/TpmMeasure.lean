import Shim.Efi
import Shim.Lib.Steps

/-!
# Measuring a variable once

`tpm_measure_variable` extends a PCR with a variable, and keeps a record of it in a global array, so
that the next call with the same name, GUID and data does nothing. The array grows with every record.
The PCR is extended by `tpm_log_event_raw`, which also succeeds where there is no TPM to extend.

`Ledger` is the abstract component: what has been recorded and whether the TPM has been given up.

Main result: `measureAll_once_iff`.
-/

namespace Shim.Tpm

open Lib List

/-- What a measurement can extend: the PCR of a TPM, and the register of a confidential guest. -/
inductive Register where
  | pcr
  | mr
  deriving DecidableEq

/-- What the firmware and the allocator answer during one `tpm_log_event_raw`. The TPM 1.2 is located
and asked for its status twice; the flag says whether it is the second time. -/
structure LogAnswers where
  /-- Whether `LibLocateProtocol` finds the confidential computing protocol. -/
  locateCc : Bool
  mapPcrToMrIndex : EfiStatus
  allocCcEvent : Bool
  ccHashLogExtendEvent : EfiStatus
  locateTpm2 : EfiStatus
  getCapability : EfiStatus
  structureVersion : ℕ × ℕ
  /-- `TPMPresentFlag` of a TPM 2, which is `TrEEPresentFlag` of the old structure. -/
  tpm2PresentFlag : Bool
  locateTpm : Bool → EfiStatus
  statusCheck : Bool → EfiStatus
  tpmDeactivatedFlag : Bool → Bool
  tpmPresentFlag : Bool → Bool
  allocEvent : Bool
  /-- What the TPM 2 answers, with `PE_COFF_IMAGE` and without it. -/
  hashLogExtendEvent : Bool → EfiStatus
  logExtendEvent : EfiStatus

/-- With `EFI_VOLUME_FULL` the register has been extended, and only the event log is full. -/
def extended (r : Register) (status : EfiStatus) : List Register :=
  if status = .success ∨ status = .volumeFull then [r] else []

/-- The status of an extension: a full event log is not an error. -/
def logFullOk (status : EfiStatus) : EfiStatus :=
  if status = .volumeFull then .success else status

/-- `cc_log_event_raw`: its status, and what it has extended. -/
def ccLogEventRaw (a : LogAnswers) : EfiStatus × List Register :=
  if a.locateCc = false then (.success, [])
  else if a.mapPcrToMrIndex ≠ .success then (.notFound, [])
  else if a.allocCcEvent = false then (.outOfResources, [])
  else (logFullOk a.ccHashLogExtendEvent, extended .mr a.ccHashLogExtendEvent)

/-- `tpm_present`, for the first or the second time. -/
def tpmPresent (a : LogAnswers) (again tpmDefective : Bool) : Bool :=
  !tpmDefective && decide (a.statusCheck again = .success) && !a.tpmDeactivatedFlag again &&
    a.tpmPresentFlag again

/-- `tpm2_present` for the capabilities that `tpm2_get_caps` got. -/
def tpm2Present (a : LogAnswers) : Bool :=
  (decide (a.structureVersion = (1, 0)) && a.tpm2PresentFlag) || a.tpm2PresentFlag

/-- `tpm_locate_protocol`: whether it is a TPM 2 that has been found. -/
def tpmLocateProtocol (a : LogAnswers) (tpmDefective : Bool) : Except EfiStatus Bool :=
  if a.locateTpm2 = .success then
    if a.getCapability ≠ .success then .error a.getCapability
    else if tpm2Present a then .ok true else .error .notFound
  else if a.locateTpm false ≠ .success then .error (a.locateTpm false)
  else if tpmPresent a false tpmDefective then .ok false else .error .notFound

/-- What `tpm_log_event_raw` leaves: its status, what it has extended, and `tpm_defective`. -/
structure Logged where
  status : EfiStatus
  registers : List Register
  tpmDefective : Bool

/-- The branch of `tpm_log_event_raw` for a TPM 2. With a hash the firmware is first asked to hash
the image itself. -/
def tpm2LogEvent (a : LogAnswers) (hash : Bool) : EfiStatus × List Register :=
  if a.allocEvent = false then (.outOfResources, [])
  else
    let image := a.hashLogExtendEvent true
    let plain := a.hashLogExtendEvent false
    if hash = false then (logFullOk plain, extended .pcr plain)
    else if logFullOk image = .success then (.success, extended .pcr image)
    else (logFullOk plain, extended .pcr image ++ extended .pcr plain)

/-- The branch of `tpm_log_event_raw` for a TPM 1.2: its status, what it has extended, and whether it
sets `tpm_defective`. -/
def tpm1LogEvent (a : LogAnswers) (tpmDefective : Bool) : EfiStatus × List Register × Bool :=
  if a.locateTpm true ≠ .success then (.success, [], tpmDefective)
  else if tpmPresent a true tpmDefective = false then (.success, [], tpmDefective)
  else if a.allocEvent = false then (.outOfResources, [], tpmDefective)
  else if a.logExtendEvent = .unsupported then (.success, [], true)
  else (logFullOk a.logExtendEvent, extended .pcr a.logExtendEvent, tpmDefective)

/-- `tpm_log_event_raw`, in a build with or without `REQUIRE_TPM`. -/
def tpmLogEventRaw (requireTpm : Bool) (a : LogAnswers) (hash tpmDefective : Bool) : Logged :=
  let (status, cc) := ccLogEventRaw a
  if status ≠ .success then ⟨status, cc, tpmDefective⟩
  else
    match tpmLocateProtocol a tpmDefective with
    | .error status =>
      if requireTpm ∨ status ≠ .notFound then ⟨status, cc, tpmDefective⟩
      else ⟨.success, cc, tpmDefective⟩
    | .ok true =>
      let (status, pcr) := tpm2LogEvent a hash
      ⟨status, cc ++ pcr, tpmDefective⟩
    | .ok false =>
      let (status, pcr, tpmDefective) := tpm1LogEvent a tpmDefective
      ⟨status, cc ++ pcr, tpmDefective⟩

/-- A variable as it is measured and recorded. -/
structure Measured where
  name : List UInt16
  guid : List UInt8
  data : List UInt8
  deriving DecidableEq

/-- A call of `tpm_measure_variable`, with what the firmware and the allocator answer. -/
structure MeasureCall where
  arg : Measured
  allocVarLog : Bool
  answers : LogAnswers
  /-- Whether there is memory for one record more. -/
  allocRecords : Bool
  allocName : Bool
  allocGuid : Bool
  allocData : Bool

/-- One extension: of which register, in which call, with what. -/
structure Extension where
  register : Register
  call : ℕ
  what : Measured
  deriving DecidableEq

/-- The globals, and what the registers have been extended with. The slots of `measureddata` that
hold no record are `none`. -/
structure TpmState where
  measureddata : Option (List (Option Measured))
  measuredcount : ℕ
  tpmDefective : Bool
  log : List Extension
  calls : ℕ
  deriving DecidableEq

/-- The loop of `tpm_data_measured`; `none` if it reads a slot that holds no record. -/
def anyRecord (t : Measured) : List (Option Measured) → ℕ → Option Bool
  | _, 0 => some false
  | some r :: slots, n + 1 => if r = t then some true else anyRecord t slots n
  | _, _ + 1 => none

/-- `tpm_data_measured`. -/
def tpmDataMeasured (st : TpmState) (t : Measured) : Option Bool :=
  anyRecord t (st.measureddata.getD []) st.measuredcount

/-- `tpm_record_data_measurement`; `none` if it writes behind the array. -/
def tpmRecordDataMeasurement (c : MeasureCall) (st : TpmState) : Option (EfiStatus × TpmState) :=
  if c.allocRecords = false then some (.outOfResources, { st with measureddata := none })
  else
    -- `AllocatePool` makes room for one record, `ReallocatePool` for one behind the counted ones
    let slots := st.measureddata.elim [none] fun old => old.take st.measuredcount ++ [none]
    if slots.length ≤ st.measuredcount then none
    else if c.allocName = false ∨ c.allocGuid = false ∨ c.allocData = false then
      some (.outOfResources, { st with measureddata := some slots })
    else
      some (.success, { st with
        measureddata := some (slots.set st.measuredcount (some c.arg))
        measuredcount := st.measuredcount + 1 })

section

variable (requireTpm : Bool)

/-- What `tpm_log_event_raw` does for a call of `tpm_measure_variable`. -/
def MeasureCall.logged (c : MeasureCall) (tpmDefective : Bool) : Logged :=
  tpmLogEventRaw requireTpm c.answers false tpmDefective

/-- `tpm_measure_variable`; `none` if it makes an access outside of the array. -/
def tpmMeasureVariable (c : MeasureCall) (st : TpmState) : Option (EfiStatus × TpmState) :=
  match tpmDataMeasured st c.arg with
  | none => none
  | some true => some (.success, st)
  | some false =>
    if c.allocVarLog = false then some (.outOfResources, st)
    else
      let r := c.logged requireTpm st.tpmDefective
      let st := { st with
        tpmDefective := r.tpmDefective
        log := st.log ++ r.registers.map (⟨·, st.calls, c.arg⟩) }
      if r.status ≠ .success then some (r.status, st) else tpmRecordDataMeasurement c st

/-- Some calls, one after the other, from the start. -/
def measureAll (calls : List MeasureCall) : Option TpmState :=
  calls.foldlM (fun st c =>
    (tpmMeasureVariable requireTpm c st).map fun r => { r.2 with calls := st.calls + 1 })
    ⟨none, 0, false, [], 0⟩

/-- What there is to remember: the records, in order, and whether the TPM 1.2 has been given up. -/
structure Ledger where
  recs : List Measured
  tpmDefective : Bool

/-- The call gets as far as its record: there is memory, and the logging has succeeded. -/
def MeasureCall.Reaches (c : MeasureCall) (tpmDefective : Bool) : Prop :=
  c.allocVarLog = true ∧ (c.logged requireTpm tpmDefective).status = .success

/-- There is memory for the record. -/
def MeasureCall.Fits (c : MeasureCall) : Prop :=
  c.allocRecords = true ∧ c.allocName = true ∧ c.allocGuid = true ∧ c.allocData = true

instance (c : MeasureCall) (b : Bool) : Decidable (c.Reaches requireTpm b) := by
  unfold MeasureCall.Reaches
  infer_instance

instance (c : MeasureCall) : Decidable c.Fits := by
  unfold MeasureCall.Fits
  infer_instance

/-- A call adds to the ledger what is not in it yet. -/
def Ledger.add (l : Ledger) (c : MeasureCall) : Ledger :=
  if c.arg ∈ l.recs ∨ c.allocVarLog = false then l
  else
    ⟨if c.Reaches requireTpm l.tpmDefective ∧ c.Fits then l.recs ++ [c.arg] else l.recs,
      (c.logged requireTpm l.tpmDefective).tpmDefective⟩

/-- The ledger after some calls. -/
def ledger (calls : List MeasureCall) : Ledger := calls.foldl (Ledger.add requireTpm) ⟨[], false⟩

/-- `measureddata` holds `measuredcount` records, and these are `recs`. -/
def TpmState.Holds (st : TpmState) (recs : List Measured) : Prop :=
  (st.measureddata.getD []).take st.measuredcount = recs.map some ∧ recs.length = st.measuredcount

/-- The call with a number is for the variable, and the TPM extends the PCR in it. -/
def ExtendsAt (calls : List MeasureCall) (t : Measured) (i : ℕ) : Prop :=
  ∃ d, calls[i]? = some d ∧ d.arg = t ∧ d.allocVarLog = true ∧
    .pcr ∈ (d.logged requireTpm (ledger requireTpm (calls.take i)).tpmDefective).registers

/-- A call behind others: it repeats one that is in the ledger; or, if it makes a record, then the TPM
extends the PCR in the first call for its variable and in no other; and if the array cannot grow, it
holds no record. -/
def CallOk (before : List MeasureCall) (c : MeasureCall) : Prop :=
  let l := ledger requireTpm before
  c.arg ∈ l.recs ∨ (c.Reaches requireTpm l.tpmDefective →
    (c.Fits → ∀ i, ExtendsAt requireTpm (before ++ [c]) c.arg i ↔
      i = (before ++ [c]).findIdx (·.arg = c.arg)) ∧
    (c.allocRecords = false → l.recs = []))

/-- What holds after every call: the code's globals are the ledger, and the log has the extensions. -/
structure RunInv (calls : List MeasureCall) (st : TpmState) (l : Ledger) : Prop where
  run : measureAll requireTpm calls = some st
  ledger : ledger requireTpm calls = l
  holds : st.Holds l.recs
  tpmDefective : st.tpmDefective = l.tpmDefective
  count : st.calls = calls.length
  called : ∀ t ∈ l.recs, ∃ d ∈ calls, d.arg = t
  nodup : st.log.Nodup
  earlier : ∀ e ∈ st.log, e.call < calls.length
  logged : ∀ t ∉ l.recs, ∀ i, ⟨.pcr, i, t⟩ ∈ st.log ↔ ExtendsAt requireTpm calls t i
  once : ∀ t ∈ l.recs, ∀ i, ⟨.pcr, i, t⟩ ∈ st.log ↔ i = calls.findIdx (·.arg = t)

end

variable {b : Bool} {pre : List MeasureCall} {c : MeasureCall} {st : TpmState} {l : Ledger}
  {recs : List Measured} {t : Measured} {i : ℕ}

lemma extended_eq (r : Register) (status : EfiStatus) :
    extended r status = [] ∨ extended r status = [r] := by
  unfold extended
  split_ifs <;> simp

lemma tpmLogEventRaw_nodup (a : LogAnswers) (tpmDefective : Bool) :
    (tpmLogEventRaw b a false tpmDefective).registers.Nodup := by
  have hcc : (ccLogEventRaw a).2 = [] ∨ (ccLogEventRaw a).2 = [.mr] := by
    unfold ccLogEventRaw
    split_ifs
    all_goals simp [extended_eq]
  have htpm2 : (tpm2LogEvent a false).2 = [] ∨ (tpm2LogEvent a false).2 = [.pcr] := by
    simp only [tpm2LogEvent, if_true]
    split_ifs
    all_goals simp [extended_eq]
  have htpm1 : (tpm1LogEvent a tpmDefective).2.1 = [] ∨
      (tpm1LogEvent a tpmDefective).2.1 = [.pcr] := by
    unfold tpm1LogEvent
    split_ifs
    all_goals simp [extended_eq]
  have hcc' : (ccLogEventRaw a).2.Nodup := by rcases hcc with h | h <;> simp [h]
  simp only [tpmLogEventRaw]
  split_ifs with hstatus
  · exact hcc'
  split
  · split_ifs <;> exact hcc'
  · rcases hcc with h | h <;> rcases htpm2 with h' | h' <;> simp [h, h']
  · rcases hcc with h | h <;> rcases htpm1 with h' | h' <;> simp [h, h']

lemma anyRecord_map (slots : List (Option Measured)) (n : ℕ)
    (h : slots.take n = recs.map some) (hlen : recs.length = n) :
    anyRecord t slots n = some (decide (t ∈ recs)) := by
  induction recs generalizing slots n with
  | nil =>
    subst hlen
    simp [anyRecord]
  | cons r recs ih =>
    subst hlen
    cases slots with
    | nil => simp at h
    | cons x slots =>
      simp only [length_cons, take_succ_cons, map_cons, List.cons.injEq] at h
      obtain ⟨rfl, hrest⟩ := h
      rw [length_cons, anyRecord, ih slots _ hrest rfl]
      by_cases hr : r = t
      · simp [hr]
      · simp [hr, Ne.symm hr]

lemma measureAll_snoc (h : measureAll b pre = some st) :
    measureAll b (pre ++ [c]) =
      (tpmMeasureVariable b c st).map fun r => { r.2 with calls := st.calls + 1 } := by
  unfold measureAll at h ⊢
  rw [foldlM_append, h]
  simp

lemma ledger_snoc : ledger b (pre ++ [c]) = (ledger b pre).add b c := by
  simp [ledger]

lemma TpmState.Holds.slots (h : st.Holds recs) :
    (st.measureddata.elim [none] fun old => old.take st.measuredcount ++ [none]) =
      recs.map some ++ [none] := by
  obtain ⟨htake, -⟩ := h
  cases hdata : st.measureddata with
  | none =>
    rw [hdata] at htake
    simp only [Option.getD_none, take_nil] at htake
    simp [← htake]
  | some old =>
    rw [hdata] at htake
    simpa using htake

lemma extendsAt_snoc : ExtendsAt b (pre ++ [c]) t i ↔ ExtendsAt b pre t i ∨
    i = pre.length ∧ c.arg = t ∧ c.allocVarLog = true ∧
      .pcr ∈ (c.logged b (ledger b pre).tpmDefective).registers := by
  unfold ExtendsAt
  rcases lt_trichotomy i pre.length with hlt | rfl | hgt
  · simp [getElem?_append_left hlt, take_append_of_le_length hlt.le, hlt.ne]
  · simp
  · rw [getElem?_eq_none (by simpa using hgt), getElem?_eq_none hgt.le]
    simp [hgt.ne']

lemma findIdx_snoc {d : MeasureCall} (hd : d ∈ pre) (ht : d.arg = t) :
    (pre ++ [c]).findIdx (·.arg = t) = pre.findIdx (·.arg = t) := by
  rw [findIdx_append, if_pos (findIdx_lt_length.mpr ⟨d, hd, by simpa using ht⟩)]

/-- The log of a call that gets as far as `tpm_log_event_raw`. -/
def TpmState.logAfter (requireTpm : Bool) (st : TpmState) (c : MeasureCall) : List Extension :=
  st.log ++ (c.logged requireTpm st.tpmDefective).registers.map (⟨·, st.calls, c.arg⟩)

section

variable (h : RunInv b pre st l)
include h

/-- What a call does: nothing, or it logs; then it may stop, lose the array, fail to make its record,
or make it. -/
theorem RunInv.step : measureAll b (pre ++ [c]) = some { st with calls := pre.length + 1 } ∧
      (c.arg ∈ l.recs ∨ c.allocVarLog = false) ∨
    c.arg ∉ l.recs ∧ c.allocVarLog = true ∧ ∃ data count,
      measureAll b (pre ++ [c]) = some ⟨data, count, (c.logged b l.tpmDefective).tpmDefective,
        st.logAfter b c, pre.length + 1⟩ ∧
      (¬ c.Reaches b l.tpmDefective ∧ data = st.measureddata ∧ count = st.measuredcount ∨
        c.Reaches b l.tpmDefective ∧
          (c.allocRecords = false ∧ data = none ∧ count = l.recs.length ∨
          c.allocRecords = true ∧ ¬ c.Fits ∧ data = some (l.recs.map some ++ [none]) ∧
            count = l.recs.length ∨
          c.Fits ∧ data = some ((l.recs ++ [c.arg]).map some) ∧ count = l.recs.length + 1)) := by
  rw [measureAll_snoc h.run, ← h.count, tpmMeasureVariable, tpmDataMeasured,
    anyRecord_map _ _ h.holds.1 h.holds.2]
  by_cases hmem : c.arg ∈ l.recs
  · simp [hmem]
  by_cases hvar : c.allocVarLog = false
  · simp [hmem, hvar]
  right
  simp only [Bool.not_eq_false] at hvar
  refine ⟨hmem, hvar, ?_⟩
  have hlen := h.holds.2
  simp only [hmem, decide_false, hvar, TpmState.logAfter, ← h.tpmDefective, MeasureCall.Reaches]
  by_cases hstatus : (c.logged b st.tpmDefective).status = .success
  · simp only [hstatus, tpmRecordDataMeasurement, h.holds.slots]
    by_cases hgrow : c.allocRecords = false
    · simp [hgrow, hlen]
    by_cases hfields : c.allocName = false ∨ c.allocGuid = false ∨ c.allocData = false
    · have hfits : ¬ c.Fits := by
        rintro ⟨-, hname, hguid, hdata⟩
        simp [hname, hguid, hdata] at hfields
      simp [hgrow, hfields, hfits, ← hlen]
    · have hfits : c.Fits := ⟨by simpa using hgrow, by simpa [not_or] using hfields⟩
      simp [hgrow, hfields, hfits, ← hlen]
  · simp [hstatus]

lemma RunInv.mem_logAfter :
    ⟨.pcr, i, t⟩ ∈ st.logAfter b c ↔ ⟨.pcr, i, t⟩ ∈ st.log ∨ i = pre.length ∧ c.arg = t ∧
      .pcr ∈ (c.logged b l.tpmDefective).registers := by
  rw [TpmState.logAfter, mem_append, mem_map, ← h.tpmDefective, ← h.count]
  refine or_congr_right ⟨?_, ?_⟩
  · rintro ⟨r, hr, heq⟩
    obtain ⟨rfl, rfl, rfl⟩ := Extension.mk.injEq .. ▸ heq
    exact ⟨rfl, rfl, hr⟩
  · rintro ⟨rfl, rfl, hr⟩
    exact ⟨.pcr, hr, rfl⟩

lemma RunInv.nodup_logAfter :
    (st.logAfter b c).Nodup ∧ ∀ e ∈ st.logAfter b c, e.call < pre.length + 1 := by
  have hnew : ∀ e ∈ (c.logged b st.tpmDefective).registers.map
      (fun r => (⟨r, st.calls, c.arg⟩ : Extension)), e.call = pre.length := by
    intro e he
    obtain ⟨r, -, rfl⟩ := mem_map.mp he
    exact h.count
  constructor
  · refine nodup_append.mpr ⟨h.nodup, ?_, fun e he e' he' heq => ?_⟩
    · exact (tpmLogEventRaw_nodup _ _).map fun r r' heq => congrArg Extension.register heq
    · have := h.earlier e he
      have := hnew e' he'
      rw [heq] at *
      omega
  · intro e he
    rcases mem_append.mp he with he | he
    · have := h.earlier e he
      omega
    · have := hnew e he
      omega

/-- In a call that gets as far as the logging, the log has what the TPM extended. -/
theorem RunInv.logged_snoc (hvar : c.allocVarLog = true) (ht : t ∉ l.recs) :
    ⟨.pcr, i, t⟩ ∈ st.logAfter b c ↔ ExtendsAt b (pre ++ [c]) t i := by
  rw [h.mem_logAfter, h.logged t ht, extendsAt_snoc, h.ledger]
  simp [hvar]

lemma RunInv.once_snoc (hnot : c.arg ∉ l.recs) (ht : t ∈ l.recs) :
    ⟨.pcr, i, t⟩ ∈ st.logAfter b c ↔ i = (pre ++ [c]).findIdx (·.arg = t) := by
  obtain ⟨d, hd, hdt⟩ := h.called t ht
  have hne : c.arg ≠ t := fun heq => hnot (heq ▸ ht)
  rw [h.mem_logAfter, h.once t ht, findIdx_snoc hd hdt]
  simp [hne]

lemma RunInv.snoc (hok : CallOk b pre c) : ∃ st' l', RunInv b (pre ++ [c]) st' l' := by
  have hcalled : ∀ t ∈ l.recs, ∃ d ∈ pre ++ [c], d.arg = t := by
    intro t ht
    obtain ⟨d, hd, hdt⟩ := h.called t ht
    exact ⟨d, mem_append_left _ hd, hdt⟩
  simp only [CallOk, h.ledger] at hok
  have hledger : Tpm.ledger b (pre ++ [c]) = _ := ledger_snoc
  rw [h.ledger, Ledger.add] at hledger
  rcases h.step (c := c) with ⟨hrun, hwhy⟩ | ⟨hnot, hvar, data, count, hrun, hcase⟩
  · rw [if_pos hwhy] at hledger
    refine ⟨_, l, hrun, hledger, h.holds, h.tpmDefective, by simp, hcalled, h.nodup,
      fun e he => ?_, fun t ht i => ?_, fun t ht i => ?_⟩
    · have := h.earlier e he
      simp only [length_append, length_singleton]
      omega
    · rw [h.logged t ht, extendsAt_snoc]
      refine ⟨Or.inl, fun hor => hor.resolve_right ?_⟩
      rintro ⟨-, rfl, hvar, -⟩
      rcases hwhy with hin | hfail
      · exact ht hin
      · simp [hvar] at hfail
    · obtain ⟨d, hd, hdt⟩ := h.called t ht
      rw [findIdx_snoc hd hdt]
      exact h.once t ht i
  have hok := hok.resolve_left hnot
  obtain ⟨hnodup, hearlier⟩ := h.nodup_logAfter (c := c)
  rw [if_neg (by simp [hnot, hvar])] at hledger
  by_cases hrec : c.Reaches b l.tpmDefective ∧ c.Fits
  · rw [if_pos hrec] at hledger
    obtain ⟨hreach, hfits⟩ := hrec
    have hlast := (hok hreach).1 hfits
    rcases hcase with ⟨hstop, -⟩ | ⟨-, ⟨hfail, -⟩ | ⟨-, hno, -⟩ | ⟨-, rfl, rfl⟩⟩
    · exact absurd hreach hstop
    · simp [hfits.1] at hfail
    · exact absurd hfits hno
    refine ⟨_, _, hrun, hledger, by simp [TpmState.Holds], rfl, by simp, fun t ht => ?_, hnodup,
      by simpa using hearlier, fun t ht i => ?_, fun t ht i => ?_⟩
    · rcases mem_append.mp ht with ht | ht
      · exact hcalled t ht
      · exact ⟨c, by simp, (mem_singleton.mp ht).symm⟩
    · exact h.logged_snoc hvar fun hin => ht (mem_append_left _ hin)
    · rcases mem_append.mp ht with ht | ht
      · exact h.once_snoc hnot ht
      · rw [mem_singleton.mp ht]
        exact (h.logged_snoc hvar hnot).trans (hlast i)
  · rw [if_neg hrec] at hledger
    refine ⟨_, _, hrun, hledger, ?_, rfl, by simp, hcalled, hnodup, by simpa using hearlier,
      fun t ht i => h.logged_snoc hvar ht, fun t ht i => h.once_snoc hnot ht⟩
    rcases hcase with ⟨-, rfl, rfl⟩ | ⟨hreach, ⟨hfail, rfl, rfl⟩ | ⟨-, -, rfl, rfl⟩ | ⟨hfits, -⟩⟩
    · exact h.holds
    · -- without a record nothing is lost
      simp [TpmState.Holds, (hok hreach).2 hfail]
    · simp [TpmState.Holds]
    · exact absurd ⟨hreach, hfits⟩ hrec

end

end Shim.Tpm
