import Shim.Binding
import Shim.Mok.Import

/-!
# `efi_main`

Shim decides early in the boot whether it requires images to be compatible with NX
(`set_shim_nx_policy`), imports the MOK state, and then loads and runs the second stage. The decision
is a bit of `mok_policy`, which is also the global of the variable `MokPolicy`.
-/

namespace Shim

open Lib Pe Verify Sbat Mok Run VarData

structure HsiMemEnv where
  memAttrProtocol : Bool
  /-- The DXE services table, and whether it has `GetMemorySpaceDescriptor` and
  `SetMemorySpaceAttributes`. -/
  dxeServices : Option (Bool × Bool)
  codeAttrs : Option ℕ
  stackAttrs : Option ℕ
  allocPool : Bool
  heapAttrs : Option ℕ

def HsiMemEnv.interfaces (env : HsiMemEnv) (hsiStatus : ℕ) : ℕ :=
  let hsiStatus := if env.memAttrProtocol then hsiStatus ||| hsiStatusHasmap else hsiStatus
  match env.dxeServices with
  | none => hsiStatus
  | some (get, set) =>
    let hsiStatus := hsiStatus ||| hsiStatusHasdst
    let hsiStatus := if get then hsiStatus ||| hsiStatusHasdstgmsd else hsiStatus
    if set then hsiStatus ||| hsiStatusHasdstsmsa else hsiStatus

def hsiApiIsPresent (hsiStatus : ℕ) : Bool :=
  hsiStatus &&& hsiStatusHasmap ≠ 0 ||
    (hsiStatus &&& hsiStatusHasdstgmsd ≠ 0 && hsiStatus &&& hsiStatusHasdstsmsa ≠ 0)

def hsiNxIsEnforced (hsiStatus : ℕ) : Bool :=
  !(hsiStatus &&& hsiStatusHeapx ≠ 0 || hsiStatus &&& hsiStatusStackx ≠ 0 ||
    hsiStatus &&& hsiStatusRow ≠ 0)

def HsiMemEnv.pages (env : HsiMemEnv) (hsiStatus : ℕ) : Option ℕ := do
  let code ← env.codeAttrs
  let hsiStatus := if code &&& memAttrW ≠ 0 then hsiStatus ||| hsiStatusRow else hsiStatus
  let stack ← env.stackAttrs
  let hsiStatus := if stack &&& memAttrX ≠ 0 then hsiStatus ||| hsiStatusStackx else hsiStatus
  guard env.allocPool
  let heap ← env.heapAttrs
  return if heap &&& memAttrX ≠ 0 then hsiStatus ||| hsiStatusHeapx else hsiStatus

def getHsiMemInfo (env : HsiMemEnv) (hsiStatus : ℕ) : ℕ :=
  let hsiStatus := env.interfaces hsiStatus
  if hsiApiIsPresent hsiStatus = false then hsiStatus
  else (env.pages hsiStatus).getD (hsiStatusHeapx ||| hsiStatusStackx ||| hsiStatusRow)

def enforcesNx (hsiStatus : ℕ) : Bool :=
  hsiStatus &&& hsiStatusNx ≠ 0 && hsiNxIsEnforced hsiStatus && hsiApiIsPresent hsiStatus

def setShimNxPolicy (hsiStatus : ℕ) (mokPolicy : UInt8) : UInt8 :=
  if enforcesNx hsiStatus then mokPolicy ||| 1 else mokPolicy

/-- Shim's own header is read for the NX bit; `none` is a loaded image protocol that is not there. -/
def getShimNxCapability (platform : Platform) (shim : Option File) (mokPolicy : UInt8)
    (hsiStatus : ℕ) : ℕ :=
  match shim with
  | none => hsiStatus
  | some f =>
    match readHeader f platform mokPolicy.toNat false with
    | .error _ => hsiStatus
    | .ok c => if c.dllCharacteristics &&& 0x100 ≠ 0 then hsiStatus ||| hsiStatusNx else hsiStatus

inductive Stage where
  | fallback
  | secondStage
  | mokManager
  | defaultLoader
  deriving DecidableEq

inductive BootEvent where
  | handles (stage : Stage) (mokPolicy : ℕ)
  deriving DecidableEq

inductive BootStop where
  | reset
  | fault (x : Fault)

/-- One call of `start_image`: the file that is read, the device path, what `handle_image` depends
on, and what the image returns. -/
structure Attempt where
  file : Except EfiStatus File
  devicePath : Bool
  handle : HandleEnv
  entryPoint : EfiStatus

def Attempt.env (a : Attempt) (secure : Bool) (mokPolicy : UInt8) : HandleEnv :=
  { a.handle with
    secureMode := secure
    load := { a.handle.load with mokPolicy := mokPolicy.toNat, parentVerified := false } }

def startImage (a : Attempt) (secure : Bool) (mokPolicy : UInt8) (stage : Stage) :
    Run BootEvent BootStop EfiStatus :=
  match a.file with
  | .error status => pure status
  | .ok f =>
    if a.devicePath = false then pure .outOfResources
    else do
      .emit (.handles stage mokPolicy.toNat)
      match (handleImage (a.env secure mokPolicy) f).out with
      | .error (.status status) => pure status
      | .error (.fault x) => .fail (.fault x)
      | .ok _ => pure a.entryPoint

structure GrubEnv where
  useFallback : Bool
  first : Attempt
  mokManager : Attempt
  again : Attempt
  defaultLoader : Attempt

def GrubEnv.stage (env : GrubEnv) : Stage := if env.useFallback then .fallback else .secondStage

/-- The first part of `init_grub`: the second stage, and after a violation MokManager and the second
stage once more. `inl` is a status that is returned at once. -/
def startSecondStage (env : GrubEnv) (secure : Bool) (mokPolicy : UInt8) :
    Run BootEvent BootStop (EfiStatus ⊕ EfiStatus) := do
  let status ← startImage env.first secure mokPolicy env.stage
  if status = .securityViolation ∨ status = .accessDenied then
    let mok ← startImage env.mokManager secure mokPolicy .mokManager
    if isError mok then pure (.inl mok)
    else .inr <$> startImage env.again secure mokPolicy env.stage
  else pure (.inr status)

def initGrub (env : GrubEnv) (secure : Bool) (mokPolicy : UInt8) :
    Run BootEvent BootStop EfiStatus := do
  match ← startSecondStage env secure mokPolicy with
  | .inl status => pure status
  | .inr status =>
    if env.useFallback = false ∧ (status = .invalidParameter ∨ status = .notFound ∨
        status = .httpError ∨ status = .tftpError) then
      startImage env.defaultLoader secure mokPolicy .defaultLoader
    else pure status

def mokRequestNames : List String :=
  ["MokNew", "MokSB", "MokPW", "MokAuth", "MokDel", "MokDB", "MokXNew", "MokXDel", "MokXAuth",
    "MokListTrustedNew"]

/-- What the boot depends on. The stages before the import that cannot change the globals modelled
here are their statuses. -/
structure BootEnv where
  platform : Platform
  shim : Option File
  secureBoot : Bool
  setSbat : EfiStatus
  parseSbatVar : EfiStatus
  sbatSelfCheck : EfiStatus
  hsi : HsiMemEnv
  /-- The import; `hsi_status` is filled in by the boot. -/
  imports : ImportEnv
  devel : Bool
  checkVar : String → Option Failure
  mokManager : Attempt
  removableMedia : Bool
  shimInit : EfiStatus
  grub : GrubEnv

def checkVar (env : BootEnv) (vars : VarStore) (name : String) : Bool :=
  match env.checkVar name with
  | some e => e.1 = .bufferTooSmall
  | none => (vars ⟨name, .shimLock⟩).isSome

def secureMode (env : BootEnv) (flags : StateFlag → UInt8) : Bool :=
  flags .userInsecureMode = 0 && env.secureBoot

def checkMokRequest (env : BootEnv) (st : ImportState) : Run BootEvent BootStop EfiStatus :=
  if mokRequestNames.any (checkVar env st.vars) then do
    let status ←
      startImage env.mokManager (secureMode env st.flags) (st.flags .mokPolicy) .mokManager
    .check (status = .notFound ∧ env.removableMedia = true) .reset
    pure status
  else pure .success

def importMokState (env : BootEnv) (imports : ImportEnv) (st : ImportState) :
    Run BootEvent BootStop (EfiStatus × ImportState) := do
  let r := importMokVariables imports (mokStateVariableData env.devel) st
  let status ← checkMokRequest env r.2.2
  pure (keepViolation r.1 status, r.2.2)

def BootEnv.hsiStatus (env : BootEnv) : ℕ :=
  getHsiMemInfo env.hsi (getShimNxCapability env.platform env.shim 0 0)

def BootEnv.flags (env : BootEnv) : StateFlag → UInt8
  | .mokPolicy => setShimNxPolicy env.hsiStatus 0
  | .userInsecureMode | .ignoreDb | .trustMokList => 0

def BootEnv.dies (env : BootEnv) : Bool :=
  env.secureBoot && (isError env.setSbat || isError env.parseSbatVar || isError env.sbatSelfCheck)

def importFatal (secure : Bool) (status : EfiStatus) : Bool :=
  isError status && !(!secure && (status = .invalidParameter || status = .outOfResources))

def BootEnv.importEnv (env : BootEnv) : ImportEnv := { env.imports with hsiStatus := env.hsiStatus }

def efiMain (env : BootEnv) (vars : VarStore) : Run BootEvent BootStop EfiStatus := do
  .check (env.dies = true) .reset
  let (status, st) ← importMokState env env.importEnv ⟨vars, env.flags⟩
  .check (importFatal (secureMode env st.flags) status = true) .reset
  .check (isError env.shimInit = true) .reset
  initGrub env.grub (secureMode env st.flags) (st.flags .mokPolicy)

/-! ## The policy of the second stage -/

section

variable {env : BootEnv} {vars : VarStore} {secure : Bool} {mokPolicy : UInt8} {stage t : Stage}
  {p : ℕ}

lemma startImage_emits {a : Attempt}
    (h : (startImage a secure mokPolicy stage).Emits (.handles t p)) :
    t = stage ∧ p = mokPolicy.toNat := by
  unfold startImage at h
  split at h
  · exact absurd h emits_pure
  split at h
  · exact absurd h emits_pure
  · rw [emits_bind, emits_emit, BootEvent.handles.injEq] at h
    rcases h with h | ⟨_, _, h⟩
    · exact h
    split at h
    · exact absurd h emits_pure
    · exact absurd h emits_fail
    · exact absurd h emits_pure

lemma startSecondStage_emits {g : GrubEnv}
    (h : (startSecondStage g secure mokPolicy).Emits (.handles t p)) : p = mokPolicy.toNat := by
  unfold startSecondStage at h
  rw [emits_bind] at h
  rcases h with h | ⟨status, _, h⟩
  · exact (startImage_emits h).2
  split at h
  · rw [emits_bind] at h
    rcases h with h | ⟨mok, _, h⟩
    · exact (startImage_emits h).2
    · split at h
      · exact absurd h emits_pure
      · exact (startImage_emits (emits_map.mp h)).2
  · exact absurd h emits_pure

lemma initGrub_emits {g : GrubEnv} (h : (initGrub g secure mokPolicy).Emits (.handles t p)) :
    p = mokPolicy.toNat := by
  unfold initGrub at h
  rw [emits_bind] at h
  rcases h with h | ⟨r, _, h⟩
  · exact startSecondStage_emits h
  cases r with
  | inl status => exact absurd h emits_pure
  | inr status =>
    dsimp only at h
    split at h
    · exact (startImage_emits h).2
    · exact absurd h emits_pure

lemma importMokState_emits {imports : ImportEnv} {st : ImportState}
    (h : (importMokState env imports st).Emits (.handles t p)) : t = .mokManager := by
  unfold importMokState checkMokRequest at h
  dsimp only at h
  rw [emits_bind] at h
  rcases h with h | ⟨_, _, h⟩
  · split at h
    · rw [emits_bind] at h
      rcases h with h | ⟨_, _, h⟩
      · exact (startImage_emits h).1
      · simp at h
    · exact absurd h emits_pure
  · exact absurd h emits_pure

lemma importMokState_yields {imports : ImportEnv} {st : ImportState} {r : EfiStatus × ImportState}
    (h : (importMokState env imports st).Yields r) :
    r.2 = (importMokVariables imports (mokStateVariableData env.devel) st).2.2 ∧
      ((importMokVariables imports (mokStateVariableData env.devel) st).1 = .securityViolation →
        r.1 = .securityViolation) := by
  unfold importMokState at h
  rw [yields_bind] at h
  obtain ⟨status, _, h⟩ := h
  rw [yields_pure] at h
  rw [← h]
  refine ⟨rfl, ?_⟩
  intro hviolation
  show keepViolation _ status = _
  rw [hviolation]
  exact keepViolation_left status

lemma importFatal_violation : importFatal secure .securityViolation = true := by
  cases secure <;> rfl

/-- The second stage is handled under the policy that the import leaves, and only when the import has
not found a violation. -/
theorem secondStage_policy (hstage : stage ≠ .mokManager)
    (h : (efiMain env vars).Emits (.handles stage p)) :
    p = ((importMokVariables env.importEnv (mokStateVariableData env.devel)
        ⟨vars, env.flags⟩).2.2.flags .mokPolicy).toNat ∧
      (importMokVariables env.importEnv (mokStateVariableData env.devel) ⟨vars, env.flags⟩).1 ≠
        .securityViolation := by
  unfold efiMain at h
  rw [emits_bind] at h
  obtain ⟨_, _, h⟩ := h.resolve_left emits_check
  rw [emits_bind] at h
  obtain ⟨⟨status, st⟩, himport, h⟩ := h.resolve_left fun h => hstage (importMokState_emits h)
  obtain ⟨hst, hviolation⟩ := importMokState_yields himport
  dsimp only at h hst hviolation
  rw [emits_bind] at h
  obtain ⟨_, hfatal, h⟩ := h.resolve_left emits_check
  rw [emits_bind] at h
  obtain ⟨_, _, h⟩ := h.resolve_left emits_check
  rw [← hst]
  refine ⟨initGrub_emits h, ?_⟩
  intro hbad
  apply yields_check.mp hfatal
  rw [hviolation hbad]
  exact importFatal_violation

lemma mokPolicyRow_plain : mokPolicyRow.Plain := by
  refine ⟨⟨?_, ?_, rfl⟩, ?_⟩
  · decide
  · decide
  · decide

lemma rowsBeforePolicy_apart (devel : Bool) :
    ∀ w ∈ rowsBeforePolicy devel, w.Apart mokPolicyRow.var .mokPolicy := by
  cases devel with
  | false => decide
  | true => decide

lemma rowsAfterPolicy_apart : ∀ w ∈ rowsAfterPolicy, w.Apart mokPolicyRow.var .mokPolicy := by
  decide

lemma requiresNx_stateOver_iff (d : VarData) : (d.stateOver 1).toNat &&& mokPolicyRequireNx ≠ 0 ↔
      ∀ b, d = .buf [b] → b.toNat &&& mokPolicyRequireNx ≠ 0 := by
  rcases d with n | _ | ⟨b, _ | ⟨c, rest⟩⟩
  · simp [stateOver, mokPolicyRequireNx]
  · simp [stateOver, mokPolicyRequireNx]
  · simp [stateOver]
  · simp [stateOver, mokPolicyRequireNx]

lemma importMokVariables_policy (hset : enforcesNx env.hsiStatus = true)
    (hret : (importMokVariables env.importEnv (mokStateVariableData env.devel)
      ⟨vars, env.flags⟩).1 ≠ .securityViolation) :
    (importMokVariables env.importEnv (mokStateVariableData env.devel)
        ⟨vars, env.flags⟩).2.2.flags .mokPolicy =
      (env.importEnv.imported mokPolicyRow vars).stateOver 1 := by
  have hstart : resetFlags env.flags .mokPolicy = 1 := by
    show setShimNxPolicy env.hsiStatus 0 = 1
    unfold setShimNxPolicy
    rw [if_pos hset]
    rfl
  unfold mokStateVariableData at hret ⊢
  rw [importMokVariables_flag mokPolicyRow_plain (f := .mokPolicy) rfl rfl (by decide)
    (rowsBeforePolicy_apart env.devel) rowsAfterPolicy_apart hret, hstart]

/-- In a boot in which NX is to be enforced, the second stage is handled under a policy that requires
NX iff the variable `MokPolicy` is not a byte without that bit that one of the two walks imports. -/
theorem efiMain_requires_nx_iff (hset : enforcesNx env.hsiStatus = true)
    (hstage : stage ≠ .mokManager) (h : (efiMain env vars).Emits (.handles stage p)) :
    p &&& mokPolicyRequireNx ≠ 0 ↔ ∀ x b, vars ⟨"MokPolicy", .shimLock⟩ = some x → x.data = [b] →
        mokPolicyRow.attributesOk x.attributes = true → env.imports.Reads mokPolicyRow →
        b.toNat &&& mokPolicyRequireNx ≠ 0 := by
  obtain ⟨rfl, hret⟩ := secondStage_policy hstage h
  rw [importMokVariables_policy hset hret, requiresNx_stateOver_iff]
  constructor
  · intro hbyte x b hx hdata hattr hreads
    have hne : x.data ≠ [] := by
      rw [hdata]
      exact List.cons_ne_nil b []
    exact hbyte b (imported_eq_buf.mpr ⟨⟨x, hx, hdata, hne, hattr⟩, hreads⟩)
  · intro hvar b hb
    obtain ⟨⟨x, hx, hdata, _, hattr⟩, hreads⟩ := imported_eq_buf.mp hb
    exact hvar x b hx hdata hattr hreads

end

def textOnly (dllCharacteristics : ℕ) : File :=
  PeFields.file
    { sizeOfImage := 0x2000
      sizeOfHeaders := 288
      sections := [⟨nameText, 16, 0x1000, 64, 288, 0x60000020⟩]
      body := [(158, 2, dllCharacteristics)] }
    352

def listedAttempt (f : File) : Attempt := ⟨.ok f, true, secureEnv (f.mem.slice 320 32), .success⟩

def nxBoot (f : File) : BootEnv where
  platform := .x64
  shim := some (textOnly 0x100)
  secureBoot := true
  setSbat := .success
  parseSbatVar := .success
  sbatSelfCheck := .success
  hsi := ⟨true, none, some 5, some 6, true, some 6⟩
  imports := workingImports
  devel := false
  checkVar := fun _ => none
  mokManager := listedAttempt f
  removableMedia := false
  shimInit := .success
  grub := ⟨false, listedAttempt f, listedAttempt f, listedAttempt f, listedAttempt f⟩

def onlyMokPolicy (data : List UInt8) : VarStore := fun x =>
  if x = ⟨"MokPolicy", .shimLock⟩ then some ⟨data, variableBootserviceAccess ||| variableNonVolatile⟩
  else none

/-- With a zero in `MokPolicy` an image that is not compatible with NX is started. -/
theorem efiMain_loses_nx : enforcesNx (nxBoot (textOnly 0)).hsiStatus = true ∧
      (efiMain (nxBoot (textOnly 0)) (onlyMokPolicy [0])).Emits (.handles .secondStage 0) ∧
      (efiMain (nxBoot (textOnly 0)) (onlyMokPolicy [0])).out.toOption = some .success := by
  decide +kernel

theorem efiMain_requires_nx_mokPolicy :
    (efiMain (nxBoot (textOnly 0x100)) (onlyMokPolicy [1])).Emits (.handles .secondStage 1) ∧
      1 &&& mokPolicyRequireNx ≠ 0 := by
  have hset : enforcesNx (nxBoot (textOnly 0x100)).hsiStatus = true := by decide +kernel
  have hrun : (efiMain (nxBoot (textOnly 0x100)) (onlyMokPolicy [1])).Emits
      (.handles .secondStage 1) := by decide +kernel
  refine ⟨hrun, (efiMain_requires_nx_iff hset (by decide) hrun).mpr ?_⟩
  intro x b hx hdata _ _
  rw [← Option.some.inj hx] at hdata
  rw [← (List.cons.inj hdata).1]
  decide

end Shim
