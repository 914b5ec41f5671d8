import Shim.Lib.Layout
import Shim.Mok.KeyList
import Shim.Sbat.Level

/-!
# The MOK state variables

`import_mok_state` walks a table of UEFI variables twice. Each is read and its attributes are checked
(`import_one_mok_state`), it is mirrored into a variable that the operating system can read, and the
byte of a variable of size one is stored in a global (`maybe_mirror_one_mok_variable`).
-/

namespace Shim.Mok

open Lib Verify
open Sbat (Variable getVariable setVariable)

/-! ## The table -/

inductive VendorGuid where
  | shimLock
  | globalVariable
  | sigDb
  | secureBootNamespace
  deriving DecidableEq

structure VarName where
  name : String
  guid : VendorGuid
  deriving DecidableEq

abbrev VarStore := VarName → Option Variable

inductive StateFlag where
  | userInsecureMode
  | ignoreDb
  | trustMokList
  | mokPolicy
  deriving DecidableEq

inductive AddendCategory where
  | db
  | x509
  | none
  deriving DecidableEq

inductive Addend where
  | authorized
  | deauthorized

inductive FormatHelper where
  | hsiStatus
  | variableInfo

/-- The fields `data` and `data_size` of a row: a null pointer and whatever size is left beside it, or
a buffer of that size. -/
inductive VarData where
  | null (size : ℕ)
  | buf (bytes : List UInt8)
  deriving DecidableEq

def VarData.size : VarData → ℕ
  | .null n => n
  | .buf bytes => bytes.length

def VarData.bytes : VarData → List UInt8
  | .null n => List.replicate n 0
  | .buf bytes => bytes

def mokMirrorKeydb : ℕ := 0x01

def mokMirrorDeleteFirst : ℕ := 0x02

def mokVariableMeasure : ℕ := 0x04

def mokVariableLog : ℕ := 0x08

def mokVariableInverse : ℕ := 0x10

def mokVariableConfigOnly : ℕ := 0x20

def variableNonVolatile : ℕ := 1

def variableBootserviceAccess : ℕ := 2

def variableRuntimeAccess : ℕ := 4

/-- A row of the table. Every row of it has an `rtname`; `name8` and `rtname8` are the two names in
another encoding. -/
structure MokStateVariable where
  name : String
  rtname : String
  guid : VendorGuid
  data : VarData := .null 0
  /-- `categorize_addend`, `addend` and `addend_size`. -/
  addend : Option Addend := none
  userCert : Bool := false
  buildCert : Bool := false
  yesAttr : ℕ := 0
  noAttr : ℕ := 0
  flags : ℕ
  state : Option StateFlag := none
  format : Option FormatHelper := none

def MokStateVariable.has (v : MokStateVariable) (flag : ℕ) : Bool := v.flags &&& flag ≠ 0

def MokStateVariable.var (v : MokStateVariable) : VarName := ⟨v.name, v.guid⟩

def ownVariable (name rtname : String) (flags : ℕ) (state : Option StateFlag) : MokStateVariable :=
  { name, rtname, guid := .shimLock, flags, state
    yesAttr := variableBootserviceAccess ||| variableNonVolatile
    noAttr := variableRuntimeAccess }

def configOnly (guid : VendorGuid) (name : String) : MokStateVariable :=
  { name, rtname := name, guid, flags := mokVariableConfigOnly }

def mokListRow : MokStateVariable :=
  { ownVariable "MokList" "MokListRT"
      (mokMirrorKeydb ||| mokMirrorDeleteFirst ||| mokVariableLog) none with
    addend := some .authorized
    userCert := true
    buildCert := true }

def mokListXRow : MokStateVariable :=
  { ownVariable "MokListX" "MokListXRT"
      (mokMirrorKeydb ||| mokMirrorDeleteFirst ||| mokVariableLog) none with
    addend := some .deauthorized }

def sbatLevelRow (devel : Bool) : MokStateVariable :=
  { ownVariable (if devel then "SbatLevel_DEVEL" else "SbatLevel")
      (if devel then "SbatLevelRT_DEVEL" else "SbatLevelRT")
      (mokMirrorDeleteFirst ||| mokVariableMeasure) none with
    noAttr := if devel then 0 else variableRuntimeAccess }

def mokPolicyRow : MokStateVariable :=
  ownVariable "MokPolicy" "MokPolicyRT" (mokMirrorDeleteFirst ||| mokVariableLog) (some .mokPolicy)

def rowsBeforePolicy (devel : Bool) : List MokStateVariable :=
  [mokListRow, mokListXRow, ownVariable "MokSBState" "MokSBStateRT"
      (mokMirrorDeleteFirst ||| mokVariableMeasure ||| mokVariableLog) (some .userInsecureMode),
    ownVariable "MokDBState" "MokIgnoreDB" 0 (some .ignoreDb),
    sbatLevelRow devel,
    ownVariable "MokListTrusted" "MokListTrustedRT"
      (mokMirrorDeleteFirst ||| mokVariableInverse ||| mokVariableLog) (some .trustMokList)]

def rowsAfterPolicy : List MokStateVariable :=
  { configOnly .shimLock "HSIStatus" with format := some .hsiStatus } ::
    (["AuditMode", "BootOrder", "BootCurrent", "BootNext", "Boot0000", "Boot0001", "Boot0002",
      "Boot0003", "Boot0004", "Boot0005", "Boot0006", "DeployedMode", "SecureBoot", "SetupMode",
      "SignatureSupport", "Timeout", "PK", "KEK"].map (configOnly .globalVariable) ++
    [configOnly .sigDb "db", configOnly .sigDb "dbx",
      configOnly .secureBootNamespace "Kernel_SkuSiStatus",
      { configOnly .shimLock "VariableInfo" with format := some .variableInfo }])

def mokStateVariableData (devel : Bool) : List MokStateVariable :=
  rowsBeforePolicy devel ++ mokPolicyRow :: rowsAfterPolicy

def hsiStatusHeapx : ℕ := 0x001

def hsiStatusStackx : ℕ := 0x002

def hsiStatusRow : ℕ := 0x004

def hsiStatusHasmap : ℕ := 0x008

def hsiStatusHasdst : ℕ := 0x010

def hsiStatusHasdstgmsd : ℕ := 0x020

def hsiStatusHasdstsmsa : ℕ := 0x040

def hsiStatusNx : ℕ := 0x100

inductive AllocSite where
  | inverse
  | format
  | fullData
  | addend
  | buildCert
  /-- The dummy entry of an empty key database. -/
  | dummy

abbrev Failure := { s : EfiStatus // s ≠ .success }

/-- In one walk a variable is read, deleted and written at most once; `none` is a service that
works. -/
structure ImportEnv where
  read : Bool → String → Option Failure
  /-- The size that a read that failed leaves behind. -/
  readLen : Bool → String → ℕ
  delete : Bool → String → Option Failure
  deleteRt : String → Option Failure
  setRt : String → Option Failure
  /-- `mirror_mok_db` for a name and the full data: its status and its writes, to the variable itself
  (`none`) or to a numbered one. -/
  mirrorMokDb : Bool → String → List UInt8 → EfiStatus × List (Option ℕ × Variable)
  tpmMeasureVariable : String → Option Failure
  tpmLogEvent : String → Option Failure
  alloc : Bool → String → AllocSite → Bool
  vendorAuthorized : List UInt8
  vendorAuthorizedCategory : AddendCategory
  vendorDeauthorized : List UInt8
  userCert : List UInt8
  /-- Empty in a build without `ENABLE_SHIM_CERT`. -/
  buildCert : List UInt8
  hsiStatus : ℕ
  /-- The buffer that `format_variable_info` fills. -/
  variableInfo : Bool → List UInt8

structure ImportState where
  vars : VarStore
  flags : StateFlag → UInt8

def isError (s : EfiStatus) : Bool := s ≠ .success

def deleteVariable (fails : Option Failure) (x : VarName) (vars : VarStore) :
    EfiStatus × VarStore :=
  match fails, vars x with
  | some status, _ => (status.1, vars)
  | none, none => (.notFound, vars)
  | none, some _ => (.success, Function.update vars x none)

def writeVariable (fails : Option Failure) (x : VarName) (new : Variable) (vars : VarStore) :
    EfiStatus × VarStore :=
  let w := setVariable (fails.map Subtype.val) (vars x) new
  (w.1, Function.update vars x w.2)

/-! ## The data of a row -/

def hsiBit (hsiStatus bit : ℕ) : List UInt8 := ofText (if hsiStatus &&& bit ≠ 0 then "1" else "0")

def formatHsiStatus (hsiStatus : ℕ) : List UInt8 :=
  ofText "heap-is-executable: " ++ hsiBit hsiStatus hsiStatusHeapx ++
    ofText "\nstack-is-executable: " ++ hsiBit hsiStatus hsiStatusStackx ++
    ofText "\nro-sections-are-writable: " ++ hsiBit hsiStatus hsiStatusRow ++
    ofText "\nhas-memory-attribute-protocol: " ++ hsiBit hsiStatus hsiStatusHasmap ++
    ofText "\nhas-dxe-services-table: " ++ hsiBit hsiStatus hsiStatusHasdst ++
    ofText "\nhas-get-memory-space-descriptor: " ++ hsiBit hsiStatus hsiStatusHasdstgmsd ++
    ofText "\nhas-set-memory-space-attributes: " ++ hsiBit hsiStatus hsiStatusHasdstsmsa ++
    ofText "\nshim-has-nx-compat-set: " ++ hsiBit hsiStatus hsiStatusNx ++ ofText "\n" ++ [0]

def ImportEnv.formatted (env : ImportEnv) (onlyFirst : Bool) : FormatHelper → List UInt8
  | .hsiStatus => formatHsiStatus env.hsiStatus
  | .variableInfo => env.variableInfo onlyFirst

def u32Bytes (n : ℕ) : List UInt8 := numberBytes 4 n

def eslStores (type : Guid) (sigSize needed : ℕ) (data : List UInt8) : List Write :=
  [⟨20, u32Bytes 0⟩, ⟨0, type⟩, ⟨24, u32Bytes sigSize⟩, ⟨16, u32Bytes needed⟩,
    ⟨sizeofSignatureList, data⟩]

/-- The checks of `fill_esl`, after which the product does not wrap; the size of the list, and what is
stored in it. -/
def fillEsl (type : Guid) (sigSize howmany : ℕ) (data : List UInt8) :
    Except EfiStatus (ℕ × List Write) := do
  reject (howmany = 0 ∨ sigSize = 0) EfiStatus.invalidParameter
  reject ((2 ^ 32 - 1 - sizeofSignatureList) / sigSize < howmany) EfiStatus.invalidParameter
  let needed := sizeofSignatureList + howmany * sigSize
  return (needed, eslStores type sigSize needed data)

def zeroPool : Mem := fun _ => 0

/-- The list that is in a buffer of its size then. -/
def variableCreateEsl (type : Guid) (sigSize howmany : ℕ) (data : List UInt8) :
    Except EfiStatus (List UInt8) :=
  (fillEsl type sigSize howmany data).map fun r => (zeroPool.writes r.2).slice 0 r.1

/-- The size of a signature, and what is stored in its buffer. -/
def oneSignature (owner : Option Guid) (data : List UInt8) : ℕ × List Write :=
  (sizeofSignatureData - 1 + data.length, (owner.map fun g => Write.mk 0 g).toList ++
    [⟨sizeofGuid, data⟩])

def fillEslWithOneSignature (type : Guid) (data : List UInt8) : Except EfiStatus (List UInt8) := do
  reject (2 ^ 32 - sizeofSignatureData < data.length) EfiStatus.invalidParameter
  let (sigSize, sd) := oneSignature (some shimLockGuid) data
  variableCreateEsl type sigSize 1 ((zeroPool.writes sd).slice 0 sigSize)

def ImportEnv.addend (env : ImportEnv) : Option Addend → AddendCategory × List UInt8
  | none => (.none, [])
  | some .authorized =>
    if env.vendorAuthorized = [] then (.none, [])
    else (env.vendorAuthorizedCategory, env.vendorAuthorized)
  | some .deauthorized =>
    if env.vendorDeauthorized = [] then (.none, []) else (.db, env.vendorDeauthorized)

def ImportEnv.shouldMirrorBuildCert (env : ImportEnv) (v : MokStateVariable) : Bool :=
  v.buildCert && env.buildCert ≠ []

/-- What is mirrored in front of the data of a key database: the vendor's addend, the build
certificate and the user's certificates. -/
def ImportEnv.keyData (env : ImportEnv) (v : MokStateVariable) : Except EfiStatus (List UInt8) :=
  if v.has mokMirrorKeydb then do
    let addend ← match env.addend v.addend with
      | (.db, data) => pure data
      | (.x509, data) => fillEslWithOneSignature certTypeX509Guid data
      | (.none, _) => pure []
    let build ←
      if env.shouldMirrorBuildCert v then fillEslWithOneSignature certTypeX509Guid env.buildCert
      else pure []
    return addend ++ build ++ if v.userCert then env.userCert else []
  else pure []

def ImportEnv.allocatesFull (env : ImportEnv) (onlyFirst : Bool) (v : MokStateVariable) : Bool :=
  env.alloc onlyFirst v.name .fullData &&
    ((env.addend v.addend).1 ≠ .x509 || env.alloc onlyFirst v.name .addend) &&
    (!env.shouldMirrorBuildCert v || env.alloc onlyFirst v.name .buildCert)

def dummyEntry : Except EfiStatus (List UInt8) :=
  fillEslWithOneSignature certSha256Guid (List.replicate 32 0)

def assembleFull (env : ImportEnv) (onlyFirst : Bool) (v : MokStateVariable) (keyData : List UInt8) :
    Except EfiStatus (VarData × MokStateVariable) :=
  if keyData ≠ [] then
    if env.allocatesFull onlyFirst v then .ok (.buf (keyData ++ v.data.bytes), v)
    else .error .outOfResources
  else if v.data.size ≠ 0 then .ok (v.data, { v with data := .null 0 })
  else if v.has mokMirrorKeydb then
    if env.alloc onlyFirst v.name .dummy then dummyEntry.map fun dummy => (.buf dummy, v)
    else .error .outOfResources
  else .ok (.null 0, v)

def numberedName (name : String) : Option ℕ → String
  | none => name
  | some i => name ++ toString i

def applyWrites (name : String) (guid : VendorGuid) (writes : List (Option ℕ × Variable))
    (vars : VarStore) : VarStore :=
  writes.foldl (fun vars w => Function.update vars ⟨numberedName name w.1, guid⟩ (some w.2)) vars

def publish (env : ImportEnv) (onlyFirst : Bool) (v : MokStateVariable) (full : List UInt8)
    (vars : VarStore) : EfiStatus × VarStore :=
  if v.has mokVariableConfigOnly then (.success, vars)
  else if v.has mokMirrorKeydb then
    let mirror := env.mirrorMokDb onlyFirst v.rtname full
    (mirror.1, applyWrites v.rtname v.guid mirror.2 vars)
  else if onlyFirst then
    writeVariable (env.setRt v.name) ⟨v.rtname, v.guid⟩
      ⟨full, variableBootserviceAccess ||| variableRuntimeAccess⟩ vars
  else (.success, vars)

/-- The status of the measurement replaces the one so far; an error of the log entry ends the
function with that one. -/
def measure (env : ImportEnv) (onlyFirst : Bool) (v : MokStateVariable) (status : EfiStatus) :
    Except EfiStatus EfiStatus :=
  if onlyFirst then do
    let status ←
      if v.has mokVariableMeasure then
        match env.tpmMeasureVariable v.name with
        | some e => .error e.1
        | none => .ok .success
      else .ok status
    if v.has mokVariableLog ∧ env.tpmLogEvent v.name ≠ none then .error status else .ok status
  else .ok status

/-- `FullData`, and the row without the data that has been taken over to it. -/
def fullData (env : ImportEnv) (onlyFirst : Bool) (v : MokStateVariable) :
    Except EfiStatus (VarData × MokStateVariable) :=
  env.keyData v >>= assembleFull env onlyFirst v

def mirrorOneMokVariable (env : ImportEnv) (onlyFirst : Bool) (v : MokStateVariable)
    (vars : VarStore) : EfiStatus × MokStateVariable × VarStore :=
  match fullData env onlyFirst v with
  | .error status => (status, v, vars)
  | .ok (full, left) =>
    if full.size = 0 then (.success, { left with data := full }, vars)
    else
      let p := publish env onlyFirst v full.bytes vars
      match measure env onlyFirst v p.1 with
      | .error status => (status, left, p.2)
      | .ok status => (status, { left with data := full }, p.2)

def keepViolation (ret status : EfiStatus) : EfiStatus :=
  if isError status ∧ ret ≠ .securityViolation then status else ret

def VarData.stateOver : VarData → UInt8 → UInt8
  | .buf [b], _ => b
  | _, old => old

def storeState (v : MokStateVariable) (flags : StateFlag → UInt8) : StateFlag → UInt8 :=
  match v.state with
  | some flag => Function.update flags flag (v.data.stateOver (flags flag))
  | none => flags

def maybeMirrorOneMokVariable (env : ImportEnv) (onlyFirst : Bool) (v : MokStateVariable)
    (ret : EfiStatus) (st : ImportState) : EfiStatus × MokStateVariable × ImportState :=
  let vars :=
    if onlyFirst ∧ v.has mokMirrorDeleteFirst then
      (deleteVariable (env.deleteRt v.name) ⟨v.rtname, v.guid⟩ st.vars).2
    else st.vars
  let m := mirrorOneMokVariable env onlyFirst v vars
  (keepViolation ret m.1, m.2.1, ⟨m.2.2, storeState m.2.1 st.flags⟩)

/-! ## Importing -/

def ImportEnv.getVariableAttr (env : ImportEnv) (onlyFirst : Bool) (v : MokStateVariable)
    (vars : VarStore) : Except EfiStatus Variable :=
  getVariable ((env.read onlyFirst v.name).map Subtype.val) (vars v.var)

def MokStateVariable.attributesOk (v : MokStateVariable) (attributes : ℕ) : Bool :=
  attributes &&& v.yesAttr ≠ 0 && attributes &&& v.noAttr = 0

def readOwn (env : ImportEnv) (onlyFirst : Bool) (v : MokStateVariable) (vars : VarStore) :
    Except EfiStatus (VarData × Bool) :=
  if v.data = .null 0 ∧ v.has mokVariableConfigOnly = false then
    match env.getVariableAttr onlyFirst v vars with
    | .error .notFound =>
      if v.has mokVariableInverse then
        if env.alloc onlyFirst v.name .inverse then .ok (.buf [1], false) else .error .outOfResources
      else .ok (.null 0, false)
    | .error _ => .ok (.null 0, true)
    | .ok x =>
      .ok (if v.has mokVariableInverse then .null 0 else .buf x.data, !v.attributesOk x.attributes)
  else .ok (v.data, false)

def formatRow (env : ImportEnv) (onlyFirst : Bool) (v : MokStateVariable) (data : VarData) :
    Except (EfiStatus × VarData) VarData :=
  match v.format with
  | none => .ok data
  | some helper =>
    let bytes := env.formatted onlyFirst helper
    if bytes = [] then .ok (.null 0)
    else if env.alloc onlyFirst v.name .format then .ok (.buf bytes)
    else .error (.outOfResources, .null bytes.length)

def readConfig (env : ImportEnv) (onlyFirst : Bool) (v : MokStateVariable) (data : VarData)
    (vars : VarStore) : Except (EfiStatus × VarData) VarData :=
  if data = .null 0 ∧ v.has mokVariableConfigOnly ∧ v.format.isNone then
    match env.getVariableAttr onlyFirst v vars with
    | .error .notFound => .ok (.null 0)
    | .error status => .error (status, .null (env.readLen onlyFirst v.name))
    | .ok x => .ok (.buf x.data)
  else .ok data

def deleteBad (env : ImportEnv) (onlyFirst : Bool) (v : MokStateVariable) (vars : VarStore) :
    EfiStatus × VarStore :=
  let d := deleteVariable (env.delete onlyFirst v.name) v.var vars
  (if isError d.1 then .securityViolation else .success, d.2)

/-- The row that is to be mirrored, and whether its variable is deleted before; or the status and the
row of an early return. -/
def handedOn (env : ImportEnv) (onlyFirst : Bool) (v : MokStateVariable) (vars : VarStore) :
    Except (EfiStatus × MokStateVariable) (MokStateVariable × Bool) :=
  match readOwn env onlyFirst v vars with
  | .error status => .error (status, v)
  | .ok (data, delete) =>
    match formatRow env onlyFirst v data >>= fun data => readConfig env onlyFirst v data vars with
    | .error (status, data) => .error (status, { v with data := data })
    | .ok data => .ok ({ v with data := if delete then .null 0 else data }, delete)

def importOneMokState (env : ImportEnv) (onlyFirst : Bool) (v : MokStateVariable)
    (st : ImportState) : EfiStatus × MokStateVariable × ImportState :=
  match handedOn env onlyFirst v st.vars with
  | .error (status, left) => (status, left, st)
  | .ok (row, delete) =>
    let d := if delete then deleteBad env onlyFirst v st.vars else (.success, st.vars)
    maybeMirrorOneMokVariable env onlyFirst row d.1 { st with vars := d.2 }

def importPass (env : ImportEnv) (onlyFirst : Bool) :
    List MokStateVariable → EfiStatus → ImportState →
      EfiStatus × List MokStateVariable × ImportState
  | [], ret, st => (ret, [], st)
  | v :: rows, ret, st =>
    let r := importOneMokState env onlyFirst v st
    let rest := importPass env onlyFirst rows (keepViolation ret r.1) r.2.2
    (rest.1, r.2.1 :: rest.2.1, rest.2.2)

def resetFlags (flags : StateFlag → UInt8) : StateFlag → UInt8
  | .mokPolicy => flags .mokPolicy
  | .userInsecureMode | .ignoreDb | .trustMokList => 0

/-- Both loops, from the globals that are reset first, with the status of the first. The
configuration table between them changes nothing here. -/
def importMokVariables (env : ImportEnv) (rows : List MokStateVariable) (st : ImportState) :
    EfiStatus × List MokStateVariable × ImportState :=
  let first := importPass env true rows .success { st with flags := resetFlags st.flags }
  let second := importPass env false first.2.1 .success first.2.2
  (first.1, second.2.1, second.2.2)

end Shim.Mok
