import Shim.Pe.Hash
import Shim.Verify.SigDb

/-!
# `verify_buffer_authenticode`

`VerifyEnv` is what the verdict depends on besides the image. The searches may fault, so all functions
are in `Except Fault`. (`verification_method`, which they set, is not part of the verdict.)
`certRound` is one round of the loop over the certificate table.
-/

namespace Shim.Verify

open Shim.Lib Shim.Pe

/-- A variable that cannot be read is `none`; a build without `VENDOR_DB_FILE` has no `vendorDb`,
one without `ENABLE_SHIM_CERT` or `VENDOR_CERT_FILE` an empty certificate. -/
structure VerifyEnv where
  crypto : Crypto
  sha256 : List UInt8 → List UInt8
  sha1 : List UInt8 → List UInt8
  resources : HashResources
  verbose : Bool
  ignoreDb : Bool
  vendorDeauthorized : SigDb
  vendorDb : Option SigDb
  db : Option SigDb
  dbx : Option SigDb
  mokListRT : Option SigDb
  mokListX : Option SigDb
  buildCert : List UInt8
  vendorCert : List UInt8

structure ImageHash where
  sha256 : List UInt8
  sha1 : List UInt8

def checkDbHash (db : Option SigDb) (data : List UInt8) (certType : Guid) :
    Except Fault CheckStatus :=
  match db with
  | none => .ok .varNotFound
  | some db => (checkDbHashInRam db data certType).out

def checkDbCert (e : VerifyEnv) (db : Option SigDb) (p7Data hash : List UInt8) :
    Except Fault CheckStatus :=
  match db with
  | none => .ok .varNotFound
  | some db => (checkDbCertInRam db e.crypto p7Data hash e.verbose).out

def anyFound : List (Except Fault CheckStatus) → Except Fault Bool
  | [] => .ok false
  | x :: xs => do
      if (← x) = .dataFound then return true
      else anyFound xs

def ifCert (cert : Option (List UInt8)) (check : List UInt8 → Except Fault CheckStatus) :
    List (Except Fault CheckStatus) :=
  match cert with
  | none => []
  | some p7Data => [check p7Data]

def checkDenylist (e : VerifyEnv) (cert : Option (List UInt8)) (h : ImageHash) :
    Except Fault EfiStatus := do
  let vendor := some e.vendorDeauthorized
  let found ← anyFound <|
    [checkDbHash vendor h.sha256 certSha256Guid, checkDbHash vendor h.sha1 certSha1Guid] ++
    ifCert cert (checkDbCert e vendor · h.sha256) ++
    [checkDbHash e.dbx h.sha256 certSha256Guid, checkDbHash e.dbx h.sha1 certSha1Guid] ++
    ifCert cert (checkDbCert e e.dbx · h.sha256) ++
    [checkDbHash e.mokListX h.sha256 certSha256Guid] ++
    ifCert cert (checkDbCert e e.mokListX · h.sha256)
  return if found then .securityViolation else .success

/-- `check_allowlist`: `db` unless it is ignored, the vendor's database if there is one, the list of
machine owner keys. -/
def checkAllowlist (e : VerifyEnv) (cert : Option (List UInt8)) (h : ImageHash) :
    Except Fault EfiStatus := do
  let db := if e.ignoreDb then [] else
    [checkDbHash e.db h.sha256 certSha256Guid, checkDbHash e.db h.sha1 certSha1Guid] ++
      ifCert cert (checkDbCert e e.db · h.sha256)
  let vendor :=
    match e.vendorDb with
    | none => []
    | some vendorDb => checkDbHash (some vendorDb) h.sha256 certSha256Guid ::
        ifCert cert (checkDbCert e (some vendorDb) · h.sha256)
  let found ← anyFound <| db ++ vendor ++ checkDbHash e.mokListRT h.sha256 certSha256Guid ::
      ifCert cert (checkDbCert e e.mokListRT · h.sha256)
  return if found then .success else .notFound

def VerifyEnv.verifiedBy (e : VerifyEnv) (cert p7Data hash : List UInt8) : Bool :=
  !cert.isEmpty && e.crypto.authenticodeVerify p7Data cert hash

def verifyOneSignature (e : VerifyEnv) (p7Data : List UInt8) (h : ImageHash) :
    Except Fault EfiStatus := do
  let deny ← checkDenylist e (some p7Data) h
  if deny ≠ .success then return deny
  else
    let allow ← checkAllowlist e (some p7Data) h
    if allow = .success then return .success
    else if e.verifiedBy e.buildCert p7Data h.sha256 then return .success
    else if e.verifiedBy e.vendorCert p7Data h.sha256 then return .success
    else return .notFound

def winCertTypePkcsSignedData : ℕ := 2

def afterLoop (ret : EfiStatus) : EfiStatus :=
  if ret = .success then .success else .securityViolation

/-- One round of the `do` loop, on `(offset, ret_efi_status)`. A `break`, a `return` and the end of
the loop leave with the status that is returned. -/
def certRound (e : VerifyEnv) (f : File) (c : Context) (h : ImageHash) (st : ℕ × EfiStatus) :
    Run Access Fault ((ℕ × EfiStatus) ⊕ EfiStatus) :=
  let size := f.dirSize c.secDir
  let sig := f.dirVirtualAddress c.secDir + st.1
  if imageAddress f.addr f.datasize sig = 0 then return .inr (afterLoop st.2)
  else if f.datasize < sig + 12 then return .inr .invalidParameter
  else if size < st.1 + 4 then return .inr .invalidParameter
  else do
    .emit (.read sig 4)
    let sz := f.mem.u32 sig
    if size - st.1 < sz then return .inr .invalidParameter
    else if sz < 8 then return .inr .invalidParameter
    else
      .emit (.read (sig + 6) 2)
      let ret ←
        if f.mem.u16 (sig + 6) = winCertTypePkcsSignedData then do
          .emit (.read (sig + 8) (sz - 8))
          let s ← .lift (verifyOneSignature e (f.mem.slice (sig + 8) (sz - 8)) h)
          -- a success is not clobbered by a later entry
          pure (if st.2 = .success then .success else s)
        else pure st.2
      let offset := alignUp 64 (st.1 + sz) 8
      if offset < size then return .inl (offset, ret) else return .inr (afterLoop ret)

def certLoop (e : VerifyEnv) (f : File) (c : Context) (h : ImageHash) : Except Fault EfiStatus := do
  match ← (Run.loop (certRound e f c h) (f.dirSize c.secDir + 1) (0, .notFound)).out with
  | some status => return status
  | none => .error .diverges

/-- The two digests of a stream. -/
def VerifyEnv.digest (e : VerifyEnv) (stream : List UInt8) : ImageHash :=
  ⟨e.sha256 stream, e.sha1 stream⟩

/-- What `verify_buffer_authenticode` does with the digests. -/
def hashVerdict (e : VerifyEnv) (f : File) (c : Context) (parentVerified : Bool) (h : ImageHash) :
    Except Fault EfiStatus := do
  let deny ← checkDenylist e none h
  if deny ≠ .success then return deny
  else if parentVerified then return .success
  else
    let allow ← checkAllowlist e none h
    if allow = .success then return .success
    else if f.dirSize c.secDir = 0 then return .securityViolation
    else if f.datasize < f.dirSize c.secDir + f.dirVirtualAddress c.secDir then
      return .invalidParameter
    else certLoop e f c h

/-- `verify_buffer_authenticode`. -/
def verifyBufferAuthenticode (e : VerifyEnv) (f : File) (c : Context) (parentVerified : Bool) :
    Except Fault EfiStatus :=
  -- `int datasize`
  if 2 ^ 31 ≤ f.datasize then return .invalidParameter
  else
    match generateHash e.resources f c with
    | .error status => return status
    | .ok input => hashVerdict e f c parentVerified (e.digest (input.stream f.mem))

end Shim.Verify
