import Mathlib.Tactic

/-!
# Status codes and compile-time configuration

`EfiStatus` has the status codes the modelled functions return. `Platform` is what the
preprocessor and the running architecture fix for the PE loader.
-/

namespace Shim

/-- The `EFI_STATUS` codes. -/
inductive EfiStatus where
  | success
  | invalidParameter
  | unsupported
  | notFound
  | outOfResources
  | securityViolation
  | protocolError
  | bufferTooSmall
  | aborted
  | accessDenied
  | httpError
  | tftpError
  | loadError
  | badBufferSize
  | notReady
  | deviceError
  | timeout
  | noMedia
  | mediaChanged
  | incompatibleVersion
  | volumeFull
  deriving DecidableEq, Repr

lemma EfiStatus.none_ne_success : (none : Option EfiStatus) ≠ some .success := by decide

/-- What the build and the machine fix: the machine type, and whether 64-bit and 32-bit images may
run. -/
structure Platform where
  machineType : ℕ
  allow64Bit : Bool
  allow32Bit : Bool

/-- An x64 build, on which no 32-bit image may run. -/
def Platform.x64 : Platform where
  machineType := 0x8664
  allow64Bit := true
  allow32Bit := false

end Shim
