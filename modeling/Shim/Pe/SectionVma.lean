import Shim.Lib.CStr
import Shim.Pe.Hash

/-!
# The range of a section

`get_section_vma` and `get_section_vma_by_name` return the address of a section in the image, and the
difference of the addresses of its last and first bytes. For a discardable section neither of the two
has to be in the image.
-/

namespace Shim.Pe

open Lib

section

variable (m : Mem) (buffer : ℕ) (c : Context)

end

variable {m : Mem} {buffer : ℕ} {c : Context}

end Shim.Pe
