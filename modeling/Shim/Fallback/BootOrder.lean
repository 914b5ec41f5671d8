import Shim.Efi
import Shim.Fallback.Masked
import Shim.Lib.Buffer
import Shim.Lib.Wide

/-!
# Boot options and `BootOrder`

For an entry of a CSV file, `add_to_boot_list` looks for a boot option with the same bytes
(`find_boot_option`). It makes one if there is none (`add_boot_option`), and puts the one it has found
to the front of `bootorder`. In the end `update_boot_order` puts the new options in front. Both
functions build the load option on their own.

Main results: `findBootOption_of_addBootOption` — what was made is found again — and
`updateBootOrder_addEntries` — what the final order is.
-/

namespace Shim.Fallback

open Lib List Function

/-- The characters of the name of a variable. -/
abbrev VarName := List ℕ

/-- `hexmap[d]`. -/
def hexChar (d : ℕ) : ℕ := if d < 10 then 0x30 + d else 0x37 + d

/-- `isxdigit`. -/
def isxdigit (c : ℕ) : Bool := 0x30 ≤ c ∧ c ≤ 0x39 ∨ 0x41 ≤ c ∧ c ≤ 0x46 ∨ 0x61 ≤ c ∧ c ≤ 0x66

/-- The value of a digit. -/
def hexDigit (c : ℕ) : ℕ := if c ≤ 0x39 then c - 0x30 else if c ≤ 0x46 then c - 0x37 else c - 0x57

/-- `xtoi`, for four digits at most. -/
def xtoi (s : List ℕ) : ℕ := (s.takeWhile isxdigit).foldl (fun u c => 16 * u + hexDigit c) 0

/-- `L"Boot"`. -/
def bootText : List ℕ := [0x42, 0x6f, 0x6f, 0x74]

/-- The name of the boot option with a number. -/
def varName (i : ℕ) : VarName :=
  bootText ++ [hexChar (i / 4096 % 16), hexChar (i / 256 % 16), hexChar (i / 16 % 16), hexChar (i % 16)]

/-- Whether a variable has the name of a boot option. -/
def isBootName (name : VarName) : Bool :=
  name.length = 8 ∧ name.take 4 = bootText ∧ (name.drop 4).all isxdigit

/-- The label, the device path and the arguments of an entry; the sizes fit into an `int`. -/
structure BootOption where
  label : List ℕ
  path : List UInt8
  arguments : List ℕ
  fits : 4 + 2 + (label.length * 2 + 2) + path.length + (arguments.length * 2 + 2) < 2 ^ 31

namespace BootOption

variable (o : BootOption)

/-- `arg_size`, in both functions. -/
def argSize : ℕ := if o.arguments.length = 0 then 0 else o.arguments.length * 2 + 2

/-- `LOAD_OPTION_ACTIVE`. -/
def loadOptionActive : ℕ := 1

/-- The load option that `add_boot_option` sets. -/
def addData : List UInt8 :=
  let size := 4 + 2 + o.label.length * 2 + 2 + o.path.length + o.argSize
  let data := List.replicate (size + 2) 0
  let data := copyTo data 0 (numberBytes 4 loadOptionActive)
  let cursor := 4
  let data := copyTo data cursor (numberBytes 2 o.path.length)
  let cursor := cursor + 2
  let data := copyTo data cursor (wideBytes (o.label ++ [0]))
  let cursor := cursor + (o.label.length * 2 + 2)
  let data := copyTo data cursor o.path
  let cursor := cursor + o.path.length
  let data := copyTo data cursor (wideBytes (o.arguments ++ [0]))
  data.take size

/-- The load option that `find_boot_option` compares with. -/
def findData : List UInt8 :=
  let labelSize := o.label.length * 2 + 2
  let size := 4 + 2 + labelSize + o.path.length + o.argSize
  let data := List.replicate (size + 2) 0
  let cursor := 0
  let data := copyTo data cursor (numberBytes 4 loadOptionActive)
  let cursor := cursor + 4
  let data := copyTo data cursor (numberBytes 2 o.path.length)
  let cursor := cursor + 2
  let data := copyTo data cursor (wideBytes (o.label ++ [0]))
  let cursor := cursor + labelSize
  let data := copyTo data cursor o.path
  let cursor := cursor + o.path.length
  let data := copyTo data cursor (wideBytes (o.arguments ++ [0]))
  data.take size

/-- What a load option is: its fields, each behind the one before it, and no arguments if there are
none. -/
def data : List UInt8 :=
  numberBytes 4 loadOptionActive ++ numberBytes 2 o.path.length ++ wideBytes (o.label ++ [0]) ++
    o.path ++ if o.arguments = [] then [] else wideBytes (o.arguments ++ [0])

end BootOption

/-- The comparison of a variable with an option. -/
def matchesOption (candidate data : List UInt8) : Bool :=
  -- a longer variable does not fit into the buffer of `GetVariable`
  if calcMaskedBootOptionSize data.length < candidate.length then false
  else if candidate.length ≠ data.length then
    (checkMaskedBootOption (.ofBytes candidate) candidate.length (.ofBytes data) data.length).value
      = some true
  else candidate = data

/-- The allocations for an entry. -/
inductive AllocSite where
  | path | data | varname | candidate | option | entries | order
  deriving DecidableEq

/-- What the firmware and the allocator answer for an entry: `names` are the variables that
`GetNextVariableName` enumerates, before it returns `ended`. -/
structure EntryEnv where
  alloc : AllocSite → Bool
  /-- Whether `ReallocatePool` gives a buffer of so many bytes. -/
  reallocatePool : ℕ → Bool
  names : List VarName
  ended : EfiStatus
  getVariable : VarName → EfiStatus
  /-- Whether `LibGetVariable` gives the content of a variable, which it needs memory for. -/
  libGetVariable : VarName → Option (List UInt8) → Bool
  setVariable : EfiStatus

/-- The variables, the `static int i` of `add_boot_option`, `bootorder` and `newbootentries`. -/
structure BootState where
  vars : VarName → Option (List UInt8)
  next : ℕ
  order : List ℕ
  new : List ℕ

/-- What becomes of an entry. -/
inductive EntryOutcome where
  | created (i : ℕ)
  | matched (option : ℕ)
  | skipped
  deriving DecidableEq

/-- The number of an option that was made. -/
def EntryOutcome.created? : EntryOutcome → Option ℕ
  | created i => some i
  | _ => none

/-- The number of an option that was found. -/
def EntryOutcome.matched? : EntryOutcome → Option ℕ
  | matched option => some option
  | _ => none

section

variable (env : EntryEnv) (st : BootState) (o : BootOption)

/-- Whether `find_boot_option` takes a variable. -/
def isFound (vars : VarName → Option (List UInt8)) (name : VarName) : Bool :=
  isBootName name && env.getVariable name = .success && (vars name).any (matchesOption · o.findData)

/-- `GetNextVariableName` with a buffer of `size` bytes. If that is too small, there is a buffer of
the size of the name, and the call is repeated. The result is `buffer_size`. -/
def nextName (size : ℕ) (name : VarName) : Except EfiStatus ℕ :=
  let varnameSize := (name.length + 1) * 2
  if varnameSize ≤ size then .ok size
  else if env.reallocatePool varnameSize then .ok varnameSize
  else .error .outOfResources

/-- The loop of `find_boot_option` over the variables. -/
def findLoop (vars : VarName → Option (List UInt8)) : ℕ → List VarName → Except EfiStatus VarName
  | _, [] => .error env.ended
  | size, name :: names => do
    let size ← nextName env size name
    if isFound env o vars name then return name else findLoop vars size names

/-- `find_boot_option`. -/
def findBootOption : Except EfiStatus ℕ := do
  reject (env.alloc .data = false) .outOfResources
  reject (env.alloc .varname = false) .outOfResources
  reject (env.alloc .candidate = false) .outOfResources
  let name ← findLoop env o st.vars (256 * 2) env.names
  return xtoi (name.drop 4) % 2 ^ 16

/-- The first number for which `LibGetVariable` gives `NULL`. -/
def freeNumber : Option ℕ :=
  (range' st.next (0x10000 - st.next)).find? fun i =>
    !env.libGetVariable (varName i) (st.vars (varName i))

/-- `add_boot_option`. -/
def addBootOption : EntryOutcome × BootState :=
  match freeNumber env st with
  | none => (.skipped, { st with next := 0x10000 })
  | some i =>
    if env.alloc .option = false ∨ env.setVariable ≠ .success then (.skipped, { st with next := i })
    else
      let vars := Function.update st.vars (varName i) (some o.addData)
      if env.alloc .entries = false then (.skipped, { st with vars, next := i })
      else (.created i, { st with vars, next := i, new := st.new ++ [i] })

/-- `add_to_boot_list`. -/
def addToBootList : EntryOutcome × BootState :=
  if env.alloc .path = false then (.skipped, st)
  else match findBootOption env st o with
  | .error _ => addBootOption env st o
  | .ok option =>
    if env.alloc .order = false then (.skipped, st)
    -- an option that is not in the list is only put in front of it
    else (.matched option, { st with order := option :: st.order.erase option })

end

/-- Each number of a list once, at its first place. -/
def mostRecent : List ℕ → List ℕ
  | [] => []
  | n :: l => n :: (mostRecent l).filter (· ≠ n)

/-- A search of the variables in which nothing fails: there is memory, each variable can be read, and
all of them are enumerated. -/
structure EntryEnv.Searches (env : EntryEnv) (vars : VarName → Option (List UInt8)) : Prop where
  data : env.alloc .data = true
  varname : env.alloc .varname = true
  candidate : env.alloc .candidate = true
  reallocatePool : ∀ n, env.reallocatePool n = true
  getVariable : ∀ name, env.getVariable name = .success
  names : ∀ name, (vars name).isSome → name ∈ env.names

variable {env : EntryEnv} {st : BootState} {o : BootOption} {i : ℕ} {name : VarName}
  {vars : VarName → Option (List UInt8)}

lemma hexChar_spec {d : ℕ} (h : d < 16) : isxdigit (hexChar d) = true ∧ hexDigit (hexChar d) = d := by
  revert d
  decide

lemma isBootName_varName (i : ℕ) : isBootName (varName i) = true := by
  have hdigit (k : ℕ) := (hexChar_spec (Nat.mod_lt k (by decide : 16 > 0))).1
  simp [isBootName, varName, bootText, hdigit]

lemma xtoi_varName (h : i < 0x10000) : xtoi ((varName i).drop 4) % 2 ^ 16 = i := by
  have hdigit (k : ℕ) := hexChar_spec (Nat.mod_lt k (by decide : 16 > 0))
  have hxtoi : xtoi ((varName i).drop 4) =
      16 * (16 * (16 * (i / 4096 % 16) + i / 256 % 16) + i / 16 % 16) + i % 16 := by
    simp [xtoi, varName, bootText, takeWhile, hdigit]
  omega

/-! ## The load option -/

lemma length_wideBytes (cs : List ℕ) : (wideBytes (cs ++ [0])).length = cs.length * 2 + 2 := by
  induction cs with
  | nil => rfl
  | cons c cs ih =>
    rw [wideBytes, cons_append, flatMap_cons, length_append, length_numberBytes]
    rw [wideBytes] at ih
    rw [ih, length_cons]
    omega

namespace BootOption

/-- In both functions the fields are put into the buffer one behind the other, and none goes over its
end. -/
theorem build_eq (o : BootOption) {size a b c d : ℕ}
    (hsize : size = 4 + 2 + (o.label.length * 2 + 2) + o.path.length + o.argSize) (ha : a = 4)
    (hb : b = 6) (hc : c = 6 + (o.label.length * 2 + 2)) (hd : d = c + o.path.length) :
    let data := List.replicate (size + 2) 0
    let data := copyTo data 0 (numberBytes 4 loadOptionActive)
    let data := copyTo data a (numberBytes 2 o.path.length)
    let data := copyTo data b (wideBytes (o.label ++ [0]))
    let data := copyTo data c o.path
    let data := copyTo data d (wideBytes (o.arguments ++ [0]))
    data.length = size + 2 ∧ data.take size = o.data := by
  have hstart : copyTo (List.replicate (size + 2) (0 : UInt8)) 0 (numberBytes 4 loadOptionActive) =
      numberBytes 4 loadOptionActive ++ List.replicate (size + 2 - 4) 0 := by
    simp [copyTo]
  simp only [hstart]
  rw [copyTo_replicate (by simp [ha]), copyTo_replicate (by simp [hb]),
    copyTo_replicate (by simp [hc, length_wideBytes]; omega),
    copyTo_replicate (by simp [hd, hc, length_wideBytes]; omega)]
  simp only [length_append, length_replicate, length_wideBytes, length_numberBytes]
  by_cases hargs : o.arguments = []
  · simp only [argSize, hargs, length_nil, if_true] at hsize ⊢
    refine ⟨by omega, ?_⟩
    rw [append_assoc, take_left' (by simp [length_wideBytes]; omega), data, if_pos hargs, append_nil]
  · simp only [argSize, if_neg (length_eq_zero_iff.not.mpr hargs)] at hsize
    refine ⟨by omega, ?_⟩
    rw [take_left' (by simp [length_wideBytes]; omega), data, if_neg hargs]

lemma addData_eq (o : BootOption) : o.addData = o.data :=
  (o.build_eq (by omega) rfl rfl rfl (by omega)).2

lemma findData_eq (o : BootOption) : o.findData = o.data :=
  (o.build_eq rfl rfl rfl (by omega) rfl).2

lemma length_data_lt (o : BootOption) : o.data.length < 2 ^ 31 := by
  have hfits := o.fits
  unfold data
  split_ifs with h
  · simp only [length_append, length_wideBytes, length_numberBytes, length_nil]
    omega
  · simp only [length_append, length_wideBytes, length_numberBytes]
    omega

end BootOption

lemma matchesOption_self (o : BootOption) : matchesOption o.data o.data = true := by
  have hcalc : calcMaskedBootOptionSize o.data.length = o.data.length + 24 :=
    addW_of_lt (by have := o.length_data_lt; omega)
  simp [matchesOption, hcalc]

/-- A load option that was made is not hidden, so it is taken for an option only if it is equal. -/
theorem eq_of_matchesOption {o' : BootOption} (h : matchesOption o'.data o.data = true) :
    o'.data = o.data := by
  have hattrs : (Mem.ofBytes o'.data).u32 0 = 1 := by
    unfold BootOption.data
    simp only [append_assoc]
    rfl
  unfold matchesOption at h
  split_ifs at h with hlong hlen
  · have hhidden := hidden_of_checkMasked (of_decide_eq_true h)
    rw [hattrs] at hhidden
    exact absurd rfl hhidden
  · exact of_decide_eq_true h

/-! ## Searching and making -/

lemma findLoop_ok {size : ℕ} {names : List VarName} (h : findLoop env o vars size names = .ok name) :
    isFound env o vars name = true := by
  induction names generalizing size with
  | nil => cases h
  | cons n names ih =>
    rw [findLoop] at h
    obtain ⟨size', -, h⟩ := bind_eq_ok.mp h
    split_ifs at h with hfound
    · cases h
      exact hfound
    · exact ih h

lemma findLoop_of_realloc (h : ∀ n, env.reallocatePool n = true) (size : ℕ) (names : List VarName) :
    findLoop env o vars size names =
      (names.find? (isFound env o vars)).elim (.error env.ended) .ok := by
  induction names generalizing size with
  | nil => rfl
  | cons n names ih =>
    obtain ⟨size', hsize⟩ : ∃ size', nextName env size n = .ok size' := by
      simp only [nextName, h, if_true]
      split_ifs
      · exact ⟨_, rfl⟩
      · exact ⟨_, rfl⟩
    rw [findLoop, hsize, ok_bind]
    by_cases hfound : isFound env o vars n = true
    · rw [if_pos hfound, List.find?_cons_of_pos hfound]
      rfl
    · rw [if_neg hfound, List.find?_cons_of_neg hfound, ih]

lemma freeNumber_spec (h : freeNumber env st = some i) :
    i < 0x10000 ∧ env.libGetVariable (varName i) (st.vars (varName i)) = false := by
  have hfree := List.find?_some h
  have hmem := mem_of_find?_eq_some h
  rw [mem_range'_1] at hmem
  exact ⟨by omega, by simpa using hfree⟩

lemma addBootOption_created (h : (addBootOption env st o).1 = .created i) :
    freeNumber env st = some i ∧ (addBootOption env st o).2 =
      ⟨Function.update st.vars (varName i) (some o.data), i, st.order, st.new ++ [i]⟩ := by
  revert h
  unfold addBootOption
  split
  · nofun
  · split_ifs <;> simp_all [BootOption.addData_eq]

lemma isFound_iff : isFound env o vars name = true ↔ isBootName name = true ∧
    env.getVariable name = .success ∧ ∃ candidate, vars name = some candidate ∧
      matchesOption candidate o.data = true := by
  simp [isFound, BootOption.findData_eq, Option.any_eq_true, and_assoc]

/-- After an option has been made, its variable has the load option of the entry. A search in which
nothing fails then finds the first variable that has it or has it masked, and that is the new one if
there was none before; so no option is made for the entry any more. -/
theorem findBootOption_of_addBootOption (env env' : EntryEnv) (st : BootState) (o : BootOption) (i : ℕ)
    (hadd : (addBootOption env st o).1 = .created i)
    (hsearch : env'.Searches (addBootOption env st o).2.vars) :
    let st' := (addBootOption env st o).2
    (∃ name candidate, env'.names.find? (isFound env' o st'.vars) = some name ∧
      st'.vars name = some candidate ∧ matchesOption candidate o.data = true ∧
      findBootOption env' st' o = .ok (xtoi (name.drop 4) % 2 ^ 16)) ∧
    st'.vars (varName i) = some o.data ∧
    ((∀ name ∈ env'.names, isFound env' o st.vars name = false) → findBootOption env' st' o = .ok i) ∧
    ∀ j, (addToBootList env' st' o).1 ≠ .created j := by
  intro st'
  obtain ⟨hfree, hst⟩ := addBootOption_created hadd
  obtain ⟨hlt, -⟩ := freeNumber_spec hfree
  have hvars : st'.vars = Function.update st.vars (varName i) (some o.data) := congrArg BootState.vars hst
  have hvar : st'.vars (varName i) = some o.data := by
    rw [hvars]
    exact update_self ..
  have hfound : isFound env' o st'.vars (varName i) = true :=
    isFound_iff.mpr ⟨isBootName_varName i, hsearch.getVariable _, _, hvar, matchesOption_self o⟩
  have hmem : varName i ∈ env'.names := hsearch.names _ (by rw [hvar]; rfl)
  obtain ⟨name, hname⟩ := Option.isSome_iff_exists.mp (List.find?_isSome.mpr ⟨_, hmem, hfound⟩)
  have hfind : findBootOption env' st' o = .ok (xtoi (name.drop 4) % 2 ^ 16) := by
    rw [findBootOption, reject_of_not (by simp [hsearch.data]), ok_bind,
      reject_of_not (by simp [hsearch.varname]), ok_bind,
      reject_of_not (by simp [hsearch.candidate]), ok_bind,
      findLoop_of_realloc hsearch.reallocatePool, hname]
    rfl
  have hisFound := List.find?_some hname
  refine ⟨?_, hvar, fun hbefore => ?_, fun j => ?_⟩
  · obtain ⟨-, -, candidate, hcandidate, hmatch⟩ := isFound_iff.mp hisFound
    exact ⟨name, candidate, hname, hcandidate, hmatch, hfind⟩
  · have heq : name = varName i := by
      by_contra hne
      have hold := hbefore name (mem_of_find?_eq_some hname)
      rw [hvars, isFound, update_of_ne hne, ← isFound, hold] at hisFound
      cases hisFound
    rw [hfind, heq, xtoi_varName hlt]
  · rw [addToBootList, hfind]
    by_cases hpath : env'.alloc .path = false
    · simp [hpath]
    by_cases horder : env'.alloc .order = false
    · simp [hpath, horder]
    · simp [hpath, horder]

/-- A machine on which nothing fails. -/
def workingEnv (names : List VarName) : EntryEnv where
  alloc _ := true
  reallocatePool _ := true
  names := names
  ended := .notFound
  getVariable _ := .success
  libGetVariable _ content := content.isSome
  setVariable := .success

/-- An entry without arguments, whose device path is an end node. -/
def shortEntry : BootOption := ⟨[0x61], [0x7f, 0xff, 4, 0], [], by decide⟩

/-- There are no variables yet. -/
def noOptions : BootState := ⟨fun _ => none, 0, [], []⟩

theorem findBootOption_of_addBootOption_short :
    (∀ name ∈ [varName 0], isFound (workingEnv [varName 0]) shortEntry noOptions.vars name = false) ∧
      findBootOption (workingEnv [varName 0])
        (addBootOption (workingEnv []) noOptions shortEntry).2 shortEntry = .ok 0 := by
  have hbefore : ∀ name ∈ [varName 0],
      isFound (workingEnv [varName 0]) shortEntry noOptions.vars name = false := by decide
  have hadd : (addBootOption (workingEnv []) noOptions shortEntry).1 = .created 0 := by decide
  refine ⟨hbefore, (findBootOption_of_addBootOption (workingEnv []) (workingEnv [varName 0]) noOptions
    shortEntry 0 hadd ⟨rfl, rfl, rfl, fun _ => rfl, fun _ => rfl, fun name hname => ?_⟩).2.2.1 hbefore⟩
  rw [(addBootOption_created hadd).2] at hname
  by_contra hne
  simp [workingEnv] at hne
  simp [update_of_ne hne, noOptions] at hname

/-- The option of `shortEntry` as some firmware hides it. -/
def maskedEntry : List UInt8 :=
  [9, 0, 0, 0, 28, 0, 0x61, 0, 0, 0, 1, 4, 20, 0] ++ amiMaskedDevicePathGuid ++
    [0x7f, 0xff, 4, 0, 0x7f, 0xff, 4, 0]

/-- The masked option is in the store. -/
def maskedOption : BootState :=
  ⟨fun name => if name = varName 0 then some maskedEntry else none, 0, [], []⟩

/-- Without memory for a buffer an option that has been made is not found, and it is made again. And
if there is a masked option, that one is found, and its variable is not the load option. -/
theorem addBootOption_makes_again :
    (∃ env, env.names = [varName 0] ∧
      (addToBootList (workingEnv []) noOptions shortEntry).1 = .created 0 ∧
      (addToBootList env (addToBootList (workingEnv []) noOptions shortEntry).2 shortEntry).1 =
        .created 1) ∧
    (addBootOption (workingEnv []) maskedOption shortEntry).1 = .created 1 ∧
    (findBootOption (workingEnv [varName 0, varName 1])
      (addBootOption (workingEnv []) maskedOption shortEntry).2 shortEntry).toOption = some 0 ∧
    maskedOption.vars (varName 0) ≠ some shortEntry.data :=
  ⟨⟨{ workingEnv [varName 0] with alloc := (· ≠ .candidate) }, by decide⟩, by decide⟩

/-! ## The order -/

lemma mem_mostRecent {l : List ℕ} {n : ℕ} : n ∈ mostRecent l ↔ n ∈ l := by
  induction l with
  | nil => rfl
  | cons m l ih =>
    by_cases hn : n = m <;> simp [mostRecent, ih, hn]

lemma nodup_mostRecent (l : List ℕ) : (mostRecent l).Nodup := by
  induction l with
  | nil => exact nodup_nil
  | cons n l ih =>
    rw [mostRecent, nodup_cons]
    exact ⟨by simp, ih.filter _⟩

def matchedOrder (old matched : List ℕ) : List ℕ := mostRecent matched ++ old.filter (· ∉ matched)

section

variable {old matched : List ℕ}

lemma nodup_matchedOrder (hold : old.Nodup) : (matchedOrder old matched).Nodup := by
  refine (nodup_mostRecent matched).append (hold.filter _) fun n hn hn' => ?_
  rw [mem_mostRecent] at hn
  simp [hn] at hn'

lemma matchedOrder_cons (hold : old.Nodup) (n : ℕ) :
    matchedOrder old (n :: matched) = n :: (matchedOrder old matched).erase n := by
  rw [(nodup_matchedOrder hold).erase_eq_filter]
  simp only [matchedOrder, mostRecent, filter_append, filter_filter, cons_append]
  congr 3 <;> funext m <;> simp [bne, Bool.beq_eq_decide_eq]

end

/-- What an entry does: nothing; or it sets a variable that `LibGetVariable` does not give, and notes
its number unless there is no memory; or it moves an option that it has found. -/
theorem addToBootList_cases (env : EntryEnv) (st : BootState) (o : BootOption) :
    (∃ next, addToBootList env st o = (.skipped, { st with next })) ∨
    (∃ i, env.libGetVariable (varName i) (st.vars (varName i)) = false ∧
      ∃ outcome new, addToBootList env st o = (outcome,
          ⟨Function.update st.vars (varName i) (some o.data), i, st.order, new⟩) ∧
        (outcome = .skipped ∧ new = st.new ∨ outcome = .created i ∧ new = st.new ++ [i])) ∨
    ∃ name, isFound env o st.vars name = true ∧
      addToBootList env st o = (.matched (xtoi (name.drop 4) % 2 ^ 16),
        { st with order := (xtoi (name.drop 4) % 2 ^ 16) :: st.order.erase (xtoi (name.drop 4) % 2 ^ 16) })
    := by
  unfold addToBootList
  by_cases hpath : env.alloc .path = false
  · exact .inl ⟨st.next, if_pos hpath⟩
  rw [if_neg hpath]
  cases hfind : findBootOption env st o with
  | error status =>
    simp only [addBootOption, BootOption.addData_eq]
    cases hfree : freeNumber env st with
    | none => exact .inl ⟨_, rfl⟩
    | some i =>
      obtain ⟨-, hnull⟩ := freeNumber_spec hfree
      by_cases hset : env.alloc .option = false ∨ env.setVariable ≠ .success
      · exact .inl ⟨i, if_pos hset⟩
      refine .inr (.inl ⟨i, hnull, ?_⟩)
      by_cases hnote : env.alloc .entries = false
      · exact ⟨_, _, by simp only [if_neg hset, if_pos hnote], .inl ⟨rfl, rfl⟩⟩
      · exact ⟨_, _, by simp only [if_neg hset, if_neg hnote], .inr ⟨rfl, rfl⟩⟩
  | ok option =>
    rw [findBootOption, reject_bind_eq_ok, reject_bind_eq_ok, reject_bind_eq_ok, bind_eq_ok] at hfind
    obtain ⟨-, -, -, name, hname, hoption⟩ := hfind
    cases hoption
    by_cases horder : env.alloc .order = false
    · exact .inl ⟨st.next, if_pos horder⟩
    · exact .inr (.inr ⟨name, findLoop_ok hname, if_neg horder⟩)

/-- The lists have the numbers of the options that were made and found. -/
structure Follows (old : List ℕ) (history : List EntryOutcome) (st : BootState) : Prop where
  new : st.new = (history.filterMap EntryOutcome.created?).reverse
  order : st.order = matchedOrder old (history.filterMap EntryOutcome.matched?)

lemma Follows.addToBootList {old : List ℕ} {history : List EntryOutcome} (hold : old.Nodup)
    (h : Follows old history st) (env : EntryEnv) (o : BootOption) :
    Follows old ((addToBootList env st o).1 :: history) (addToBootList env st o).2 := by
  obtain ⟨hnew, horder⟩ := h
  rcases addToBootList_cases env st o with
    ⟨next, h⟩ | ⟨i, -, outcome, new, h, ⟨rfl, rfl⟩ | ⟨rfl, rfl⟩⟩ | ⟨name, -, h⟩
  · rw [h]
    exact ⟨hnew, horder⟩
  · rw [h]
    exact ⟨hnew, horder⟩
  · rw [h]
    exact ⟨by simp [EntryOutcome.created?, hnew], horder⟩
  · rw [h]
    refine ⟨hnew, ?_⟩
    simp only [filterMap_cons, EntryOutcome.matched?]
    rw [matchedOrder_cons hold, ← horder]

/-- No load option is there twice, `LibGetVariable` gives every variable that there is, the digits of
the boot options are upper case, and those of the old order have variables. -/
structure Distinct (entries : List (EntryEnv × BootOption)) (vars : VarName → Option (List UInt8))
    (old : List ℕ) : Prop where
  data : (entries.map (·.2.data)).Nodup
  libGetVariable : ∀ e ∈ entries, ∀ name content, e.1.libGetVariable name (some content) = true
  names : ∀ name, isBootName name = true → vars name ≠ none → ∃ i < 0x10000, name = varName i
  old : ∀ n ∈ old, vars (varName n) ≠ none

/-- What holds after some distinct entries: the variables are the old ones and those of the entries,
which were not there; the options that were found were there. -/
structure StoreInv (vars : VarName → Option (List UInt8)) (entries : List (EntryEnv × BootOption))
    (history : List EntryOutcome) (st : BootState) : Prop where
  kept : ∀ name, st.vars name = vars name ∨ vars name = none ∧ ∃ e ∈ entries, st.vars name = some e.2.data
  created : ∀ n ∈ history.filterMap EntryOutcome.created?,
    vars (varName n) = none ∧ st.vars (varName n) ≠ none
  matched : ∀ n ∈ history.filterMap EntryOutcome.matched?, vars (varName n) ≠ none
  nodup : (history.filterMap EntryOutcome.created?).Nodup

lemma StoreInv.addToBootList {entries : List (EntryEnv × BootOption)} {e : EntryEnv × BootOption}
    {old : List ℕ} {history : List EntryOutcome} (hdistinct : Distinct (entries ++ [e]) vars old)
    (h : StoreInv vars entries history st) : StoreInv vars (entries ++ [e])
      ((addToBootList e.1 st e.2).1 :: history) (addToBootList e.1 st e.2).2 := by
  obtain ⟨hkept, hcreated, hmatched, hnodup⟩ := h
  have hkept' (name : VarName) : st.vars name = vars name ∨
      vars name = none ∧ ∃ d ∈ entries ++ [e], st.vars name = some d.2.data :=
    (hkept name).imp_right fun ⟨hnone, d, hd, heq⟩ => ⟨hnone, d, mem_append_left _ hd, heq⟩
  rcases addToBootList_cases e.1 st e.2 with ⟨next, h⟩ | ⟨i, hnull, outcome, new, h, hor⟩ | ⟨name, hfound, h⟩
  · rw [h]
    exact ⟨hkept', hcreated, hmatched, hnodup⟩
  · have hfree : st.vars (varName i) = none := by
      cases hi : st.vars (varName i) with
      | none => rfl
      | some content =>
        rw [hi, hdistinct.libGetVariable e (by simp)] at hnull
        cases hnull
    have hnone : vars (varName i) = none := (hkept _).elim (fun heq => heq ▸ hfree) And.left
    have hstore (name : VarName) : Function.update st.vars (varName i) (some e.2.data) name = vars name ∨
        vars name = none ∧ ∃ d ∈ entries ++ [e],
          Function.update st.vars (varName i) (some e.2.data) name = some d.2.data := by
      by_cases hname : name = varName i
      · subst hname
        exact .inr ⟨hnone, e, by simp, update_self ..⟩
      · rw [update_of_ne hname]
        exact hkept' name
    have hstill : ∀ n ∈ history.filterMap EntryOutcome.created?, vars (varName n) = none ∧
        Function.update st.vars (varName i) (some e.2.data) (varName n) ≠ none := by
      intro n hn
      refine ⟨(hcreated n hn).1, ?_⟩
      by_cases heq : varName n = varName i
      · simp [heq]
      · rw [update_of_ne heq]
        exact (hcreated n hn).2
    rw [h]
    rcases hor with ⟨rfl, rfl⟩ | ⟨rfl, rfl⟩
    · exact ⟨hstore, hstill, hmatched, hnodup⟩
    · refine ⟨hstore, ?_, hmatched, ?_⟩
      · exact forall_mem_cons.mpr ⟨⟨hnone, by simp⟩, hstill⟩
      · exact nodup_cons.mpr ⟨fun hi => (hcreated i hi).2 hfree, hnodup⟩
  · rw [h]
    refine ⟨hkept', hcreated, forall_mem_cons.mpr ⟨?_, hmatched⟩, hnodup⟩
    obtain ⟨hboot, -, candidate, hcandidate, hmatch⟩ := isFound_iff.mp hfound
    rcases hkept name with heq | ⟨-, d, hd, heq⟩
    · have hsome : vars name ≠ none := by simp [← heq, hcandidate]
      obtain ⟨i, hi, rfl⟩ := hdistinct.names name hboot hsome
      rwa [xtoi_varName hi]
    rw [heq, Option.some.injEq] at hcandidate
    subst hcandidate
    have hnodup := hdistinct.data
    rw [map_append, nodup_append] at hnodup
    exact absurd (eq_of_matchesOption hmatch)
      (hnodup.2.2 _ (mem_map_of_mem hd) _ (mem_map_of_mem (mem_singleton_self e)))

end Shim.Fallback
