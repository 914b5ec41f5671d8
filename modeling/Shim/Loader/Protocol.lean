import Shim.Boot
import Shim.Lib.Steps
import Shim.PagePermissions
import Shim.Pe.EntryPoint
import Shim.Pe.SectionCache

/-!
# The image loader protocol

`loader-proto.c` replaces `LoadImage`, `StartImage`, `UnloadImage` and `Exit` for the second stage.
Each image has a record (`SHIM_LOADED_IMAGE`), as a protocol on a handle that the firmware makes for
it, with the pages of the image and the `jmp_buf` of its `shim_start_image`.
-/

namespace Shim.Loader

open Lib Pe List Run

/-! ## `handle_image` and the section cache -/

/-- The allocations and digest calls of a `cache_section`, or of a round of
`validate_cached_section`, which has no array to allocate. -/
structure DigestCalls where
  array : Bool
  sum : Bool
  init : Bool
  update : Bool
  final : Bool

def DigestCalls.env (d : DigestCalls) (sha256 : List UInt8 → List UInt8) : Sha256Env :=
  ⟨d.sum, d.init, d.update, d.final, sha256⟩

def DigestCalls.status (d : DigestCalls) : EfiStatus :=
  (cacheSection d.array (d.env id) 0 [] [] .empty).1

/-- What `handle_image` depends on: the machine, the digest calls by row of the section table, and
the memory outside of the image. -/
structure ImageCall where
  machine : HandleEnv
  digests : ℕ → DigestCalls
  memory : Mem

def addressSpace (buffer size : ℕ) (img memory : Mem) : Mem := fun a =>
  if buffer ≤ a ∧ a < buffer + size then img (a - buffer) else memory a

section

variable (sha256 : List UInt8 → List UInt8)

def cacheRows (k : ImageCall) (parentVerified : Bool) (handle : ℕ) (f : File) (c : Context)
    (buffer : ℕ) (mem : Mem) : List ℕ → SectionCache → EfiStatus × SectionCache
  | [], cache => (.success, cache)
  | i :: rows, cache =>
    if (f.row c i).cached parentVerified then
      let r := cacheSection (k.digests i).array ((k.digests i).env sha256) handle (f.row c i).name
        (mem.slice ((f.row c i).base c buffer) (rawLength c buffer (f.row c i))) cache
      if r.1 ≠ .success then r else cacheRows k parentVerified handle f c buffer mem rows r.2
    else cacheRows k parentVerified handle f c buffer mem rows cache

namespace ImageCall

variable (k : ImageCall)

def env (parentVerified : Bool) : HandleEnv :=
  { k.machine with
    load :=
      { k.machine.load with
        parentVerified := parentVerified
        cacheSection := fun i => (k.digests i).status } }

/-- The section cache after `handle_image`: changed by the loop that sets the page attributes, and
flushed if the entry point is then refused. -/
def cacheAfter (parentVerified : Bool) (handle : ℕ) (f : File) (cache : SectionCache) :
    SectionCache :=
  match checkImage (k.env parentVerified) f with
  | .error _ => cache
  | .ok c =>
    match k.machine.load.allocatePages (allocPages c) with
    | none => cache
    | some addr =>
      let buffer := imageBuffer c addr
      match (prepareStage (k.env parentVerified).load f c buffer).out with
      | .error _ => cache
      | .ok (st, img) =>
        let r := cacheRows sha256 k parentVerified handle f c buffer
          (addressSpace buffer c.imageSize img k.memory) (List.range c.numberOfSections) cache
        if r.1 ≠ .success then r.2
        else if st.found = 1 then r.2
        else flushCachedSections handle r.2

/-- `*alloc_address`, `*alloc_pages` and `*alloc_alignment` after a call of `handle_image`, if they
were zero before. -/
def allocation (parentVerified : Bool) (f : File) : ℕ × ℕ × ℕ :=
  match checkImage (k.env parentVerified) f with
  | .error _ => (0, 0, 0)
  | .ok c => ((k.machine.load.allocatePages (allocPages c)).getD 0, allocPages c, allocAlignment c)

end ImageCall

end

structure ImageRecord where
  filePath : Bool
  devicePath : Bool
  allocAddress : ℕ
  allocPages : ℕ
  allocAlignment : ℕ
  exitStatus : EfiStatus
  exitDataSize : ℕ
  exitData : ℕ
  /-- `longjmp_buf`: the call of `shim_start_image` that has executed `setjmp` on it. -/
  longjmpBuf : Option ℕ
  started : Bool
  deriving DecidableEq

def ImageRecord.zero : ImageRecord := ⟨false, false, 0, 0, 0, .success, 0, 0, none, false⟩

structure Frame where
  id : ℕ
  handle : ℕ
  record : ℕ
  deriving DecidableEq

inductive PoolBlock where
  | image (record : ℕ)
  | filePath (record : ℕ)
  | devicePath (record : ℕ)
  | buffer
  deriving DecidableEq

inductive LoaderEvent where
  | load (e : LoadEvent)
  | freePool (b : PoolBlock)
  | longjmp (handle record : ℕ)
  deriving DecidableEq

structure Loaded where
  file : File
  context : Context
  image : LoadedImage

/-- Records are numbered as they are allocated, and keep their content when freed. `loaded` is not
part of the code's state. -/
structure LoaderState where
  records : ℕ → ImageRecord
  nextRecord : ℕ
  /-- The handles with the `SHIM_LOADED_IMAGE` protocol, and the record that it gives. -/
  installed : ℕ → Option ℕ
  /-- The calls of `shim_start_image` that run an image, the innermost one first. -/
  stack : List Frame
  nextFrame : ℕ
  cache : SectionCache
  loaded : ℕ → Option Loaded
  log : List LoaderEvent

def LoaderState.init : LoaderState where
  records := fun _ => .zero
  nextRecord := 0
  installed := fun _ => none
  stack := []
  nextFrame := 0
  cache := .empty
  loaded := fun _ => none
  log := []

namespace LoaderState

def emit (st : LoaderState) (events : List LoaderEvent) : LoaderState :=
  { st with log := st.log ++ events }

def setRecord (st : LoaderState) (r : ℕ) (image : ImageRecord) : LoaderState :=
  { st with records := Function.update st.records r image }

/-- `UninstallMultipleProtocolInterfaces` for a handle and a record: without an effect unless the
record is what is installed on the handle. -/
def uninstall (st : LoaderState) (handle r : ℕ) : LoaderState :=
  if st.installed handle = some r then
    { st with installed := Function.update st.installed handle none }
  else st

def freePagesAllocImage (st : LoaderState) (r : ℕ) : LoaderState :=
  let image := st.records r
  if image.allocAddress = 0 ∨ image.allocPages = 0 then st
  else
    (st.emit [ .load (.updateMemAttrs (alignUp 64 image.allocAddress image.allocAlignment)
        (image.allocPages * pageSize) (memAttrR + memAttrW) memAttrX),
      .load (.freePages image.allocAddress image.allocPages)]).setRecord r
        { image with allocAddress := 0, allocPages := 0 }

def freeFilePath (st : LoaderState) (r : ℕ) : LoaderState :=
  if (st.records r).filePath then st.emit [.freePool (.filePath r)] else st

def freeDevicePath (st : LoaderState) (r : ℕ) : LoaderState :=
  if (st.records r).devicePath then st.emit [.freePool (.devicePath r)] else st

end LoaderState

/-! ## `shim_load_image` -/

/-- `SourceBuffer` and `SourceSize`, both other than zero. `handle_image` gets the size as an
`unsigned int`. -/
structure Source where
  file : File
  size : ℕ
  size_pos : 0 < size
  datasize_eq : file.datasize = size % 2 ^ 32

def Source.bytes (s : Source) : List UInt8 := s.file.mem.slice 0 s.size

structure LoadCall where
  bootPolicy : Bool
  parentImageHandle : ℕ
  devicePath : Bool
  source : Option Source
  imageHandle : ℕ
  validates : ℕ → DigestCalls
  sfs : Option File
  lf2 : Option File
  allocImage : Bool
  duplicateFilePath : Bool
  duplicateDevicePath : Bool
  /-- `InstallMultipleProtocolInterfaces`: the new handle, or the error. -/
  install : Except EfiStatus ℕ
  image : ImageCall

structure Buffer where
  file : File
  parentVerified : Bool
  allocated : Bool

section

variable (sha256 : List UInt8 → List UInt8)

def LoadCall.buffer (k : LoadCall) (cache : SectionCache) : Except EfiStatus Buffer :=
  if k.bootPolicy then .error .unsupported
  else
    match k.source with
    | some s =>
      let status := validateCachedSection (fun i => (k.validates i).env sha256) k.parentImageHandle
        s.bytes cache
      if status = .success then .ok ⟨s.file, true, false⟩
      else if status ≠ .notFound then .error .loadError
      else .ok ⟨s.file, false, false⟩
    | none =>
      if k.devicePath = false then .error .notFound
      else
        match k.sfs with
        | some f => .ok ⟨f, false, true⟩
        | none =>
          match k.lf2 with
          | some f => .ok ⟨f, false, true⟩
          | none => .error .loadError

def LoaderState.freeBuffer (st : LoaderState) (b : Buffer) : LoaderState :=
  if b.allocated then st.emit [.freePool .buffer] else st

def LoaderState.freeImage (st : LoaderState) (r : ℕ) (b : Buffer) : LoaderState :=
  (((st.freeDevicePath r).freeFilePath r).emit [.freePool (.image r)]).freeBuffer b

def LoadCall.handled (k : LoadCall) (b : Buffer) (r handle : ℕ) (st : LoaderState) : LoaderState :=
  let alloc := k.image.allocation b.parentVerified b.file
  { st with
    records := Function.update st.records r { st.records r with
        allocAddress := alloc.1
        allocPages := alloc.2.1
        allocAlignment := alloc.2.2 }
    cache := k.image.cacheAfter sha256 b.parentVerified handle b.file st.cache
    log := st.log ++ (handleImage (k.image.env b.parentVerified) b.file).trace.map .load }

/-- From `handle_image` on. `free_alloc` hands the address of the caller's variable to the firmware,
not the handle in it. -/
def LoadCall.handle (k : LoadCall) (b : Buffer) (r handle : ℕ) (st : LoaderState) :
    Option (EfiStatus × LoaderState) :=
  let st := k.handled sha256 b r handle st
  match (handleImage (k.image.env b.parentVerified) b.file).out with
  | .error (.fault _) => none
  | .error (.status status) =>
    some (status, ((st.uninstall k.imageHandle r).freePagesAllocImage r).freeImage r b)
  | .ok image =>
    -- the headers of an image that is loaded have been read
    match checkImage (k.image.env b.parentVerified) b.file with
    | .error _ => none
    | .ok c =>
      some (.success, { st with
        loaded := Function.update st.loaded handle (some ⟨b.file, c, image⟩) }.freeBuffer b)

def shimLoadImage (k : LoadCall) (st : LoaderState) : Option (EfiStatus × LoaderState) :=
  match k.buffer sha256 st.cache with
  | .error status => some (status, st)
  | .ok b =>
    if k.allocImage = false then some (.outOfResources, st.freeBuffer b)
    else
      let r := st.nextRecord
      let st := { st.setRecord r .zero with nextRecord := r + 1 }
      if k.devicePath ∧ k.duplicateFilePath = false then
        some (.outOfResources, st.freeImage r b)
      else
        let st := st.setRecord r { st.records r with filePath := k.devicePath }
        if k.devicePath ∧ k.duplicateDevicePath = false then
          some (.outOfResources, st.freeImage r b)
        else
          let st := st.setRecord r { st.records r with devicePath := k.devicePath }
          match k.install with
          | .error status => some (status, st.freeImage r b)
          | .ok handle =>
            k.handle sha256 b r handle
              { st with installed := Function.update st.installed handle (some r) }

end

/-! ## `shim_start_image`, `shim_unload_image` and `shim_exit` -/

/-- Up to the call of the image. `foreign` is what `HandleProtocol` returns without the protocol. -/
def shimStartImage (handle : ℕ) (foreign systemStartImage : EfiStatus) (st : LoaderState) :
    Option EfiStatus × LoaderState :=
  match st.installed handle with
  | none => (some (if foreign = .unsupported then systemStartImage else .invalidParameter), st)
  | some r =>
    if (st.records r).started then (some .invalidParameter, st)
    else
      (none, { st.setRecord r
            { st.records r with longjmpBuf := some st.nextFrame, started := true } with
          stack := ⟨st.nextFrame, handle, r⟩ :: st.stack
          nextFrame := st.nextFrame + 1 })

/-- `shim_start_image` after its image has returned or exited. The firmware may refuse to uninstall
the protocols. -/
def finishStart (uninstalls : Bool) (frame : Frame) (st : LoaderState) : LoaderState :=
  let st := { st with
    cache := flushCachedSections frame.handle st.cache
    loaded := Function.update st.loaded frame.handle none }
  let st := if uninstalls then st.uninstall frame.handle frame.record else st
  let st := st.freePagesAllocImage frame.record
  ((st.freeFilePath frame.record).freeDevicePath frame.record).emit
    [.freePool (.image frame.record)]

def shimUnloadImage (handle : ℕ) (foreign systemUnloadImage : EfiStatus) (st : LoaderState) :
    EfiStatus × LoaderState :=
  match st.installed handle with
  | none => (if foreign = .unsupported then systemUnloadImage else foreign, st)
  | some r =>
    let st := { st with
      cache := flushCachedSections handle st.cache
      loaded := Function.update st.loaded handle none }
    let st := st.freePagesAllocImage r
    (.success, ((st.freeFilePath r).freeDevicePath r).emit [.freePool (.image r)])

structure ExitArgs where
  status : EfiStatus
  dataSize : ℕ
  data : ℕ

/-- Where a `longjmp` gets: the call of `shim_start_image` that has executed `setjmp`, if it has not
returned, and the calls around it. -/
def LoaderState.jumpTarget (st : LoaderState) (r : ℕ) : Option (Frame × List Frame) :=
  (st.records r).longjmpBuf.bind fun id =>
    match st.stack.dropWhile fun frame => frame.id ≠ id with
    | [] => none
    | frame :: rest => some (frame, rest)

def LoaderState.exitRecord (st : LoaderState) (handle r : ℕ) (args : ExitArgs) : LoaderState :=
  (st.setRecord r { st.records r with
      exitStatus := args.status
      exitDataSize := args.dataSize
      exitData := args.data }).emit [.longjmp handle r]

/-- For a handle that is not ours control leaves the loader or the call fails, else it jumps into
its `shim_start_image`. -/
def shimExit (handle : ℕ) (foreign : EfiStatus) (args : ExitArgs) (uninstalls : Bool)
    (st : LoaderState) : Option LoaderState :=
  match st.installed handle with
  | none => if foreign = .unsupported then none else some st
  | some r =>
    match st.jumpTarget r with
    | none => none
    | some (frame, rest) =>
      some (finishStart uninstalls frame { st.exitRecord handle r args with stack := rest })

structure StageCall where
  handle : ℕ
  attempt : Attempt
  secure : Bool
  mokPolicy : UInt8
  digests : ℕ → DigestCalls
  memory : Mem

def StageCall.image (k : StageCall) : ImageCall :=
  ⟨k.attempt.env k.secure k.mokPolicy, k.digests, k.memory⟩

/-- `start_image` up to the call of the image. Its loaded image has no record, and its pages are
never freed. -/
def startStage (sha256 : List UInt8 → List UInt8) (k : StageCall) (st : LoaderState) :
    Option LoaderState :=
  match k.attempt.file with
  | .error _ => some st
  | .ok f =>
    if k.attempt.devicePath = false then some st
    else
      let run := handleImage (k.image.env false) f
      let st := { st.emit (run.trace.map .load) with
        cache := k.image.cacheAfter sha256 false k.handle f st.cache }
      match run.out with
      | .error (.fault _) => none
      | .error (.status _) => some st
      | .ok image =>
        match checkImage (k.image.env false) f with
        | .error _ => none
        | .ok c =>
          some { st with loaded := Function.update st.loaded k.handle (some ⟨f, c, image⟩) }

inductive Call where
  | loadImage (k : LoadCall)
  | startImage (handle : ℕ) (foreign systemStartImage : EfiStatus)
  | imageReturns (uninstalls : Bool)
  | unloadImage (handle : ℕ) (foreign systemUnloadImage : EfiStatus)
  | exit (handle : ℕ) (foreign : EfiStatus) (args : ExitArgs) (uninstalls : Bool)
  | startStage (k : StageCall)
  | stageReturns (handle : ℕ)

def LoaderState.step (sha256 : List UInt8 → List UInt8) (st : LoaderState) :
    Call → Option LoaderState
  | .loadImage k => (shimLoadImage sha256 k st).map Prod.snd
  | .startImage handle foreign systemStartImage =>
    some (shimStartImage handle foreign systemStartImage st).2
  | .imageReturns uninstalls =>
    match st.stack with
    | [] => none
    | frame :: rest => some (finishStart uninstalls frame { st with stack := rest })
  | .unloadImage handle foreign systemUnloadImage =>
    some (shimUnloadImage handle foreign systemUnloadImage st).2
  | .exit handle foreign args uninstalls => shimExit handle foreign args uninstalls st
  | .startStage k => startStage sha256 k st
  | .stageReturns handle => some { st with loaded := Function.update st.loaded handle none }

/-! ## The pages of an image -/

def LoaderState.frees (st : LoaderState) (addr pages : ℕ) : ℕ :=
  st.log.count (.load (.freePages addr pages))

section

variable {st : LoaderState} {r addr pages handle : ℕ} {b : Buffer}

lemma frees_emit (events : List LoaderEvent) : (st.emit events).frees addr pages =
      st.frees addr pages + events.count (.load (.freePages addr pages)) := count_append

lemma frees_emit_freePool (block : PoolBlock) :
    (st.emit [.freePool block]).frees addr pages = st.frees addr pages := by
  rw [frees_emit]
  simp

@[simp] lemma frees_uninstall : (st.uninstall handle r).frees addr pages = st.frees addr pages := by
  unfold LoaderState.uninstall
  split_ifs <;> rfl

@[simp] lemma uninstall_records : (st.uninstall handle r).records = st.records := by
  unfold LoaderState.uninstall
  split_ifs <;> rfl

@[simp] lemma frees_freeBuffer : (st.freeBuffer b).frees addr pages = st.frees addr pages := by
  unfold LoaderState.freeBuffer
  split_ifs
  · exact frees_emit_freePool _
  · rfl

@[simp] lemma frees_freeImage : (st.freeImage r b).frees addr pages = st.frees addr pages := by
  unfold LoaderState.freeImage LoaderState.freeFilePath LoaderState.freeDevicePath
  rw [frees_freeBuffer, frees_emit_freePool]
  split_ifs <;> simp only [frees_emit_freePool]

lemma frees_freePagesAllocImage :
    (st.freePagesAllocImage r).frees addr pages = st.frees addr pages +
      if (st.records r).allocAddress ≠ 0 ∧ (st.records r).allocPages ≠ 0 ∧
          (st.records r).allocAddress = addr ∧ (st.records r).allocPages = pages then 1 else 0 := by
  unfold LoaderState.freePagesAllocImage
  dsimp only
  by_cases hnone : (st.records r).allocAddress = 0 ∨ (st.records r).allocPages = 0
  · rw [if_pos hnone, if_neg fun h => hnone.elim h.1 h.2.1]
    rfl
  rw [if_neg hnone]
  obtain ⟨haddr, hpages⟩ := not_or.mp hnone
  show (st.emit _).frees addr pages = _
  rw [frees_emit]
  simp [haddr, hpages, count_cons]

end

section

variable {env : LoadEnv} {f : File} {c : Context} {buffer addr pages : ℕ}

lemma loadAt_freePages : ¬ (loadAt env f c buffer).Emits (.freePages addr pages) := by
  intro h
  have hnone : ¬ ∃ a, LoadEvent.freePages addr pages = .access a := by rintro ⟨a, ha⟩; cases ha
  rcases emits_bind.mp h with h | ⟨p, -, h⟩
  · rcases prepareStage_emits.mp h with h | h | h | ⟨-, h | h | ⟨-, -, h⟩⟩
    · cases h
    · cases h
    · cases h
    · cases h
    · obtain ⟨i, -, u, -, hround⟩ := emits_foldlM_range.mp h
      exact hnone (copyStep_accesses hround)
    · exact hnone (relocateStage_accesses h)
  · rcases finishStage_emits h with h | ⟨i, -, -, h⟩
    · cases h
    · simp [attrStep_emits] at h

section

variable {env : HandleEnv} (hcheck : checkImage env f = .ok c)
  (halloc : env.load.allocatePages (allocPages c) = some addr)
include hcheck halloc

lemma handleImage_eq_loadAt :
    handleImage env f = ((loadAt env.load f c (imageBuffer c addr)).onError
      (.freePages addr (allocPages c))).mapError .status := by
  unfold handleImage
  rw [bind_of_ok (by exact hcheck)]
  unfold loadImage
  rw [halloc]
  rfl

lemma handleImage_out :
    (∃ image, (handleImage env f).out = .ok image ∧
        (handleImage env f).trace.count (.freePages addr (allocPages c)) = 0) ∨
      ∃ status, (handleImage env f).out = .error (.status status) ∧
        (handleImage env f).trace.count (.freePages addr (allocPages c)) = 1 := by
  have hnone : (loadAt env.load f c (imageBuffer c addr)).trace.count
      (.freePages addr (allocPages c)) = 0 := count_eq_zero.mpr loadAt_freePages
  rw [handleImage_eq_loadAt hcheck halloc]
  unfold onError mapError
  cases hout : (loadAt env.load f c (imageBuffer c addr)).out with
  | ok image => exact .inl ⟨image, rfl, hnone⟩
  | error status =>
    refine .inr ⟨status, rfl, ?_⟩
    show (_ ++ [_]).count _ = 1
    rw [count_append, hnone, count_singleton_self]

end

end

structure LoadCall.Handles (k : LoadCall) (sha256 : List UInt8 → List UInt8)
    (cache : SectionCache) (b : Buffer) (handle : ℕ) : Prop where
  buffer : k.buffer sha256 cache = .ok b
  image : k.allocImage = true
  paths : k.devicePath = true → k.duplicateFilePath = true ∧ k.duplicateDevicePath = true
  install : k.install = .ok handle

structure LoadCall.Allocates (k : LoadCall) (sha256 : List UInt8 → List UInt8)
    (cache : SectionCache) (b : Buffer) (handle : ℕ) (c : Context) (addr : ℕ) : Prop
    extends k.Handles sha256 cache b handle where
  headers : checkImage (k.image.env b.parentVerified) b.file = .ok c
  pages : k.image.machine.load.allocatePages (allocPages c) = some addr

section

variable {sha256 : List UInt8 → List UInt8} {k : LoadCall} {b : Buffer} {handle addr : ℕ}
  {c : Context}

def LoadCall.prepared (k : LoadCall) (st : LoaderState) (handle : ℕ) : LoaderState :=
  { st with
    records := Function.update st.records st.nextRecord
      { ImageRecord.zero with filePath := k.devicePath, devicePath := k.devicePath }
    nextRecord := st.nextRecord + 1
    installed := Function.update st.installed handle (some st.nextRecord) }

lemma shimLoadImage_of_handles {st : LoaderState} (h : k.Handles sha256 st.cache b handle) :
    shimLoadImage sha256 k st = k.handle sha256 b st.nextRecord handle (k.prepared st handle) := by
  unfold shimLoadImage
  rw [h.buffer]
  dsimp only
  have hfile : ¬ (k.devicePath = true ∧ k.duplicateFilePath = false) := by
    rintro ⟨hpath, hdup⟩
    rw [(h.paths hpath).1] at hdup
    cases hdup
  have hdevice : ¬ (k.devicePath = true ∧ k.duplicateDevicePath = false) := by
    rintro ⟨hpath, hdup⟩
    rw [(h.paths hpath).2] at hdup
    cases hdup
  rw [if_neg (by rw [h.image]; decide), if_neg hfile, if_neg hdevice, h.install]
  unfold LoadCall.prepared LoaderState.setRecord
  simp

lemma LoadCall.allocation_eq (hcheck : checkImage (k.image.env b.parentVerified) b.file = .ok c)
    (halloc : k.image.machine.load.allocatePages (allocPages c) = some addr) :
    k.image.allocation b.parentVerified b.file = (addr, allocPages c, allocAlignment c) := by
  unfold ImageCall.allocation
  rw [hcheck]
  dsimp only
  rw [halloc]
  rfl

lemma count_map_load (events : List LoadEvent) (e : LoadEvent) :
    (events.map LoaderEvent.load).count (.load e) = events.count e :=
  count_map_of_injective _ _ (fun _ _ h => LoaderEvent.load.inj h) _

lemma LoadCall.handle_frees (sha256 : List UInt8 → List UInt8) (r handle : ℕ) (st : LoaderState)
    (hcheck : checkImage (k.image.env b.parentVerified) b.file = .ok c)
    (halloc : k.image.machine.load.allocatePages (allocPages c) = some addr) :
    ∃ status st', k.handle sha256 b r handle st = some (status, st') ∧
      ((∃ image, (handleImage (k.image.env b.parentVerified) b.file).Yields image) ∧
          status = .success ∧ st'.frees addr (allocPages c) = st.frees addr (allocPages c) ∨
        (¬ ∃ image, (handleImage (k.image.env b.parentVerified) b.file).Yields image) ∧
          st'.frees addr (allocPages c) = st.frees addr (allocPages c) + 1 +
            if addr ≠ 0 ∧ allocPages c ≠ 0 then 1 else 0) := by
  have hhandled : (k.handled sha256 b r handle st).frees addr (allocPages c) =
      st.frees addr (allocPages c) + (handleImage (k.image.env b.parentVerified) b.file).trace.count
        (.freePages addr (allocPages c)) := by
    unfold LoaderState.frees LoadCall.handled
    rw [count_append, count_map_load]
  unfold LoadCall.handle
  dsimp only
  rcases handleImage_out hcheck halloc with ⟨image, hout, hcount⟩ | ⟨status, hout, hcount⟩
  · rw [hout, hcheck]
    refine ⟨_, _, rfl, .inl ⟨⟨image, hout⟩, rfl, ?_⟩⟩
    rw [frees_freeBuffer]
    show (k.handled sha256 b r handle st).frees addr (allocPages c) = _
    rw [hhandled, hcount, Nat.add_zero]
  · rw [hout]
    refine ⟨_, _, rfl, .inr ⟨?_, ?_⟩⟩
    · rintro ⟨image, himage⟩
      rw [Run.Yields, hout] at himage
      cases himage
    · rw [frees_freeImage, frees_freePagesAllocImage, frees_uninstall, uninstall_records, hhandled,
        hcount]
      simp [LoadCall.handled, LoadCall.allocation_eq hcheck halloc]

/-- The pages are freed at most once, and once if `shim_load_image` fails, iff the image passes the
tests behind the allocation or its address or number of pages is zero. -/
theorem shimLoadImage_frees_iff {st : LoaderState}
    (h : k.Allocates sha256 st.cache b handle c addr) :
    (∀ status st', shimLoadImage sha256 k st = some (status, st') →
      st'.frees addr (allocPages c) ≤ st.frees addr (allocPages c) + 1 ∧ (status ≠ .success →
          st'.frees addr (allocPages c) = st.frees addr (allocPages c) + 1)) ↔
      (LoadTests (k.image.env b.parentVerified).load b.file c (imageBuffer c addr) ∧
        imageAddress (imageBuffer c addr) c.imageSize c.entryPoint ≠ 0 ∧
        ((Finset.range c.numberOfSections).filter fun i =>
          (b.file.row c i).Counts c.entryPoint).card = 1) ∨
        addr = 0 ∨ allocPages c = 0 := by
  obtain ⟨status, st', hcall, hframes⟩ := LoadCall.handle_frees sha256 st.nextRecord
    handle (k.prepared st handle) h.headers h.pages
  have hstart : (k.prepared st handle).frees addr (allocPages c) = st.frees addr (allocPages c) :=
    rfl
  rw [hstart] at hframes
  rw [← copied_found, ← loadAt_yields_iff, shimLoadImage_of_handles h.toHandles, hcall]
  simp only [handleImage_yields_iff h.headers h.pages] at hframes
  constructor
  · intro hprop
    have hle := (hprop status st' rfl).1
    rcases hframes with ⟨hload, -, -⟩ | ⟨-, hfrees⟩
    · exact .inl hload
    refine .inr ?_
    by_contra hboth
    rw [if_pos (not_or.mp hboth)] at hfrees
    omega
  · rintro hcond status' st'' heq
    obtain ⟨rfl, rfl⟩ := Prod.mk.inj (Option.some.inj heq)
    rcases hframes with ⟨-, rfl, hfrees⟩ | ⟨hfails, hfrees⟩
    · exact ⟨by omega, fun hne => absurd rfl hne⟩
    · have hzero := hcond.resolve_left hfails
      rw [if_neg fun hboth => hzero.elim hboth.1 hboth.2] at hfrees
      exact ⟨by omega, fun _ => by omega⟩

end

def DigestCalls.working : DigestCalls := ⟨true, true, true, true, true⟩

def fileCall (f : File) (handle : ℕ) : LoadCall where
  bootPolicy := false
  parentImageHandle := 1
  devicePath := true
  source := none
  imageHandle := 0x9000
  validates := fun _ => .working
  sfs := some f
  lf2 := none
  allocImage := true
  duplicateFilePath := true
  duplicateDevicePath := true
  install := .ok handle
  image := ⟨insecureEnv false, fun _ => .working, fun _ => 0⟩

/-- The pages of an image that is refused for its entry point are freed twice. -/
theorem shimLoadImage_frees_twice :
    ((shimLoadImage workingSha256.sha256 (fileCall (entryImage 0x100f 0x60000020) 7) .init).map
      fun r => (r.1, r.2.frees 0x100000 3)) = some (.unsupported, 2) := by
  decide +kernel

theorem shimLoadImage_frees_accepted :
    let c := codeImage.context 64
    (fileCall codeImage 7).Allocates workingSha256.sha256 LoaderState.init.cache
      ⟨codeImage, false, true⟩ 7 c 0x100000 ∧
    ∀ status st',
      shimLoadImage workingSha256.sha256 (fileCall codeImage 7) .init = some (status, st') →
      st'.frees 0x100000 (allocPages c) ≤ LoaderState.init.frees 0x100000 (allocPages c) + 1 ∧
        (status ≠ .success → st'.frees 0x100000 (allocPages c) =
          LoaderState.init.frees 0x100000 (allocPages c) + 1) := by
  intro c
  have hloaded : ∃ image, (loadAt ((fileCall codeImage 7).image.env false).load codeImage c
      (imageBuffer c 0x100000)).Yields image :=
    exists_yields_of_isOk (by decide +kernel)
  have hallocates : (fileCall codeImage 7).Allocates workingSha256.sha256 LoaderState.init.cache
      ⟨codeImage, false, true⟩ 7 c 0x100000 :=
    ⟨⟨rfl, rfl, fun _ => ⟨rfl, rfl⟩, rfl⟩, by decide +kernel, rfl⟩
  refine ⟨hallocates, (shimLoadImage_frees_iff hallocates).mpr (.inl ?_)⟩
  rw [← copied_found, ← loadAt_yields_iff]
  exact hloaded

end Shim.Loader
