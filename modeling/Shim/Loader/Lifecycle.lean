import Shim.Loader.Protocol

/-!
# The life of an image record

A record is installed on a new handle by `shim_load_image`; it is freed there if the image is refused,
by `shim_start_image` when the image comes back, and by `shim_unload_image`. Each time the protocol
has to go with it. `shim_exit` jumps into a `shim_start_image`, which must not have returned.
-/

namespace Shim.Loader

open Lib Pe List Function Option LoaderState

def LoaderState.freed (st : LoaderState) (r : ℕ) : ℕ := st.log.count (.freePool (.image r))

def LoaderState.Fresh (st : LoaderState) : Call → Prop
  | .loadImage k => ∀ handle, k.install = .ok handle →
      st.installed handle = none ∧ st.loaded handle = none
  | _ => True

/-! ## Steps that do not matter -/

/-- Records keep their state, and none is freed; the protocols, the calls, the section cache and the
loaded images are the same. -/
structure Quiet (st st' : LoaderState) : Prop where
  started : ∀ r, (st'.records r).started = (st.records r).started
  longjmpBuf : ∀ r, (st'.records r).longjmpBuf = (st.records r).longjmpBuf
  nextRecord : st'.nextRecord = st.nextRecord
  installed : st'.installed = st.installed
  stack : st'.stack = st.stack
  nextFrame : st'.nextFrame = st.nextFrame
  cache : st'.cache = st.cache
  loaded : st'.loaded = st.loaded
  freed : ∀ r, st'.freed r = st.freed r

section

variable {st st' st'' : LoaderState} {r : ℕ}

lemma Quiet.refl (st : LoaderState) : Quiet st st :=
  ⟨fun _ => rfl, fun _ => rfl, rfl, rfl, rfl, rfl, rfl, rfl, fun _ => rfl⟩

lemma Quiet.trans (h : Quiet st st') (h' : Quiet st' st'') : Quiet st st'' where
  started r := (h'.started r).trans (h.started r)
  longjmpBuf r := (h'.longjmpBuf r).trans (h.longjmpBuf r)
  nextRecord := h'.nextRecord.trans h.nextRecord
  installed := h'.installed.trans h.installed
  stack := h'.stack.trans h.stack
  nextFrame := h'.nextFrame.trans h.nextFrame
  cache := h'.cache.trans h.cache
  loaded := h'.loaded.trans h.loaded
  freed r := (h'.freed r).trans (h.freed r)

lemma freed_emit (events : List LoaderEvent) :
    (st.emit events).freed r = st.freed r + events.count (.freePool (.image r)) :=
  count_append

lemma quiet_emit {events : List LoaderEvent} (h : ∀ r, .freePool (.image r) ∉ events) :
    Quiet st (st.emit events) := by
  refine ⟨fun _ => rfl, fun _ => rfl, rfl, rfl, rfl, rfl, rfl, rfl, fun r => ?_⟩
  rw [freed_emit, count_eq_zero.mpr (h r), Nat.add_zero]

lemma Quiet.emit (h : Quiet st st') (events : List LoaderEvent) :
    Quiet (st.emit events) (st'.emit events) where
  started := h.started
  longjmpBuf := h.longjmpBuf
  nextRecord := h.nextRecord
  installed := h.installed
  stack := h.stack
  nextFrame := h.nextFrame
  cache := h.cache
  loaded := h.loaded
  freed r := by rw [freed_emit, freed_emit, h.freed]

lemma proj_update {α : Type} (f : ImageRecord → α) {records : ℕ → ImageRecord}
    {image : ImageRecord} (h : f image = f (records r)) (r' : ℕ) :
    f (Function.update records r image r') = f (records r') := by
  by_cases hr : r' = r
  · rw [hr, update_self, h]
  · rw [update_of_ne hr]

lemma quiet_setRecord {image : ImageRecord} (hstarted : image.started = (st.records r).started)
    (hbuf : image.longjmpBuf = (st.records r).longjmpBuf) : Quiet st (st.setRecord r image) :=
  ⟨proj_update _ hstarted, proj_update _ hbuf, rfl, rfl, rfl, rfl, rfl, rfl, fun _ => rfl⟩

lemma quiet_freePagesAllocImage : Quiet st (st.freePagesAllocImage r) := by
  unfold freePagesAllocImage
  dsimp only
  split_ifs
  · exact .refl st
  · exact (quiet_emit (by simp)).trans (quiet_setRecord rfl rfl)

lemma quiet_freeFilePath : Quiet st (st.freeFilePath r) := by
  unfold freeFilePath
  split_ifs
  · exact quiet_emit (by simp)
  · exact .refl st

lemma quiet_freeDevicePath : Quiet st (st.freeDevicePath r) := by
  unfold freeDevicePath
  split_ifs
  · exact quiet_emit (by simp)
  · exact .refl st

lemma quiet_freeBuffer {b : Buffer} : Quiet st (st.freeBuffer b) := by
  unfold freeBuffer
  split_ifs
  · exact quiet_emit (by simp)
  · exact .refl st

def LoaderState.freeRecord (st : LoaderState) (r : ℕ) : LoaderState :=
  st.emit [.freePool (.image r)]

lemma freed_freeRecord (r' : ℕ) :
    (st.freeRecord r).freed r' = st.freed r' + if r = r' then 1 else 0 := by
  unfold freeRecord
  rw [freed_emit]
  by_cases hr : r = r'
  · simp [hr]
  · simp [hr]

lemma quiet_freeImage {b : Buffer} : Quiet (st.freeRecord r) (st.freeImage r b) :=
  ((quiet_freeDevicePath.trans quiet_freeFilePath).emit _).trans quiet_freeBuffer

end

/-! ## What the functions do -/

section

variable {sha256 : List UInt8 → List UInt8} {k : LoadCall} {b : Buffer} {r handle : ℕ}
  {status : EfiStatus} {st st' : LoaderState}

def LoaderState.dropped (st : LoaderState) : LoaderState :=
  { st with
    records := Function.update st.records st.nextRecord .zero
    nextRecord := st.nextRecord + 1 }.freeRecord st.nextRecord

lemma quiet_update_zero (image : ImageRecord) (hstarted : image.started = false)
    (hbuf : image.longjmpBuf = none) :
    Quiet { st with
        records := Function.update st.records st.nextRecord .zero
        nextRecord := st.nextRecord + 1 }
      { st with
        records := Function.update st.records st.nextRecord image
        nextRecord := st.nextRecord + 1 } := by
  have hquiet : Quiet _ (setRecord { st with
      records := Function.update st.records st.nextRecord .zero
      nextRecord := st.nextRecord + 1 } st.nextRecord image) :=
    quiet_setRecord (by simp [hstarted, ImageRecord.zero]) (by simp [hbuf, ImageRecord.zero])
  rwa [setRecord, update_idem] at hquiet

lemma shimLoadImage_cases (h : shimLoadImage sha256 k st = some (status, st')) :
    Quiet st st' ∨ Quiet st.dropped st' ∨ ∃ b handle, k.Handles sha256 st.cache b handle ∧
        k.handle sha256 b st.nextRecord handle (k.prepared st handle) = some (status, st') := by
  cases hbuffer : k.buffer sha256 st.cache with
  | error s =>
    unfold shimLoadImage at h
    rw [hbuffer] at h
    cases h
    exact .inl (.refl st)
  | ok b =>
    by_cases halloc : k.allocImage = false
    · unfold shimLoadImage at h
      simp only [hbuffer, if_pos halloc] at h
      cases h
      exact .inl quiet_freeBuffer
    by_cases hfile : k.devicePath = true ∧ k.duplicateFilePath = false
    · unfold shimLoadImage at h
      simp only [hbuffer, if_neg halloc, if_pos hfile] at h
      cases h
      exact .inr (.inl quiet_freeImage)
    by_cases hdevice : k.devicePath = true ∧ k.duplicateDevicePath = false
    · unfold shimLoadImage setRecord at h
      simp only [hbuffer, if_neg halloc, if_neg hfile, if_pos hdevice, update_self,
        update_idem] at h
      cases h
      exact .inr (.inl (((quiet_update_zero _ rfl rfl).emit _).trans quiet_freeImage))
    cases hinstall : k.install with
    | error s =>
      unfold shimLoadImage setRecord at h
      simp only [hbuffer, if_neg halloc, if_neg hfile, if_neg hdevice, hinstall,
        update_self, update_idem] at h
      cases h
      exact .inr (.inl (((quiet_update_zero _ rfl rfl).emit _).trans quiet_freeImage))
    | ok handle =>
      have hhandles : k.Handles sha256 st.cache b handle := by
        refine ⟨hbuffer, by simpa using halloc, fun hpath => ?_, hinstall⟩
        exact ⟨by simpa [hpath] using hfile, by simpa [hpath] using hdevice⟩
      rw [shimLoadImage_of_handles hhandles] at h
      exact .inr (.inr ⟨b, handle, hhandles, h⟩)

lemma count_load_freePool (events : List LoadEvent) (r : ℕ) :
    (events.map LoaderEvent.load).count (.freePool (.image r)) = 0 := by
  rw [count_eq_zero]
  simp

lemma quiet_handled (sha256 : List UInt8 → List UInt8) (k : LoadCall) (b : Buffer) (r handle : ℕ)
    (st : LoaderState) :
    Quiet { st with cache := k.image.cacheAfter sha256 b.parentVerified handle b.file st.cache }
      (k.handled sha256 b r handle st) := by
  refine ⟨proj_update _ rfl, proj_update _ rfl, rfl, rfl, rfl, rfl, rfl, rfl, fun r' => ?_⟩
  unfold LoadCall.handled freed
  rw [count_append, count_load_freePool, Nat.add_zero]

lemma LoadCall.handle_cases (h : k.handle sha256 b r handle st = some (status, st')) :
    (∃ image c, (handleImage (k.image.env b.parentVerified) b.file).out = .ok image ∧
        checkImage (k.image.env b.parentVerified) b.file = .ok c ∧
        Quiet { st with
          cache := k.image.cacheAfter sha256 b.parentVerified handle b.file st.cache
          loaded := Function.update st.loaded handle (some ⟨b.file, c, image⟩) } st') ∨
      (∃ s, (handleImage (k.image.env b.parentVerified) b.file).out = .error (.status s)) ∧
        Quiet (({ st with
          cache := k.image.cacheAfter sha256 b.parentVerified handle b.file st.cache }.uninstall
            k.imageHandle r).freeRecord r) st' := by
  have hquiet := quiet_handled sha256 k b r handle st
  unfold LoadCall.handle at h
  dsimp only at h
  cases hout : (handleImage (k.image.env b.parentVerified) b.file).out with
  | error stop =>
    cases stop with
    | fault x =>
      rw [hout] at h
      cases h
    | status s =>
      rw [hout] at h
      cases h
      refine .inr ⟨⟨_, rfl⟩, Quiet.trans (Quiet.emit ?_ _) quiet_freeImage⟩
      refine Quiet.trans ?_ quiet_freePagesAllocImage
      unfold LoaderState.uninstall
      rw [hquiet.installed]
      by_cases hfound : st.installed k.imageHandle = some r
      · rw [if_pos hfound, if_pos hfound]
        exact ⟨hquiet.started, hquiet.longjmpBuf, hquiet.nextRecord, rfl, hquiet.stack,
          hquiet.nextFrame, hquiet.cache, hquiet.loaded, hquiet.freed⟩
      · rw [if_neg hfound, if_neg hfound]
        exact hquiet
  | ok image =>
    cases hcheck : checkImage (k.image.env b.parentVerified) b.file with
    | error stop =>
      rw [hout, hcheck] at h
      cases h
    | ok c =>
      rw [hout, hcheck] at h
      cases h
      refine .inl ⟨image, c, rfl, rfl, Quiet.trans ?_ quiet_freeBuffer⟩
      exact ⟨hquiet.started, hquiet.longjmpBuf, hquiet.nextRecord, hquiet.installed,
        hquiet.stack, hquiet.nextFrame, hquiet.cache, rfl, hquiet.freed⟩

def LoaderState.gone (st : LoaderState) (handle : ℕ) : LoaderState :=
  { st with
    cache := flushCachedSections handle st.cache
    loaded := Function.update st.loaded handle none }

lemma finishStart_quiet (st : LoaderState) (uninstalls : Bool) (frame : Frame) :
    Quiet ((if uninstalls then (st.gone frame.handle).uninstall frame.handle frame.record
        else st.gone frame.handle).freeRecord frame.record) (finishStart uninstalls frame st) :=
  ((quiet_freePagesAllocImage.trans quiet_freeFilePath).trans quiet_freeDevicePath).emit _

lemma shimUnloadImage_quiet {foreign system : EfiStatus} (h : st.installed handle = some r) :
    Quiet ((st.gone handle).freeRecord r) (shimUnloadImage handle foreign system st).2 := by
  unfold shimUnloadImage
  rw [h]
  exact ((quiet_freePagesAllocImage.trans quiet_freeFilePath).trans quiet_freeDevicePath).emit _

lemma startStage_cases {k : StageCall} (h : startStage sha256 k st = some st') :
    st' = st ∨ ∃ f, k.attempt.file = .ok f ∧
      ((∃ s, (handleImage (k.image.env false) f).out = .error (.status s)) ∧
          Quiet { st with cache := k.image.cacheAfter sha256 false k.handle f st.cache } st' ∨
        ∃ image c, (handleImage (k.image.env false) f).out = .ok image ∧
          checkImage (k.image.env false) f = .ok c ∧
          Quiet { st with
            cache := k.image.cacheAfter sha256 false k.handle f st.cache
            loaded := Function.update st.loaded k.handle (some ⟨f, c, image⟩) } st') := by
  unfold startStage at h
  cases hfile : k.attempt.file with
  | error s =>
    rw [hfile] at h
    exact .inl (Option.some.inj h).symm
  | ok f =>
    rw [hfile] at h
    dsimp only at h
    by_cases hpath : k.attempt.devicePath = false
    · rw [if_pos hpath] at h
      exact .inl (Option.some.inj h).symm
    rw [if_neg hpath] at h
    refine .inr ⟨f, rfl, ?_⟩
    have hfreed : ∀ r, (st.log ++ (handleImage (k.image.env false) f).trace.map
        LoaderEvent.load).count (.freePool (.image r)) = st.freed r := by
      intro r
      rw [count_append, count_load_freePool, Nat.add_zero]
      rfl
    cases hout : (handleImage (k.image.env false) f).out with
    | error stop =>
      cases stop with
      | fault x =>
        rw [hout] at h
        cases h
      | status s =>
        rw [hout] at h
        cases h
        exact .inl ⟨⟨s, rfl⟩, fun _ => rfl, fun _ => rfl, rfl, rfl, rfl, rfl, rfl, rfl, hfreed⟩
    | ok image =>
      cases hcheck : checkImage (k.image.env false) f with
      | error stop =>
        rw [hout, hcheck] at h
        cases h
      | ok c =>
        rw [hout, hcheck] at h
        cases h
        exact .inr ⟨image, c, rfl, rfl, fun _ => rfl, fun _ => rfl, rfl, rfl, rfl, rfl, rfl,
          rfl, hfreed⟩

lemma quiet_exitRecord {args : ExitArgs} : Quiet st (st.exitRecord handle r args) := by
  have hjump : ∀ r', LoaderEvent.freePool (.image r') ∉ [LoaderEvent.longjmp handle r] := by simp
  refine Quiet.trans ?_ (quiet_emit hjump)
  exact quiet_setRecord rfl rfl

lemma jumpTarget_suffix {frame : Frame} {rest : List Frame}
    (h : st.jumpTarget r = some (frame, rest)) : frame :: rest <:+ st.stack := by
  unfold jumpTarget at h
  obtain ⟨id, -, h⟩ := bind_eq_some_iff.mp h
  cases hdrop : st.stack.dropWhile fun frame => frame.id ≠ id with
  | nil =>
    simp only [hdrop] at h
    cases h
  | cons frame' rest' =>
    simp only [hdrop] at h
    cases h
    rw [← hdrop]
    exact dropWhile_suffix _

end

/-! ## What a call does -/

def LoaderState.running (st : LoaderState) (handle r : ℕ) : LoaderState :=
  { st.setRecord r { st.records r with longjmpBuf := some st.nextFrame, started := true } with
    stack := ⟨st.nextFrame, handle, r⟩ :: st.stack
    nextFrame := st.nextFrame + 1 }

def Call.uninstalls : Call → Bool
  | .imageReturns uninstalls => uninstalls
  | .exit _ _ _ uninstalls => uninstalls
  | _ => true

inductive Effect (sha256 : List UInt8 → List UInt8) (st st' : LoaderState) : Call → Prop
  | nothing {call : Call} (h : Quiet st st') : Effect sha256 st st' call
  | drops {k : LoadCall} (h : Quiet st.dropped st') : Effect sha256 st st' (.loadImage k)
  | refuses {k : LoadCall} {b : Buffer} {handle : ℕ} {s : EfiStatus}
      (hhandles : k.Handles sha256 st.cache b handle)
      (hout : (handleImage (k.image.env b.parentVerified) b.file).out = .error (.status s))
      (h : Quiet (({ k.prepared st handle with
        cache := k.image.cacheAfter sha256 b.parentVerified handle b.file st.cache }.uninstall
          k.imageHandle st.nextRecord).freeRecord st.nextRecord) st') :
      Effect sha256 st st' (.loadImage k)
  | loads {k : LoadCall} {b : Buffer} {handle : ℕ} {image : LoadedImage} {c : Context}
      (hhandles : k.Handles sha256 st.cache b handle)
      (hout : (handleImage (k.image.env b.parentVerified) b.file).out = .ok image)
      (hcheck : checkImage (k.image.env b.parentVerified) b.file = .ok c)
      (h : Quiet { k.prepared st handle with
        cache := k.image.cacheAfter sha256 b.parentVerified handle b.file st.cache
        loaded := Function.update st.loaded handle (some ⟨b.file, c, image⟩) } st') :
      Effect sha256 st st' (.loadImage k)
  | starts {handle r : ℕ} {foreign system : EfiStatus} (hinstalled : st.installed handle = some r)
      (hnot : (st.records r).started = false) (h : st' = st.running handle r) :
      Effect sha256 st st' (.startImage handle foreign system)
  | finishes {call : Call} {mid : LoaderState} {frame : Frame} {rest : List Frame}
      (hquiet : Quiet st mid) (hsuffix : frame :: rest <:+ mid.stack)
      (h : st' = finishStart call.uninstalls frame { mid with stack := rest }) :
      Effect sha256 st st' call
  | unloads {handle r : ℕ} {foreign system : EfiStatus} (hinstalled : st.installed handle = some r)
      (h : Quiet ((st.gone handle).freeRecord r) st') :
      Effect sha256 st st' (.unloadImage handle foreign system)
  | refusesStage {k : StageCall} {f : File} {s : EfiStatus} (hfile : k.attempt.file = .ok f)
      (hout : (handleImage (k.image.env false) f).out = .error (.status s))
      (h : Quiet { st with cache := k.image.cacheAfter sha256 false k.handle f st.cache } st') :
      Effect sha256 st st' (.startStage k)
  | loadsStage {k : StageCall} {f : File} {image : LoadedImage} {c : Context}
      (hfile : k.attempt.file = .ok f) (hout : (handleImage (k.image.env false) f).out = .ok image)
      (hcheck : checkImage (k.image.env false) f = .ok c)
      (h : Quiet { st with
        cache := k.image.cacheAfter sha256 false k.handle f st.cache
        loaded := Function.update st.loaded k.handle (some ⟨f, c, image⟩) } st') :
      Effect sha256 st st' (.startStage k)
  | endsStage {handle : ℕ} (h : st' = { st with loaded := Function.update st.loaded handle none }) :
      Effect sha256 st st' (.stageReturns handle)

section

variable {sha256 : List UInt8 → List UInt8} {st st' : LoaderState} {handle : ℕ}
  {foreign : EfiStatus}

lemma shimStartImage_effect (system : EfiStatus) :
    Effect sha256 st (shimStartImage handle foreign system st).2
      (.startImage handle foreign system) := by
  cases hinstalled : st.installed handle with
  | none =>
    unfold shimStartImage
    rw [hinstalled]
    exact .nothing (.refl st)
  | some r =>
    by_cases hstarted : (st.records r).started = true
    · unfold shimStartImage
      simp only [hinstalled, if_pos hstarted]
      exact .nothing (.refl st)
    · refine .starts hinstalled (by simpa using hstarted) ?_
      unfold shimStartImage
      simp only [hinstalled, if_neg hstarted]
      rfl

lemma shimExit_effect {args : ExitArgs} {uninstalls : Bool}
    (hexit : shimExit handle foreign args uninstalls st = some st') :
    Effect sha256 st st' (.exit handle foreign args uninstalls) := by
  unfold shimExit at hexit
  cases hinstalled : st.installed handle with
  | none =>
    simp only [hinstalled] at hexit
    split_ifs at hexit
    cases hexit
    exact .nothing (.refl st)
  | some r =>
    cases htarget : st.jumpTarget r with
    | none =>
      simp only [hinstalled, htarget] at hexit
      cases hexit
    | some target =>
      simp only [hinstalled, htarget] at hexit
      cases hexit
      have hsuffix := jumpTarget_suffix htarget
      exact .finishes quiet_exitRecord hsuffix rfl

end

lemma step_effect {sha256 : List UInt8 → List UInt8} {st st' : LoaderState} {call : Call}
    (hstep : st.step sha256 call = some st') : Effect sha256 st st' call := by
  cases call with
  | loadImage k =>
    obtain ⟨⟨status, st''⟩, hload, rfl⟩ := map_eq_some_iff.mp hstep
    rcases shimLoadImage_cases hload with hquiet | hquiet | ⟨b, handle, hhandles, hhandle⟩
    · exact .nothing hquiet
    · exact .drops hquiet
    · rcases LoadCall.handle_cases hhandle with
        ⟨image, c, hout, hcheck, hquiet⟩ | ⟨⟨s, hout⟩, hquiet⟩
      · exact .loads hhandles hout hcheck hquiet
      · exact .refuses hhandles hout hquiet
  | startImage handle foreign system =>
    cases hstep
    exact shimStartImage_effect system
  | imageReturns uninstalls =>
    cases hstack : st.stack with
    | nil =>
      simp only [LoaderState.step, hstack] at hstep
      cases hstep
    | cons frame rest =>
      simp only [LoaderState.step, hstack] at hstep
      cases hstep
      exact .finishes (.refl st) (by rw [hstack]) rfl
  | unloadImage handle foreign system =>
    cases hstep
    cases hinstalled : st.installed handle with
    | none =>
      unfold shimUnloadImage
      rw [hinstalled]
      exact .nothing (.refl st)
    | some r => exact .unloads hinstalled (shimUnloadImage_quiet hinstalled)
  | exit handle foreign args uninstalls => exact shimExit_effect hstep
  | startStage k =>
    rcases startStage_cases hstep with
      rfl | ⟨f, hfile, ⟨⟨s, hout⟩, hquiet⟩ | ⟨image, c, hout, hcheck, hquiet⟩⟩
    · exact .nothing (.refl _)
    · exact .refusesStage hfile hout hquiet
    · exact .loadsStage hfile hout hcheck hquiet
  | stageReturns handle => exact .endsStage (Option.some.inj hstep).symm

/-! ## The images that run -/

/-- The images that run are installed, each on a handle of its own, and started; the calls that run
them have executed `setjmp` on their buffers. -/
structure Running (st : LoaderState) : Prop where
  installed : ∀ frame ∈ st.stack, st.installed frame.handle = some frame.record
  started : ∀ frame ∈ st.stack, (st.records frame.record).started = true
  longjmpBuf : ∀ frame ∈ st.stack, (st.records frame.record).longjmpBuf = some frame.id
  handles : (st.stack.map Frame.handle).Nodup
  allocated : ∀ handle r, st.installed handle = some r → r < st.nextRecord
  unique : ∀ handle handle' r, st.installed handle = some r → st.installed handle' = some r →
    handle = handle'

section

variable {sha256 : List UInt8 → List UInt8} {k : LoadCall} {r handle : ℕ}
  {st st' : LoaderState} {frame : Frame} {rest : List Frame}

lemma running_init : Running .init := by
  constructor
  all_goals simp [LoaderState.init]

section

variable (h : Running st)
include h

lemma Running.of_quiet (hquiet : Quiet st st') : Running st' where
  installed := by
    rw [hquiet.stack, hquiet.installed]
    exact h.installed
  started := by
    rw [hquiet.stack]
    intro frame hframe
    rw [hquiet.started]
    exact h.started frame hframe
  longjmpBuf := by
    rw [hquiet.stack]
    intro frame hframe
    rw [hquiet.longjmpBuf]
    exact h.longjmpBuf frame hframe
  handles := by
    rw [hquiet.stack]
    exact h.handles
  allocated := by
    rw [hquiet.installed, hquiet.nextRecord]
    exact h.allocated
  unique := by
    rw [hquiet.installed]
    exact h.unique

lemma Running.record_ne (hframe : frame ∈ st.stack) : frame.record ≠ st.nextRecord :=
  (h.allocated _ _ (h.installed frame hframe)).ne

lemma Running.uninstall (hhandle : ∀ frame ∈ st.stack, frame.handle = handle → frame.record ≠ r) :
    Running (st.uninstall handle r) := by
  unfold LoaderState.uninstall
  split_ifs with hfound
  · have hkept : ∀ handle' r', Function.update st.installed handle none handle' = some r' →
        st.installed handle' = some r' := by
      intro handle' r' hr'
      by_cases heq : handle' = handle
      · rw [heq, update_self] at hr'
        cases hr'
      · rwa [update_of_ne heq] at hr'
    refine ⟨fun frame hframe => ?_, h.started, h.longjmpBuf, h.handles, ?_, ?_⟩
    · show Function.update st.installed handle none frame.handle = some frame.record
      have hinstalled := h.installed frame hframe
      rw [update_of_ne, hinstalled]
      intro heq
      rw [heq, hfound] at hinstalled
      exact hhandle frame hframe heq (Option.some.inj hinstalled).symm
    · intro handle' r' hr'
      exact h.allocated _ _ (hkept _ _ hr')
    · intro handle' handle'' r' hr' hr''
      exact h.unique _ _ r' (hkept _ _ hr') (hkept _ _ hr'')
  · exact h

lemma Running.of_records {records : ℕ → ImageRecord} {next : ℕ}
    (hrecords : ∀ frame ∈ st.stack, records frame.record = st.records frame.record)
    (hnext : st.nextRecord ≤ next) : Running { st with records := records, nextRecord := next } where
  installed := h.installed
  started frame hframe := by
    dsimp only
    rw [hrecords frame hframe]
    exact h.started frame hframe
  longjmpBuf frame hframe := by
    dsimp only
    rw [hrecords frame hframe]
    exact h.longjmpBuf frame hframe
  handles := h.handles
  allocated handle r hr := (h.allocated handle r hr).trans_le hnext
  unique := h.unique

lemma Running.withRecord (image : ImageRecord) : Running { st with
      records := Function.update st.records st.nextRecord image
      nextRecord := st.nextRecord + 1 } :=
  h.of_records (fun _ hframe => update_of_ne (h.record_ne hframe) _ _) (Nat.le_succ _)

lemma Running.install (hfresh : st.installed handle = none)
    (hlt : r < st.nextRecord) (hnew : ∀ handle, st.installed handle ≠ some r) :
    Running { st with installed := Function.update st.installed handle (some r) } := by
  have hcases : ∀ handle' r', Function.update st.installed handle (some r) handle' = some r' →
      (handle' = handle ∧ r' = r) ∨ st.installed handle' = some r' := by
    intro handle' r' hr'
    by_cases heq : handle' = handle
    · rw [heq, update_self] at hr'
      exact .inl ⟨heq, (Option.some.inj hr').symm⟩
    · rw [update_of_ne heq] at hr'
      exact .inr hr'
  refine ⟨fun frame hframe => ?_, h.started, h.longjmpBuf, h.handles, ?_, ?_⟩
  · have hinstalled := h.installed frame hframe
    have hne : frame.handle ≠ handle := by
      rintro rfl
      rw [hfresh] at hinstalled
      cases hinstalled
    exact (update_of_ne hne _ _).trans hinstalled
  · intro handle' r' hr'
    rcases hcases _ _ hr' with ⟨-, rfl⟩ | hr'
    · exact hlt
    · exact h.allocated _ _ hr'
  · intro handle' handle'' r' hr' hr''
    rcases hcases _ _ hr' with ⟨rfl, rfl⟩ | hold
    · exact ((hcases _ _ hr'').resolve_right (hnew _)).1.symm
    · rcases hcases _ _ hr'' with ⟨-, rfl⟩ | hold'
      · exact absurd hold (hnew _)
      · exact h.unique _ _ r' hold hold'

lemma Running.prepared (hfresh : st.installed handle = none) : Running (k.prepared st handle) :=
  (h.withRecord _).install hfresh (Nat.lt_succ_self _) fun handle hold =>
    absurd (h.allocated handle _ hold) (lt_irrefl _)

lemma Running.gone : Running (st.gone handle) :=
  ⟨h.installed, h.started, h.longjmpBuf, h.handles, h.allocated, h.unique⟩

lemma Running.freeRecord : Running (st.freeRecord r) :=
  ⟨h.installed, h.started, h.longjmpBuf, h.handles, h.allocated, h.unique⟩

lemma Running.dropped : Running st.dropped := (h.withRecord .zero).freeRecord

lemma Running.leave (hsuffix : rest <:+ st.stack) : Running { st with stack := rest } where
  installed frame hframe := h.installed frame (hsuffix.subset hframe)
  started frame hframe := h.started frame (hsuffix.subset hframe)
  longjmpBuf frame hframe := h.longjmpBuf frame (hsuffix.subset hframe)
  handles := h.handles.sublist (hsuffix.sublist.map _)
  allocated := h.allocated
  unique := h.unique

lemma Running.handle_ne (hsuffix : frame :: rest <:+ st.stack) :
    ∀ frame' ∈ rest, frame'.handle ≠ frame.handle := by
  intro frame' hframe' heq
  have hnodup := (h.leave hsuffix).handles
  rw [map_cons, nodup_cons] at hnodup
  exact hnodup.1 (heq ▸ mem_map_of_mem hframe')

lemma Running.finish {uninstalls : Bool} (hsuffix : frame :: rest <:+ st.stack) :
    Running (finishStart uninstalls frame { st with stack := rest }) := by
  have hleft : Running { st with stack := rest } :=
    h.leave ((suffix_cons frame rest).trans hsuffix)
  refine Running.of_quiet (Running.freeRecord ?_) (finishStart_quiet _ _ _)
  split_ifs
  · refine hleft.gone.uninstall fun frame' hframe' heq => ?_
    exact absurd heq (h.handle_ne hsuffix frame' hframe')
  · exact hleft.gone

lemma Running.start (hinstalled : st.installed handle = some r)
    (hnot : (st.records r).started = false) :
    Running (st.running handle r) := by
  have hne : ∀ frame ∈ st.stack, frame.record ≠ r := by
    intro frame hframe heq
    have hstarted := h.started frame hframe
    rw [heq, hnot] at hstarted
    cases hstarted
  have hset : Running (st.setRecord r { st.records r with
      longjmpBuf := some st.nextFrame
      started := true }) :=
    h.of_records (fun frame hframe => update_of_ne (hne frame hframe) _ _) (le_refl _)
  refine ⟨forall_mem_cons.mpr ⟨hinstalled, hset.installed⟩,
    forall_mem_cons.mpr ⟨?_, hset.started⟩, forall_mem_cons.mpr ⟨?_, hset.longjmpBuf⟩, ?_,
    h.allocated, h.unique⟩
  · simp [running, setRecord]
  · simp [running, setRecord]
  · show (handle :: st.stack.map Frame.handle).Nodup
    refine nodup_cons.mpr ⟨fun hmem => ?_, h.handles⟩
    obtain ⟨frame, hframe, rfl⟩ := mem_map.mp hmem
    have hsame := h.installed frame hframe
    rw [hinstalled] at hsame
    exact hne frame hframe (Option.some.inj hsame).symm

lemma Running.withCache (cache : SectionCache) (loaded : ℕ → Option Loaded) :
    Running { st with cache := cache, loaded := loaded } :=
  ⟨h.installed, h.started, h.longjmpBuf, h.handles, h.allocated, h.unique⟩

lemma running_step {call : Call} (hfresh : st.Fresh call)
    (hstep : st.step sha256 call = some st') : Running st' := by
  cases step_effect hstep with
  | nothing hquiet => exact h.of_quiet hquiet
  | drops hquiet => exact h.dropped.of_quiet hquiet
  | @refuses k _ _ _ hhandles _ hquiet =>
    have hprepared := h.prepared (k := k) (hfresh _ hhandles.install).1
    refine Running.of_quiet (Running.freeRecord ((hprepared.withCache _ _).uninstall ?_)) hquiet
    intro frame hframe _
    exact h.record_ne hframe
  | @loads k _ _ _ _ hhandles _ _ hquiet =>
    have hprepared := h.prepared (k := k) (hfresh _ hhandles.install).1
    exact (hprepared.withCache _ _).of_quiet hquiet
  | starts hinstalled hnot heq =>
    rw [heq]
    exact h.start hinstalled hnot
  | finishes hquiet hsuffix heq =>
    rw [heq]
    exact (h.of_quiet hquiet).finish hsuffix
  | unloads hinstalled hquiet => exact Running.of_quiet h.gone.freeRecord hquiet
  | refusesStage _ _ hquiet => exact (h.withCache _ _).of_quiet hquiet
  | loadsStage _ _ _ hquiet => exact (h.withCache _ _).of_quiet hquiet
  | endsStage heq =>
    rw [heq]
    exact h.withCache _ _

end

end

/-! ## No record is used after it has been freed -/

/-- The call leaves no protocol behind: its image is not refused, it unloads no image of ours, and the
firmware uninstalls what it is asked to. -/
def LoaderState.KeepsRecords (sha256 : List UInt8 → List UInt8) (st : LoaderState) : Call → Prop
  | .loadImage k => ∀ b handle, k.Handles sha256 st.cache b handle →
      ∃ image, (handleImage (k.image.env b.parentVerified) b.file).Yields image
  | .imageReturns uninstalls => uninstalls = true
  | .unloadImage handle _ _ => st.installed handle = none
  | .exit _ _ _ uninstalls => uninstalls = true
  | _ => True

/-- The records on handles are not freed, and none is freed twice. -/
structure Owned (st : LoaderState) : Prop extends Running st where
  live : ∀ handle r, st.installed handle = some r → st.freed r = 0
  once : ∀ r, st.freed r ≤ 1
  unused : ∀ r, st.nextRecord ≤ r → st.freed r = 0

section

variable {sha256 : List UInt8 → List UInt8} {k : LoadCall} {r handle : ℕ} {st st' : LoaderState}
  {frame : Frame} {rest : List Frame}

lemma owned_init : Owned .init := by
  refine ⟨running_init, ?_, ?_, ?_⟩
  all_goals simp [LoaderState.init, freed]

section

variable (h : Owned st)
include h

lemma Owned.of_quiet (hquiet : Quiet st st') : Owned st' := by
  refine ⟨h.toRunning.of_quiet hquiet, ?_, ?_, ?_⟩
  · rw [hquiet.installed]
    intro handle r hr
    rw [hquiet.freed]
    exact h.live handle r hr
  · intro r
    rw [hquiet.freed]
    exact h.once r
  · rw [hquiet.nextRecord]
    intro r hr
    rw [hquiet.freed]
    exact h.unused r hr

lemma Owned.dropped : Owned st.dropped := by
  have hfreed : ∀ r, st.dropped.freed r = st.freed r + if st.nextRecord = r then 1 else 0 :=
    fun r => freed_freeRecord r
  have hnew := h.unused st.nextRecord (le_refl _)
  refine ⟨h.toRunning.dropped, fun handle r hr => ?_, fun r => ?_, fun r hr => ?_⟩
  · have hlt := h.allocated handle r hr
    rw [hfreed, if_neg (by omega), h.live handle r hr]
  · rw [hfreed]
    by_cases heq : st.nextRecord = r
    · rw [if_pos heq, ← heq, hnew]
    · rw [if_neg heq]
      exact h.once r
  · replace hr : st.nextRecord + 1 ≤ r := hr
    rw [hfreed, if_neg (by omega), h.unused r (by omega)]

lemma Owned.prepared (hfresh : st.installed handle = none) : Owned (k.prepared st handle) := by
  refine ⟨h.toRunning.prepared hfresh, fun handle' r hr => ?_, h.once, fun r hr => ?_⟩
  · show st.freed r = 0
    replace hr : Function.update st.installed handle (some st.nextRecord) handle' = some r := hr
    by_cases heq : handle' = handle
    · rw [heq, update_self] at hr
      rw [← Option.some.inj hr]
      exact h.unused _ (le_refl _)
    · rw [update_of_ne heq] at hr
      exact h.live handle' r hr
  · replace hr : st.nextRecord + 1 ≤ r := hr
    exact h.unused r (by omega)

lemma Owned.finish (hsuffix : frame :: rest <:+ st.stack) :
    Owned (finishStart true frame { st with stack := rest }) := by
  have hinstalled := h.installed frame (hsuffix.subset mem_cons_self)
  have hquiet := finishStart_quiet { st with stack := rest } true frame
  have hgone : (({ st with stack := rest }).gone frame.handle).uninstall frame.handle frame.record =
      { ({ st with stack := rest }).gone frame.handle with
        installed := Function.update st.installed frame.handle none } := if_pos hinstalled
  rw [if_pos rfl, hgone] at hquiet
  have hfreed : ∀ r, (finishStart true frame { st with stack := rest }).freed r =
      st.freed r + if frame.record = r then 1 else 0 := by
    intro r
    rw [hquiet.freed, freed_freeRecord]
    rfl
  have hrecord := h.live _ _ hinstalled
  refine ⟨h.toRunning.finish hsuffix, ?_, fun r => ?_, ?_⟩
  · rw [hquiet.installed]
    intro handle r hr
    replace hr : Function.update st.installed frame.handle none handle = some r := hr
    have hne : handle ≠ frame.handle := by
      rintro rfl
      rw [update_self] at hr
      cases hr
    rw [update_of_ne hne] at hr
    have hother : frame.record ≠ r := by
      rintro rfl
      exact hne (h.unique _ _ _ hr hinstalled)
    rw [hfreed, if_neg hother, h.live handle r hr]
  · rw [hfreed]
    by_cases heq : frame.record = r
    · rw [if_pos heq, ← heq, hrecord]
    · rw [if_neg heq]
      exact h.once r
  · rw [hquiet.nextRecord]
    intro r hr
    have hlt := h.allocated _ _ hinstalled
    replace hr : st.nextRecord ≤ r := hr
    rw [hfreed, if_neg (by omega), h.unused r hr]

lemma Owned.withCache (cache : SectionCache) (loaded : ℕ → Option Loaded) :
    Owned { st with cache := cache, loaded := loaded } :=
  ⟨h.toRunning.withCache cache loaded, h.live, h.once, h.unused⟩

lemma owned_step {call : Call} (hfresh : st.Fresh call)
    (hkeeps : st.KeepsRecords sha256 call) (hstep : st.step sha256 call = some st') :
    Owned st' := by
  cases step_effect hstep with
  | nothing hquiet => exact h.of_quiet hquiet
  | drops hquiet => exact h.dropped.of_quiet hquiet
  | refuses hhandles hout _ =>
    obtain ⟨image, himage⟩ := hkeeps _ _ hhandles
    rw [Run.Yields, hout] at himage
    cases himage
  | @loads k _ _ _ _ hhandles _ _ hquiet =>
    have hprepared := h.prepared (k := k) (hfresh _ hhandles.install).1
    exact (hprepared.withCache _ _).of_quiet hquiet
  | starts hinstalled hnot heq =>
    rw [heq]
    exact ⟨h.toRunning.start hinstalled hnot, h.live, h.once, h.unused⟩
  | finishes hquiet hsuffix heq =>
    have huninstalls : call.uninstalls = true := by
      cases call with
      | imageReturns uninstalls => exact hkeeps
      | exit handle foreign args uninstalls => exact hkeeps
      | _ => rfl
    rw [heq, huninstalls]
    exact (h.of_quiet hquiet).finish hsuffix
  | unloads hinstalled _ =>
    rw [LoaderState.KeepsRecords, hinstalled] at hkeeps
    cases hkeeps
  | refusesStage _ _ hquiet => exact (h.withCache _ _).of_quiet hquiet
  | loadsStage _ _ _ hquiet => exact (h.withCache _ _).of_quiet hquiet
  | endsStage heq =>
    rw [heq]
    exact h.withCache _ _

end

/-- In every run whose calls leave no protocol behind, no handle gives a record that has been freed,
and no record is freed twice. -/
theorem installed_not_freed {calls : List Call} (hcalls : Along (LoaderState.step sha256)
      (fun st call => st.Fresh call ∧ st.KeepsRecords sha256 call) .init calls)
    (hrun : calls.foldlM (LoaderState.step sha256) .init = some st) :
    (∀ handle r, st.installed handle = some r → st.freed r = 0) ∧ ∀ r, st.freed r ≤ 1 := by
  have howned : Owned st := hcalls.invariant Owned owned_init
    (fun s call t hs hgood hstep => owned_step hs hgood.1 hgood.2 hstep) hrun
  exact ⟨howned.live, howned.once⟩

end

abbrev workingStep := LoaderState.step workingSha256.sha256

abbrev workingRun (calls : List Call) : Option LoaderState := calls.foldlM workingStep .init

/-- An image that is unloaded leaves its protocol behind, and is freed again when it is unloaded
again. -/
theorem unloadImage_leaves_freed :
    let load := Call.loadImage (fileCall codeImage 7)
    let unload := Call.unloadImage 7 .success .success
    (workingRun [load, unload]).map (fun st => (st.installed 7, st.freed 0)) = some (some 0, 1) ∧
    (workingRun [load, unload, unload]).map (fun st => st.freed 0) = some 2 ∧
    (workingRun [.loadImage (fileCall (entryImage 0x100f 0x60000020) 7)]).map
      (fun st => (st.installed 7, st.freed 0)) = some (some 0, 1) := by
  decide +kernel

theorem installed_not_freed_returns :
    let calls : List Call := [.loadImage (fileCall codeImage 7), .startImage 7 .success .success,
      .imageReturns true]
    Along workingStep
      (fun st call => st.Fresh call ∧ st.KeepsRecords workingSha256.sha256 call) .init calls ∧
    ∀ st, workingRun calls = some st →
      (∀ handle r, st.installed handle = some r → st.freed r = 0) ∧ ∀ r, st.freed r ≤ 1 := by
  intro calls
  have haccepted : ∃ image, (handleImage ((fileCall codeImage 7).image.env false) codeImage).Yields
      image :=
    Run.exists_yields_of_isOk (by decide +kernel)
  have hkeeps : LoaderState.init.KeepsRecords workingSha256.sha256
      (.loadImage (fileCall codeImage 7)) := by
    intro b handle hhandles
    obtain rfl : b = ⟨codeImage, false, true⟩ := Except.ok.inj hhandles.buffer.symm
    exact haccepted
  have hcalls : Along workingStep
      (fun st call => st.Fresh call ∧ st.KeepsRecords workingSha256.sha256 call) .init calls :=
    ⟨⟨fun _ _ => ⟨rfl, rfl⟩, hkeeps⟩, fun _ _ => ⟨⟨trivial, trivial⟩, fun _ _ => ⟨⟨trivial, rfl⟩,
      fun _ _ => trivial⟩⟩⟩
  refine ⟨hcalls, ?_⟩
  intro st hrun
  exact installed_not_freed hcalls hrun

/-! ## The target of the jump -/

/-- `Exit` is called for an image that is not ours or for the one started last among those that run,
and no image is unloaded while it runs. -/
def LoaderState.ExitsCurrent (st : LoaderState) : Call → Prop
  | .exit handle _ _ _ =>
    st.installed handle = none ∨ st.stack.head?.map Frame.handle = some handle
  | .unloadImage handle _ _ => ∀ frame ∈ st.stack, frame.handle ≠ handle
  | _ => True

/-- In every run in which `Exit` is called for the current image, a `shim_exit` that jumps does so
into a `shim_start_image` for the same handle that has not returned and has executed `setjmp`. -/
theorem exit_jumps_into_start {sha256 : List UInt8 → List UInt8} {st : LoaderState}
    {calls : List Call} {handle r : ℕ} {foreign : EfiStatus} {args : ExitArgs} {uninstalls : Bool}
    (hcalls : Along (LoaderState.step sha256)
      (fun st call => st.Fresh call ∧ st.ExitsCurrent call) .init
      (calls ++ [.exit handle foreign args uninstalls]))
    (hrun : calls.foldlM (LoaderState.step sha256) .init = some st)
    (hjumps : st.installed handle = some r) :
    ∃ frame ∈ st.stack, frame.handle = handle ∧ (st.records r).longjmpBuf = some frame.id := by
  have hrunning : Running st := hcalls.init.invariant Running running_init
    (fun s call t hs hgood hstep => running_step hs hgood.1 hstep) hrun
  have hcurrent : st.installed handle = none ∨ st.stack.head?.map Frame.handle = some handle :=
    (hcalls.last hrun).2
  rw [hjumps] at hcurrent
  obtain ⟨frame, hframe, hhandle⟩ := map_eq_some_iff.mp (hcurrent.resolve_left (by simp))
  have hmem : frame ∈ st.stack := mem_of_head? hframe
  refine ⟨frame, hmem, hhandle, ?_⟩
  have hrecord := hrunning.installed frame hmem
  rw [hhandle, hjumps] at hrecord
  rw [Option.some.inj hrecord]
  exact hrunning.longjmpBuf frame hmem

/-- `Exit` for an image that has not been started jumps to nothing. An image that exits the one that
has started it has lost its own call, but not its `jmp_buf`. -/
theorem exit_jumps_nowhere :
    (workingRun [.loadImage (fileCall codeImage 7)]).map (fun st =>
      (st.installed 7, (st.records 0).longjmpBuf, st.stack,
        (workingStep st (.exit 7 .success ⟨.success, 0, 0⟩ true)).isSome)) =
      some (some 0, none, [], false) ∧
    (workingRun [.loadImage (fileCall codeImage 7), .startImage 7 .success .success,
        .loadImage (fileCall codeImage 8), .startImage 8 .success .success,
        .exit 7 .success ⟨.success, 0, 0⟩ true]).map (fun st =>
      (st.installed 8, (st.records 1).longjmpBuf, st.stack,
        (workingStep st (.exit 8 .success ⟨.success, 0, 0⟩ true)).isSome)) =
      some (some 1, some 1, [], false) := by
  decide +kernel

theorem exit_jumps_into_own_start :
    let calls : List Call := [.loadImage (fileCall codeImage 7), .startImage 7 .success .success]
    Along workingStep (fun st call => st.Fresh call ∧ st.ExitsCurrent call) .init
      (calls ++ [.exit 7 .success ⟨.success, 0, 0⟩ true]) ∧
    ∀ st, workingRun calls = some st →
      ∀ r, st.installed 7 = some r →
        ∃ frame ∈ st.stack, frame.handle = 7 ∧ (st.records r).longjmpBuf = some frame.id := by
  intro calls
  have hcurrent : ((workingStep .init (.loadImage (fileCall codeImage 7))).bind fun st =>
        workingStep st (.startImage 7 .success .success)).map
      (fun st => st.stack.head?.map Frame.handle) = some (some 7) := by decide +kernel
  have hcalls : Along workingStep (fun st call => st.Fresh call ∧ st.ExitsCurrent call) .init
      (calls ++ [.exit 7 .success ⟨.success, 0, 0⟩ true]) := by
    refine ⟨⟨fun _ _ => ⟨rfl, rfl⟩, trivial⟩, fun st₁ h₁ => ⟨⟨trivial, trivial⟩, fun st₂ h₂ => ?_⟩⟩
    rw [h₁, bind_some, h₂, map_some] at hcurrent
    exact ⟨⟨trivial, .inr (Option.some.inj hcurrent)⟩, fun _ _ => trivial⟩
  refine ⟨hcalls, ?_⟩
  intro st hrun r hr
  exact exit_jumps_into_start hcalls hrun hr

end Shim.Loader
