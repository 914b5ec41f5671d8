import Shim.Loader.Lifecycle

/-!
# Whose sections are in the cache

A buffer that is a section of a loaded image is started without a signature of its own: its digest is
looked up under the handle of the image that loads it. So the entries of a handle should be digests of
sections of the image under it. `handle_image` flushes them only if it refuses the entry point;
`start_image` does not, and runs one image after the other under one handle.

* `mem_cacheAfter` — `handle_image` caches digests of an image that it has verified, also if it then
  refuses the image.
* `entries_of_loaded` — the entries of a handle are sections of its image if no digest stays behind.
-/

namespace Shim.Loader

open Lib Pe List Function DigestCalls

/-! ## The entries of an image -/

def HasContent (s : SectionHeader) : Prop :=
  s.has scnMemRead = true ∧ (s.has scnCntCode = true ∨ s.has scnCntInitializedData = true)

/-- The entry is of a section of the image with readable code or initialised data: its size, and the
digest of its bytes in memory. -/
def Loaded.IsSection (l : Loaded) (sha256 : List UInt8 → List UInt8) (e : CacheEntry) : Prop :=
  ∃ i < l.context.numberOfSections,
    HasContent (l.file.row l.context i) ∧ e.size = (l.file.row l.context i).virtualSize ∧
      e.digest = sha256 (l.image.img.slice (l.file.row l.context i).virtualAddress
        (l.file.row l.context i).virtualSize)

section

variable {sha256 : List UInt8 → List UInt8} {k : ImageCall} {parentVerified : Bool} {handle : ℕ}
  {f : File} {c : Context} {buffer : ℕ} {mem : Mem} {rows : List ℕ} {cache : SectionCache}

lemma cacheSection_status (sha256 : List UInt8 → List UInt8) (d : DigestCalls) (handle : ℕ)
    (name data : List UInt8) (cache : SectionCache) :
    (cacheSection d.array (d.env sha256) handle name data cache).1 = d.status := by
  unfold status
  rw [cacheSection_eq, cacheSection_eq]
  rfl

lemma cacheRows_success_iff :
    (cacheRows sha256 k parentVerified handle f c buffer mem rows cache).1 = .success ↔
      ∀ i ∈ rows, (f.row c i).cached parentVerified = true → (k.digests i).status = .success := by
  induction rows generalizing cache with
  | nil => simp [cacheRows]
  | cons i rows ih =>
    rw [cacheRows, forall_mem_cons]
    by_cases hcached : (f.row c i).cached parentVerified = true
    · rw [if_pos hcached]
      dsimp only
      by_cases hstatus : (k.digests i).status = .success
      · rw [if_neg (by rw [cacheSection_status]; exact not_not.mpr hstatus), ih]
        simp [hstatus]
      · rw [if_pos (by rw [cacheSection_status]; exact hstatus), cacheSection_status]
        simp [hstatus, hcached]
    · rw [if_neg hcached, ih]
      simp [hcached]

def rowEntry (sha256 : List UInt8 → List UInt8) (handle : ℕ) (f : File) (c : Context) (buffer : ℕ)
    (mem : Mem) (i : ℕ) : CacheEntry :=
  ⟨handle, (f.row c i).name.take 8 ++ [0], rawLength c buffer (f.row c i),
    sha256 (mem.slice ((f.row c i).base c buffer) (rawLength c buffer (f.row c i)))⟩

lemma mem_cacheRows {e : CacheEntry}
    (he : e ∈ (cacheRows sha256 k parentVerified handle f c buffer mem rows cache).2.list) :
    e ∈ cache.list ∨ ∃ i ∈ rows, (f.row c i).cached parentVerified = true ∧
      e = rowEntry sha256 handle f c buffer mem i := by
  induction rows generalizing cache with
  | nil => exact .inl he
  | cons i rows ih =>
    have hlater : ∀ {cache : SectionCache}, (e ∈ cache.list ∨ ∃ j ∈ rows,
        (f.row c j).cached parentVerified = true ∧ e = rowEntry sha256 handle f c buffer mem j) →
        e ∈ cache.list ∨ ∃ j ∈ i :: rows, (f.row c j).cached parentVerified = true ∧
          e = rowEntry sha256 handle f c buffer mem j :=
      fun h => h.imp id fun ⟨j, hj, hrow⟩ => ⟨j, mem_cons_of_mem i hj, hrow⟩
    rw [cacheRows] at he
    by_cases hcached : (f.row c i).cached parentVerified = true
    · rw [if_pos hcached] at he
      dsimp only at he
      split_ifs at he with hfails
      · rw [cacheSection_of_failure hfails] at he
        exact .inl he
      rcases hlater (ih he) with hnew | hold
      · rw [cacheSection_of_success (not_not.mp hfails), mem_append, mem_singleton,
          Mem.length_slice] at hnew
        exact hnew.imp id fun heq => ⟨i, mem_cons_self, hcached, heq⟩
      · exact .inr hold
    · rw [if_neg hcached] at he
      exact hlater (ih he)

lemma slice_section {s : SectionHeader} (img memory : Mem) (hsize : c.imageSize < 2 ^ 32)
    (hbase : s.base c buffer ≠ 0) (hlast : s.last c buffer ≠ 0)
    (horder : s.base c buffer ≤ s.last c buffer) :
    rawLength c buffer s = s.virtualSize ∧
      (addressSpace buffer c.imageSize img memory).slice (s.base c buffer) s.virtualSize =
        img.slice s.virtualAddress s.virtualSize := by
  obtain ⟨hbaseEq, hlastEq, heq, hpos, hinside, hword⟩ := ends_inside hsize hbase hlast horder
  have hvsize := s.virtualSize_lt
  constructor
  · unfold rawLength
    rw [subW_of_le (by omega) horder, addW_of_lt (by omega)]
    omega
  · rw [hbaseEq, Mem.slice_eq_iff]
    intro i hi
    have hin : buffer ≤ buffer + s.virtualAddress + i ∧
        buffer + s.virtualAddress + i < buffer + c.imageSize := by omega
    have hoff : buffer + s.virtualAddress + i - buffer = s.virtualAddress + i := by omega
    unfold addressSpace
    rw [if_pos hin, hoff]

lemma hasContent_of_cached {s : SectionHeader} (h : s.cached parentVerified = true) :
    HasContent s ∧ s.skipped = false := by
  unfold SectionHeader.cached at h
  simp only [Bool.and_eq_true, Bool.or_eq_true, Bool.not_eq_true'] at h
  exact ⟨⟨h.1.2, h.1.1.2⟩, h.1.1.1⟩

end

/-! ## The cache after `handle_image` -/

/-- The discardable sections that are cached lie in the image like the others. -/
def ImageCall.CachesInside (k : ImageCall) (parentVerified : Bool) (f : File) : Prop :=
  ∀ c addr, checkImage (k.env parentVerified) f = .ok c →
    k.machine.load.allocatePages (allocPages c) = some addr → ∀ i < c.numberOfSections,
      (f.row c i).cached parentVerified = true → (f.row c i).has scnMemDiscardable = true →
        (f.row c i).base c (imageBuffer c addr) ≠ 0 ∧ (f.row c i).last c (imageBuffer c addr) ≠ 0

/-- The digests of `handle_image` can be computed and stored, and are of sections in the image. -/
structure ImageCall.CachesOwn (k : ImageCall) (parentVerified : Bool) (f : File) : Prop where
  digests : ∀ c, checkImage (k.env parentVerified) f = .ok c → ∀ i < c.numberOfSections,
    (f.row c i).cached parentVerified = true → (k.digests i).status = .success
  inside : k.CachesInside parentVerified f

/-- The image is the file as `handle_image` has copied and relocated it in the pages that it got. -/
def Loaded.Built (l : Loaded) (env : HandleEnv) : Prop :=
  ∃ addr st, env.load.allocatePages (allocPages l.context) = some addr ∧
    l.image.buffer = imageBuffer l.context addr ∧
    (prepareStage env.load l.file l.context l.image.buffer).Yields (st, l.image.img)

section

variable {k : ImageCall} {parentVerified : Bool} {f : File} {c : Context} {image : LoadedImage}
  {s : EfiStatus}

lemma ImageCall.built (hcheck : checkImage (k.env parentVerified) f = .ok c)
    (hout : (handleImage (k.env parentVerified) f).out = .ok image) :
    Loaded.Built ⟨f, c, image⟩ k.machine := by
  obtain ⟨c', addr, hcheck', halloc, hload⟩ := handleImage_yields hout
  obtain rfl := Except.ok.inj (hcheck.symm.trans hcheck')
  rw [loadAt, Run.yields_bind] at hload
  obtain ⟨⟨st, img⟩, hprepare, hfinish⟩ := hload
  obtain ⟨-, -, rfl⟩ := finishStage_yields_iff.mp hfinish
  exact ⟨addr, st, halloc, rfl, hprepare⟩

/-- The cache that `handle_image` leaves has the entries that were there, and digests of sections of
an image that has been through its checks and that it has built. -/
theorem mem_cacheAfter {sha256 : List UInt8 → List UInt8} {handle : ℕ} {cache : SectionCache}
    {e : CacheEntry} (hinside : k.CachesInside parentVerified f)
    (he : e ∈ (k.cacheAfter sha256 parentVerified handle f cache).list) :
    e ∈ cache.list ∨ e.parentImageHandle = handle ∧ ∃ c,
      checkImage (k.env parentVerified) f = .ok c ∧ (∃ image, Loaded.Built ⟨f, c, image⟩ k.machine) ∧
        ∀ image, Loaded.Built ⟨f, c, image⟩ k.machine → Loaded.IsSection ⟨f, c, image⟩ sha256 e := by
  unfold ImageCall.cacheAfter at he
  split at he
  · exact .inl he
  rename_i c hcheck
  split at he
  · exact .inl he
  rename_i addr halloc
  dsimp only at he
  split at he
  · exact .inl he
  rename_i st img hprepare
  have hmem : e ∈ (cacheRows sha256 k parentVerified handle f c (imageBuffer c addr)
      (addressSpace (imageBuffer c addr) c.imageSize img k.memory)
      (List.range c.numberOfSections) cache).2.list := by
    split_ifs at he
    · exact he
    · exact he
    · exact flushCachedSections_subset _ _ e he
  refine (mem_cacheRows hmem).imp id ?_
  rintro ⟨i, hi, hcached, rfl⟩
  replace hi := mem_range.mp hi
  obtain ⟨hcontent, hkept⟩ := hasContent_of_cached hcached
  have hrow := (prepareStage_yields.mp hprepare).2.1.rows i hi hkept
  have hends : (f.row c i).base c (imageBuffer c addr) ≠ 0 ∧
      (f.row c i).last c (imageBuffer c addr) ≠ 0 := by
    by_cases hdisc : (f.row c i).has scnMemDiscardable = true
    · exact hinside c addr hcheck halloc i hi hcached hdisc
    · have hloads : (f.row c i).has scnMemDiscardable = false := by simpa using hdisc
      exact ⟨hrow.base hloads, hrow.last hloads⟩
  obtain ⟨hlength, hslice⟩ := slice_section img k.memory (checkImage_imageSize_lt hcheck) hends.1
    hends.2 hrow.order
  refine ⟨rfl, c, hcheck, ⟨⟨imageBuffer c addr, img, 0⟩, addr, st, halloc, rfl, hprepare⟩, ?_⟩
  -- the pages and the image in them are those of the call
  rintro ⟨buffer, img', entry⟩ ⟨addr', st', halloc', hbuffer, hprepare'⟩
  obtain rfl := Option.some.inj (halloc.symm.trans halloc')
  obtain rfl : buffer = imageBuffer c addr := hbuffer
  cases hprepare.symm.trans hprepare'
  refine ⟨i, hi, hcontent, hlength, ?_⟩
  rw [rowEntry, hlength, hslice]

section

variable (sha256 : List UInt8 → List UInt8) (handle : ℕ) (cache : SectionCache)
  (hown : k.CachesOwn parentVerified f)
include hown

lemma cacheAfter_of_loaded (hout : (handleImage (k.env parentVerified) f).out = .ok image)
    (hcheck : checkImage (k.env parentVerified) f = .ok c) :
    ∀ e ∈ (k.cacheAfter sha256 parentVerified handle f cache).list,
      e ∈ cache.list ∨ e.parentImageHandle = handle ∧ Loaded.IsSection ⟨f, c, image⟩ sha256 e := by
  intro e he
  refine (mem_cacheAfter hown.inside he).imp id ?_
  rintro ⟨hhandle, c', hcheck', -, hsection⟩
  obtain rfl := Except.ok.inj (hcheck.symm.trans hcheck')
  exact ⟨hhandle, hsection image (ImageCall.built hcheck hout)⟩

lemma cacheAfter_of_refused
    (hout : (handleImage (k.env parentVerified) f).out = .error (.status s)) :
    ∀ e ∈ (k.cacheAfter sha256 parentVerified handle f cache).list, e ∈ cache.list := by
  intro e he
  unfold ImageCall.cacheAfter at he
  cases hcheck : checkImage (k.env parentVerified) f with
  | error stop =>
    rw [hcheck] at he
    exact he
  | ok c =>
    rw [hcheck] at he
    dsimp only at he
    cases halloc : k.machine.load.allocatePages (allocPages c) with
    | none =>
      rw [halloc] at he
      exact he
    | some addr =>
      rw [halloc] at he
      dsimp only at he
      cases hprepare : (prepareStage (k.env parentVerified).load f c (imageBuffer c addr)).out with
      | error status =>
        rw [hprepare] at he
        exact he
      | ok p =>
        rw [hprepare] at he
        dsimp only at he
        have hdigests : ∀ i ∈ List.range c.numberOfSections,
            (f.row c i).cached parentVerified = true → (k.digests i).status = .success := by
          intro i hi
          exact hown.digests c hcheck i (mem_range.mp hi)
        -- the sections are all cached, so it is the entry point that is refused
        have hfound : ¬ p.1.found = 1 := by
          intro hfound
          have hload : (loadAt (k.env parentVerified).load f c (imageBuffer c addr)).Yields
              ⟨imageBuffer c addr, p.2,
                imageAddress (imageBuffer c addr) c.imageSize c.entryPoint⟩ := by
            rw [loadAt, Run.yields_bind]
            refine ⟨p, hprepare, finishStage_yields_iff.mpr ⟨?_, hfound, rfl⟩⟩
            exact hown.digests c hcheck
          rw [← handleImage_yields_iff hcheck halloc, Run.Yields, hout] at hload
          cases hload
        rw [if_neg (not_not.mpr (cacheRows_success_iff.mpr hdigests)), if_neg hfound] at he
        have hne := flushCachedSections_not_mem _ _ e he
        have hmem := flushCachedSections_subset _ _ e he
        refine (mem_cacheRows hmem).resolve_right ?_
        rintro ⟨i, -, -, rfl⟩
        exact hne rfl

end

end

/-! ## Runs -/

/-- Every entry of the cache is of a section of the image that is loaded under its handle. -/
def Describes (sha256 : List UInt8 → List UInt8) (st : LoaderState) : Prop :=
  ∀ e ∈ st.cache.list, ∃ l, st.loaded e.parentImageHandle = some l ∧ l.IsSection sha256 e

/-- The call leaves no digest behind: what `start_image` loads replaces no image, and what returns
has no section that is cached. -/
def LoaderState.KeepsDigests (sha256 : List UInt8 → List UInt8) (st : LoaderState) : Call → Prop
  | .loadImage k => ∀ b handle, k.Handles sha256 st.cache b handle →
      k.image.CachesOwn b.parentVerified b.file
  | .startStage k => st.loaded k.handle = none ∧
      ∀ f, k.attempt.file = .ok f → k.image.CachesOwn false f
  | .stageReturns handle => ∀ l, st.loaded handle = some l →
      ∀ i < l.context.numberOfSections, ¬ HasContent (l.file.row l.context i)
  | _ => True

section

variable {sha256 : List UInt8 → List UInt8} {st st' : LoaderState}

lemma describes_init : Describes sha256 .init := by
  intro e he
  cases he

section

variable (h : Describes sha256 st)
include h

lemma Describes.of_quiet (hquiet : Quiet st st') : Describes sha256 st' := by
  unfold Describes
  rw [hquiet.cache, hquiet.loaded]
  exact h

lemma Describes.gone (handle : ℕ) : Describes sha256 (st.gone handle) := by
  intro e he
  obtain ⟨l, hloaded, hsection⟩ := h e (flushCachedSections_subset _ _ e he)
  refine ⟨l, ?_, hsection⟩
  show Function.update st.loaded handle none e.parentImageHandle = some l
  rw [update_of_ne (flushCachedSections_not_mem _ _ e he)]
  exact hloaded

lemma Describes.loads {handle : ℕ} {l : Loaded} {cache : SectionCache}
    (hnone : st.loaded handle = none)
    (hcache : ∀ e ∈ cache.list,
      e ∈ st.cache.list ∨ e.parentImageHandle = handle ∧ l.IsSection sha256 e) :
    Describes sha256
      { st with cache := cache, loaded := Function.update st.loaded handle (some l) } := by
  intro e he
  rcases hcache e he with hold | ⟨hhandle, hsection⟩
  · obtain ⟨l', hloaded, hsection⟩ := h e hold
    refine ⟨l', ?_, hsection⟩
    show Function.update st.loaded handle (some l) e.parentImageHandle = some l'
    rw [update_of_ne, hloaded]
    intro heq
    rw [heq, hnone] at hloaded
    cases hloaded
  · refine ⟨l, ?_, hsection⟩
    show Function.update st.loaded handle (some l) e.parentImageHandle = some l
    rw [hhandle, update_self]

lemma Describes.refuses {cache : SectionCache}
    (hcache : ∀ e ∈ cache.list, e ∈ st.cache.list) :
    Describes sha256 { st with cache := cache } :=
  fun e he => h e (hcache e he)

lemma Describes.freeRecord {r : ℕ} : Describes sha256 (st.freeRecord r) := h

end

@[simp] lemma uninstall_cache {handle r : ℕ} : (st.uninstall handle r).cache = st.cache := by
  unfold LoaderState.uninstall
  split_ifs <;> rfl

@[simp] lemma uninstall_loaded {handle r : ℕ} : (st.uninstall handle r).loaded = st.loaded := by
  unfold LoaderState.uninstall
  split_ifs <;> rfl

lemma Describes.uninstall (h : Describes sha256 st) {handle r : ℕ} :
    Describes sha256 (st.uninstall handle r) := by
  unfold Describes
  rw [uninstall_cache, uninstall_loaded]
  exact h

lemma describes_step {call : Call} (h : Describes sha256 st) (hfresh : st.Fresh call)
    (hkeeps : st.KeepsDigests sha256 call) (hstep : st.step sha256 call = some st') :
    Describes sha256 st' := by
  cases step_effect hstep with
  | nothing hquiet => exact h.of_quiet hquiet
  | drops hquiet =>
    have hdropped : Describes sha256 st.dropped := h
    exact hdropped.of_quiet hquiet
  | @refuses k b handle _ hhandles hout hquiet =>
    have hrefused := cacheAfter_of_refused sha256 handle st.cache (hkeeps _ _ hhandles) hout
    have hprepared : Describes sha256 (k.prepared st handle) := h
    exact (hprepared.refuses hrefused).uninstall.freeRecord.of_quiet hquiet
  | @loads k b handle image c hhandles hout hcheck hquiet =>
    have hloaded := cacheAfter_of_loaded sha256 handle st.cache (hkeeps _ _ hhandles) hout hcheck
    have hprepared : Describes sha256 (k.prepared st handle) := h
    exact (hprepared.loads (hfresh _ hhandles.install).2 hloaded).of_quiet hquiet
  | starts hinstalled hnot heq =>
    rw [heq]
    exact h
  | @finishes _ mid frame rest hquiet hsuffix heq =>
    rw [heq]
    have hmid : Describes sha256 mid := h.of_quiet hquiet
    have hleft : Describes sha256 { mid with stack := rest } := hmid
    refine Describes.of_quiet (Describes.freeRecord ?_) (finishStart_quiet _ _ _)
    split_ifs
    · exact (hleft.gone frame.handle).uninstall
    · exact hleft.gone frame.handle
  | unloads hinstalled hquiet => exact (h.gone _).freeRecord.of_quiet hquiet
  | @refusesStage k _ _ hfile hout hquiet =>
    have hrefused := cacheAfter_of_refused sha256 k.handle st.cache (hkeeps.2 _ hfile) hout
    exact (h.refuses hrefused).of_quiet hquiet
  | @loadsStage k _ _ _ hfile hout hcheck hquiet =>
    have hloaded := cacheAfter_of_loaded sha256 k.handle st.cache (hkeeps.2 _ hfile) hout hcheck
    exact (h.loads hkeeps.1 hloaded).of_quiet hquiet
  | @endsStage handle heq =>
    rw [heq]
    intro e he
    obtain ⟨l, hloaded, hsection⟩ := h e he
    refine ⟨l, ?_, hsection⟩
    show Function.update st.loaded handle none e.parentImageHandle = some l
    rw [update_of_ne, hloaded]
    intro hhandle
    obtain ⟨i, hi, hcontent, -⟩ := hsection
    rw [hhandle] at hloaded
    exact hkeeps l hloaded i hi hcontent

/-- In a run in which no digest is left behind, the entries of a handle are digests of sections of
the image that is loaded under it, and a buffer that is accepted has the size and the digest of one.
-/
theorem entries_of_loaded {calls : List Call} (hcalls : Along (LoaderState.step sha256)
      (fun st call => st.Fresh call ∧ st.KeepsDigests sha256 call) .init calls)
    (hrun : calls.foldlM (LoaderState.step sha256) .init = some st) :
    (∀ e ∈ st.cache.list, ∃ l, st.loaded e.parentImageHandle = some l ∧ l.IsSection sha256 e) ∧
      ∀ (digests : ℕ → DigestCalls) (handle : ℕ) (data : List UInt8),
        validateCachedSection (fun i => (digests i).env sha256) handle data st.cache = .success →
          ∃ l, st.loaded handle = some l ∧ ∃ e, l.IsSection sha256 e ∧ e.size = data.length ∧
            e.digest = sha256 data := by
  have hdescribes : Describes sha256 st := hcalls.invariant (Describes sha256) describes_init
    (fun s call t hs hgood hstep => describes_step hs hgood.1 hgood.2 hstep) hrun
  refine ⟨hdescribes, fun digests handle data hvalid => ?_⟩
  obtain ⟨e, he, hhandle, hlength, _, hdigest⟩ := validateCachedSection_success hvalid
  obtain ⟨l, hloaded, hsection⟩ := hdescribes e he
  exact ⟨l, hhandle ▸ hloaded, e, hsection, hlength, hdigest⟩

end

def stageCall (f : File) : StageCall :=
  ⟨1, ⟨.ok f, true, insecureEnv false, .success⟩, false, 0, fun _ => .working, fun _ => 0⟩

/-- A first image returns to `start_image`. A second one under the handle has nothing but
uninitialised data, and a section of the first one is accepted for it. -/
theorem stageReturns_leaves_entries :
    (workingRun [.startStage (stageCall codeImage), .stageReturns 1]).map (fun st =>
      (st.cache.list.map CacheEntry.parentImageHandle, (st.loaded 1).isSome,
        validateCachedSection (fun _ => working.env workingSha256.sha256) 1
          (List.replicate 16 0) st.cache)) = some ([1], false, .success) ∧
    (workingRun [.startStage (stageCall codeImage), .stageReturns 1,
        .startStage (stageCall (entryImage 0x1000 0x60000080))]).map (fun st =>
      (st.cache.list.map CacheEntry.parentImageHandle, (st.loaded 1).map fun l =>
          (l.context.numberOfSections, (l.file.row l.context 0).characteristics),
        validateCachedSection (fun _ => working.env workingSha256.sha256) 1
          (List.replicate 16 0) st.cache)) = some ([1], some (1, 0x60000080), .success) := by
  decide +kernel

lemma codeImage_cachesInside (k : ImageCall) : k.CachesInside false codeImage := by
  have hloads : ∀ i < (codeImage.context codeImage.peOffset).numberOfSections,
      (codeImage.row (codeImage.context codeImage.peOffset) i).has scnMemDiscardable = false := by
    decide +kernel
  intro c addr hcheck _ i hi _ hdisc
  obtain ⟨rfl, -⟩ := readHeader_ok (checkImage_ok hcheck).1
  rw [hloads i hi] at hdisc
  cases hdisc

theorem entries_of_loaded_text :
    let calls : List Call := [.loadImage (fileCall codeImage 7)]
    Along workingStep
      (fun st call => st.Fresh call ∧ st.KeepsDigests workingSha256.sha256 call) .init calls ∧
    ∀ st, workingRun calls = some st →
      (∀ e ∈ st.cache.list, ∃ l, st.loaded e.parentImageHandle = some l ∧
          l.IsSection workingSha256.sha256 e) ∧
        ∀ (digests : ℕ → DigestCalls) (handle : ℕ) (data : List UInt8),
          validateCachedSection (fun i => (digests i).env workingSha256.sha256) handle data st.cache =
              .success →
            ∃ l, st.loaded handle = some l ∧ ∃ e, l.IsSection workingSha256.sha256 e ∧
              e.size = data.length ∧ e.digest = workingSha256.sha256 data := by
  intro calls
  have hkeeps : LoaderState.init.KeepsDigests workingSha256.sha256
      (.loadImage (fileCall codeImage 7)) := by
    intro b handle hhandles
    obtain rfl : b = ⟨codeImage, false, true⟩ := Except.ok.inj hhandles.buffer.symm
    exact ⟨fun _ _ _ _ _ => rfl, codeImage_cachesInside _⟩
  have hcalls : Along workingStep
      (fun st call => st.Fresh call ∧ st.KeepsDigests workingSha256.sha256 call) .init calls :=
    ⟨⟨fun _ _ => ⟨rfl, rfl⟩, hkeeps⟩, fun _ _ => trivial⟩
  refine ⟨hcalls, ?_⟩
  intro st hrun
  exact entries_of_loaded hcalls hrun

end Shim.Loader
