import Shim.Loader.SectionDigests

/-!
# The chain of trust

In secure mode an image is loaded because its hash or its signature is allowed, or because it has
the digest of a section of an image that has been verified before. `Trusted` is the least set of
images with these two ways in.

* `loaded_trusted` — what is loaded in a run is trusted.
-/

namespace Shim.Loader

open Lib Pe Verify Sbat List Function ImageCall

/-! ## What is trusted -/

/-- What is checked of every image: the headers, the SBAT section, and that no hash of the image is
denied. -/
structure Loaded.Screened (l : Loaded) (env : HandleEnv) (h : ImageHash) : Prop where
  header : readHeader l.file env.platform env.load.mokPolicy true = .ok l.context
  hash : ∃ input, generateHash env.verify.resources l.file l.context = .ok input ∧
    h = env.verify.digest (input.stream l.file.mem)
  denied : ¬ DeniedHash env.verify h
  sbat : verifyBufferSbat env.sbat env.sbatVar l.file l.context = .success

/-- The hash of the image is in a database, or a signature of it is by a certificate there. -/
def Loaded.Allowed (l : Loaded) (env : HandleEnv) (h : ImageHash) : Prop :=
  AllowedHash env.verify h ∨ ∃ o, IsEntry l.file l.context o ∧
    certType l.file l.context o = winCertTypePkcsSignedData ∧
    AllowedCert env.verify (certData l.file l.context o) h ∧
    ¬ DeniedCert env.verify (certData l.file l.context o) h

/-- The images with a chain of sections from one that is allowed itself. The databases of `machines`
are those that are asked. -/
inductive Trusted (machines : HandleEnv → Prop) (sha256 : List UInt8 → List UInt8) : Loaded → Prop
  | verified {l : Loaded} {env : HandleEnv} {h : ImageHash} (hmachine : machines env)
      (hbuilt : l.Built env) (hscreened : l.Screened env h) (hallowed : l.Allowed env h) :
      Trusted machines sha256 l
  | inside {l parent : Loaded} {env : HandleEnv} {h : ImageHash} {e : CacheEntry} {s : Source}
      (hmachine : machines env) (hbuilt : l.Built env) (hscreened : l.Screened env h)
      (hparent : Trusted machines sha256 parent) (hsection : parent.IsSection sha256 e)
      (hfile : l.file = s.file) (hsize : e.size = s.size) (hdigest : e.digest = sha256 s.bytes) :
      Trusted machines sha256 l

section

variable {f : File} {c : Context} {parentVerified : Bool}

lemma ImageCall.screened (k : ImageCall) (hcheck : checkImage (k.env parentVerified) f = .ok c)
    (hsecure : k.machine.secureMode = true) (image : LoadedImage) :
    ∃ hash, Loaded.Screened ⟨f, c, image⟩ k.machine hash ∧
      (parentVerified = false → Loaded.Allowed ⟨f, c, image⟩ k.machine hash) := by
  obtain ⟨hread, hverify, -⟩ := checkImage_eq_ok.mp hcheck
  obtain ⟨hauth, hsbat⟩ := verifyBuffer_eq_success.mp (verifyStage_eq_ok.mp hverify hsecure)
  replace hauth : verifyBufferAuthenticode k.machine.verify f c parentVerified = .ok .success := hauth
  obtain ⟨hint, input, hinput⟩ := verifyBufferAuthenticode_hashed hauth
  rw [verifyBufferAuthenticode_of_hash hint hinput] at hauth
  refine ⟨_, ⟨hread, ⟨input, hinput, rfl⟩, ?_, hsbat⟩, ?_⟩
  · unfold hashVerdict at hauth
    rw [bind_eq_ok] at hauth
    obtain ⟨deny, hdeny, hauth⟩ := hauth
    by_cases hbad : deny ≠ .success
    · rw [if_pos hbad] at hauth
      exact absurd (Except.ok.inj hauth) hbad
    · rw [not_not.mp hbad] at hdeny
      exact (checkDenylist_success hdeny).1
  · rintro rfl
    exact (hashVerdict_accepts hauth).2

end

/-! ## Runs -/

section

variable {machines : HandleEnv → Prop} {sha256 : List UInt8 → List UInt8} {st st' : LoaderState}

def LoaderState.Secured (machines : HandleEnv → Prop) (sha256 : List UInt8 → List UInt8)
    (st : LoaderState) : Call → Prop
  | .loadImage k => machines k.image.machine ∧ k.image.machine.secureMode = true ∧
      ∀ b handle, k.Handles sha256 st.cache b handle → k.image.CachesInside b.parentVerified b.file
  | .startStage k => machines k.image.machine ∧ k.image.machine.secureMode = true ∧
      ∀ f, k.attempt.file = .ok f → k.image.CachesInside false f
  | _ => True

variable (machines sha256) in
/-- What is loaded is trusted, and what is cached are sections of trusted images. -/
structure Trusts (cache : SectionCache) (loaded : ℕ → Option Loaded) : Prop where
  loaded : ∀ handle l, loaded handle = some l → Trusted machines sha256 l
  cached : ∀ e ∈ cache.list, ∃ l, Trusted machines sha256 l ∧ l.IsSection sha256 e

lemma buffer_parentVerified {k : LoadCall} {b : Buffer} {cache : SectionCache}
    (h : k.buffer sha256 cache = .ok b) (hparent : b.parentVerified = true) :
    ∃ (s : Source) (e : CacheEntry), b.file = s.file ∧ e ∈ cache.list ∧ e.size = s.size ∧
      e.digest = sha256 s.bytes := by
  unfold LoadCall.buffer at h
  by_cases hpolicy : k.bootPolicy = true
  · rw [if_pos hpolicy] at h
    cases h
  rw [if_neg hpolicy] at h
  cases hsource : k.source with
  | some s =>
    simp only [hsource] at h
    split_ifs at h with hvalid
    · cases h
      obtain ⟨e, he, -, hsize, _, hdigest⟩ := validateCachedSection_success hvalid
      rw [Source.bytes, Mem.length_slice] at hsize
      exact ⟨s, e, rfl, he, hsize, hdigest⟩
    · cases h
      cases hparent
  | none =>
    -- a file that is read has no parent
    simp only [hsource] at h
    split_ifs at h
    cases hsfs : k.sfs <;> cases hlf2 : k.lf2 <;> simp only [hsfs, hlf2] at h <;> cases h <;>
      cases hparent

variable {cache : SectionCache} {loaded : ℕ → Option Loaded}

section

variable (h : Trusts machines sha256 cache loaded)
include h

lemma Trusts.trusted {k : LoadCall} {b : Buffer} {c : Context}
    (hmachine : machines k.image.machine) (hsecure : k.image.machine.secureMode = true)
    (hbuffer : k.buffer sha256 cache = .ok b)
    (hcheck : checkImage (k.image.env b.parentVerified) b.file = .ok c) {image : LoadedImage}
    (hbuilt : Loaded.Built ⟨b.file, c, image⟩ k.image.machine) :
    Trusted machines sha256 ⟨b.file, c, image⟩ := by
  obtain ⟨hash, hscreened, hallowed⟩ := k.image.screened hcheck hsecure image
  by_cases hparent : b.parentVerified = true
  · obtain ⟨s, e, hfile, he, hsize, hdigest⟩ := buffer_parentVerified hbuffer hparent
    obtain ⟨parent, htrusted, hsection⟩ := h.cached e he
    exact .inside hmachine hbuilt hscreened htrusted hsection hfile hsize hdigest
  · exact .verified hmachine hbuilt hscreened (hallowed (by simpa using hparent))

/-- The cache after `handle_image`, for a file that is trusted if it passes the checks. -/
theorem Trusts.cacheAfter {k : ImageCall} {parentVerified : Bool} {f : File}
    (hinside : k.CachesInside parentVerified f)
    (htrusted : ∀ c image, checkImage (k.env parentVerified) f = .ok c →
      Loaded.Built ⟨f, c, image⟩ k.machine → Trusted machines sha256 ⟨f, c, image⟩) (handle : ℕ) :
    Trusts machines sha256 (k.cacheAfter sha256 parentVerified handle f cache) loaded := by
  refine ⟨h.loaded, fun e he => ?_⟩
  rcases mem_cacheAfter hinside he with hold | ⟨-, c, hcheck, ⟨image, hbuilt⟩, hsection⟩
  · exact h.cached e hold
  · exact ⟨_, htrusted c image hcheck hbuilt, hsection image hbuilt⟩

lemma Trusts.update (handle : ℕ) {l : Option Loaded}
    (htrusted : ∀ l', l = some l' → Trusted machines sha256 l') :
    Trusts machines sha256 cache (Function.update loaded handle l) := by
  refine ⟨fun handle' l' hl => ?_, h.cached⟩
  by_cases hhandle : handle' = handle
  · rw [hhandle, update_self] at hl
    exact htrusted l' hl
  · rw [update_of_ne hhandle] at hl
    exact h.loaded handle' l' hl

lemma Trusts.gone (handle : ℕ) : Trusts machines sha256 (flushCachedSections handle cache)
    (Function.update loaded handle none) := by
  refine Trusts.update ⟨h.loaded, fun e he => ?_⟩ handle (by simp)
  exact h.cached e (flushCachedSections_subset _ _ e he)

end

lemma ImageCall.trusted {k : ImageCall} {f : File} {c : Context} (hmachine : machines k.machine)
    (hsecure : k.machine.secureMode = true) (hcheck : checkImage (k.env false) f = .ok c)
    {image : LoadedImage} (hbuilt : Loaded.Built ⟨f, c, image⟩ k.machine) :
    Trusted machines sha256 ⟨f, c, image⟩ := by
  obtain ⟨hash, hscreened, hallowed⟩ := k.screened hcheck hsecure image
  exact .verified hmachine hbuilt hscreened (hallowed rfl)

lemma trusts_step {call : Call} (h : Trusts machines sha256 st.cache st.loaded)
    (hsecured : st.Secured machines sha256 call) (hstep : st.step sha256 call = some st') :
    Trusts machines sha256 st'.cache st'.loaded := by
  cases step_effect hstep with
  | nothing hquiet =>
    rw [hquiet.cache, hquiet.loaded]
    exact h
  | drops hquiet =>
    rw [hquiet.cache, hquiet.loaded]
    exact h
  | @refuses k b handle _ hhandles _ hquiet =>
    obtain ⟨hmachine, hsecure, hinside⟩ := hsecured
    rw [hquiet.cache, hquiet.loaded]
    show Trusts machines sha256 (LoaderState.uninstall _ _ _).cache
      (LoaderState.uninstall _ _ _).loaded
    rw [uninstall_cache, uninstall_loaded]
    exact h.cacheAfter (hinside _ _ hhandles)
      (fun c image hcheck => h.trusted hmachine hsecure hhandles.buffer hcheck) handle
  | @loads k b handle image c hhandles hout hcheck hquiet =>
    obtain ⟨hmachine, hsecure, hinside⟩ := hsecured
    rw [hquiet.cache, hquiet.loaded]
    refine (h.cacheAfter (hinside _ _ hhandles)
      (fun c image hcheck => h.trusted hmachine hsecure hhandles.buffer hcheck) handle).update
      handle ?_
    rintro _ ⟨⟩
    exact h.trusted hmachine hsecure hhandles.buffer hcheck (built hcheck hout)
  | starts _ _ heq =>
    rw [heq]
    exact h
  | @finishes _ mid frame rest hquiet _ heq =>
    rw [heq, (finishStart_quiet _ _ _).cache, (finishStart_quiet _ _ _).loaded]
    have hgone := h.gone frame.handle
    rw [← hquiet.cache, ← hquiet.loaded] at hgone
    show Trusts machines sha256 (ite _ _ _ : LoaderState).cache (ite _ _ _ : LoaderState).loaded
    split_ifs
    · rw [uninstall_cache, uninstall_loaded]
      exact hgone
    · exact hgone
  | @unloads handle _ _ _ _ hquiet =>
    rw [hquiet.cache, hquiet.loaded]
    exact h.gone handle
  | @refusesStage k f _ hfile _ hquiet =>
    obtain ⟨hmachine, hsecure, hinside⟩ := hsecured
    rw [hquiet.cache, hquiet.loaded]
    exact h.cacheAfter (hinside f hfile)
      (fun c image hcheck => trusted hmachine hsecure hcheck) k.handle
  | @loadsStage k f image c hfile hout hcheck hquiet =>
    obtain ⟨hmachine, hsecure, hinside⟩ := hsecured
    rw [hquiet.cache, hquiet.loaded]
    refine (h.cacheAfter (hinside f hfile)
      (fun c image hcheck => trusted hmachine hsecure hcheck) k.handle).update k.handle ?_
    rintro _ ⟨⟩
    exact trusted hmachine hsecure hcheck (built hcheck hout)
  | @endsStage handle heq =>
    rw [heq]
    exact h.update handle (by simp)

/-- An image that is loaded in a run in secure mode is allowed by its hash or its signature, or has
the digest of a section of an image that is, or of one of which this holds in turn; no hash of it is
denied, and its SBAT section passes. -/
theorem loaded_trusted {calls : List Call} (hcalls : Along (LoaderState.step sha256)
      (LoaderState.Secured machines sha256) .init calls)
    (hrun : calls.foldlM (LoaderState.step sha256) .init = some st) {handle : ℕ} {l : Loaded}
    (hloaded : st.loaded handle = some l) : Trusted machines sha256 l := by
  have hinit : Trusts machines sha256 LoaderState.init.cache LoaderState.init.loaded := by
    refine ⟨fun handle l hl => ?_, fun e he => ?_⟩
    · cases hl
    · cases he
  have hend := hcalls.invariant (fun st => Trusts machines sha256 st.cache st.loaded) hinit
    (fun _ _ _ h hsecured hstep => trusts_step h hsecured hstep) hrun
  exact hend.loaded handle l hloaded

end

/-- An image is loaded whose hash is in `db`. -/
theorem loaded_trusted_text :
    let env := secureEnv (List.replicate 32 0)
    let k := { fileCall codeImage 7 with image := ⟨env, fun _ => .working, fun _ => 0⟩ }
    ∃ st l, workingRun [.loadImage k] = some st ∧
      st.loaded 7 = some l ∧ Trusted (· = env) workingSha256.sha256 l := by
  intro env k
  have hcalls : Along workingStep (LoaderState.Secured (· = env) workingSha256.sha256) .init
      [.loadImage k] := by
    refine ⟨⟨rfl, rfl, fun b handle hhandles => ?_⟩, fun _ _ => trivial⟩
    obtain rfl : b = ⟨codeImage, false, true⟩ := Except.ok.inj hhandles.buffer.symm
    exact codeImage_cachesInside _
  have hsome : ((workingRun [.loadImage k]).bind fun st => st.loaded 7).isSome = true := by
    decide +kernel
  obtain ⟨l, hl⟩ := Option.isSome_iff_exists.mp hsome
  obtain ⟨st, hrun, hloaded⟩ := Option.bind_eq_some_iff.mp hl
  exact ⟨st, l, hrun, hloaded, loaded_trusted hcalls hrun hloaded⟩

end Shim.Loader
