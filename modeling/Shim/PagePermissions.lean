import Shim.Binding

/-!
# Writable or executable

With `MOK_POLICY_REQUIRE_NX` a page of a loaded image should not be both writable and executable.
`handle_image` refuses sections that are both while it copies them, and sets the attributes section by
section at the end. The two loops do not look at the same sections: the first one lets discardable
sections pass.
-/

namespace Shim

open Lib Pe Verify Sbat List Run

structure PageAttrs where
  r : Bool
  w : Bool
  x : Bool
  deriving DecidableEq

def PageAttrs.update (a : PageAttrs) (setAttrs clearAttrs : ℕ) : PageAttrs where
  r := (a.r || setAttrs &&& memAttrR != 0) && clearAttrs &&& memAttrR == 0
  w := (a.w || setAttrs &&& memAttrW != 0) && clearAttrs &&& memAttrW == 0
  x := (a.x || setAttrs &&& memAttrX != 0) && clearAttrs &&& memAttrX == 0

def PageAttrs.Wx (a : PageAttrs) : Prop := a.w = true ∧ a.x = true

instance (a : PageAttrs) : Decidable a.Wx := inferInstanceAs (Decidable (_ ∧ _))

structure AttrCall where
  addr : ℕ
  size : ℕ
  setAttrs : ℕ
  clearAttrs : ℕ
  deriving DecidableEq

/-- The call changes the page: it is aligned to pages and not empty, and it covers the page. Other
calls return without an effect. -/
def AttrCall.Applies (k : AttrCall) (page : ℕ) : Prop :=
  k.addr % pageSize = 0 ∧ k.size % pageSize = 0 ∧ k.size ≠ 0 ∧ k.addr ≤ page * pageSize ∧
    page * pageSize < k.addr + k.size

instance (k : AttrCall) (page : ℕ) : Decidable (k.Applies page) :=
  inferInstanceAs (Decidable (_ ∧ _))

def updateMemAttrs (attrs : ℕ → PageAttrs) (k : AttrCall) : ℕ → PageAttrs := fun page =>
  if k.Applies page then (attrs page).update k.setAttrs k.clearAttrs else attrs page

def attrCall? : LoadEvent → Option AttrCall
  | .updateMemAttrs addr size setAttrs clearAttrs => some ⟨addr, size, setAttrs, clearAttrs⟩
  | _ => none

def attrCalls {ε α : Type} (x : Run LoadEvent ε α) : List AttrCall := x.trace.filterMap attrCall?

def pageAttrs {ε α : Type} (init : ℕ → PageAttrs) (x : Run LoadEvent ε α) : ℕ → PageAttrs :=
  (attrCalls x).foldl updateMemAttrs init

/-! ## The calls of `handle_image` -/

section

variable {ε α β : Type} {x : Run LoadEvent ε α} {k : α → Run LoadEvent ε β} {a : α}

lemma attrCalls_bind (h : x.Yields a) : attrCalls (x >>= k) = attrCalls x ++ attrCalls (k a) := by
  unfold attrCalls
  rw [bind_of_ok h, filterMap_append]

lemma attrCalls_emit_bind (e : LoadEvent) (k : Unit → Run LoadEvent ε β) :
    attrCalls (Run.emit e >>= k) = (attrCall? e).toList ++ attrCalls (k ()) := by
  rw [attrCalls_bind (a := ()) (yields_emit.mpr trivial)]
  unfold attrCalls Run.emit
  cases h : attrCall? e <;> simp [h]

lemma attrCalls_eq_nil (h : ∀ e, x.Emits e → ∃ a, e = .access a) : attrCalls x = [] := by
  unfold attrCalls
  rw [filterMap_eq_nil_iff]
  intro e he
  obtain ⟨a, rfl⟩ := h e he
  rfl

end

section

variable {env : LoadEnv} {f : File} {c : Context} {buffer i n : ℕ} {s : SectionHeader}
  {st : CopyState} {img : Mem} {e : LoadEvent}

def sectionCall (c : Context) (buffer : ℕ) (s : SectionHeader) : AttrCall :=
  ⟨s.base c buffer, alignUp 64 (rawLength c buffer s) pageSize, s.setAttrs, s.clearAttrs⟩

def bufferCall (c : Context) (buffer : ℕ) : AttrCall :=
  ⟨buffer, allocSize c, memAttrR + memAttrW, memAttrX⟩

lemma attrStep_attrCalls (u : Unit) : attrCalls (attrStep env f c buffer u i) =
      if (f.row c i).skipped then [] else [sectionCall c buffer (f.row c i)] := by
  unfold attrStep
  rw [attrCalls_emit_bind]
  by_cases hskip : (f.row c i).skipped = true
  · rw [if_pos hskip, if_pos hskip]
    rfl
  rw [if_neg hskip, if_neg hskip, attrCalls_emit_bind]
  split_ifs
  · rw [attrCalls_emit_bind, attrCalls_eq_nil fun e he => absurd he emits_check]
    rfl
  · rfl

lemma attrLoop_attrCalls (h : ((List.range n).foldlM (attrStep env f c buffer) ()).Yields ()) :
    attrCalls ((List.range n).foldlM (attrStep env f c buffer) ()) = (List.range n).flatMap fun i =>
        if (f.row c i).skipped then [] else [sectionCall c buffer (f.row c i)] := by
  induction n with
  | zero => rfl
  | succ n ih =>
    obtain ⟨u, hu, -⟩ := yields_foldlM_range_succ.mp h
    rw [range_succ, foldlM_append, attrCalls_bind hu, ih hu, flatMap_append]
    simp [attrStep_attrCalls]

lemma loadAt_attrCalls {image : LoadedImage} (h : (loadAt env f c buffer).Yields image) :
    attrCalls (loadAt env f c buffer) = bufferCall c buffer ::
      (List.range c.numberOfSections).flatMap fun i =>
        if (f.row c i).skipped then [] else [sectionCall c buffer (f.row c i)] := by
  simp only [loadAt, prepareStage, bind_assoc, pure_bind] at h ⊢
  simp only [yields_bind, yields_emit, yields_check, exists_const, true_and] at h
  obtain ⟨hentry, st, hst, hdirs, img, himg, hfinish⟩ := h
  have hcheck : ∀ {bad : Prop} [Decidable bad], ¬ bad →
      (check bad EfiStatus.unsupported : Run LoadEvent EfiStatus Unit).Yields () :=
    fun hbad => yields_check.mpr hbad
  have hnone : ∀ {bad : Prop} [Decidable bad],
      attrCalls (check bad EfiStatus.unsupported : Run LoadEvent EfiStatus Unit) = [] :=
    attrCalls_eq_nil fun e he => absurd he emits_check
  have hcopy : attrCalls ((List.range c.numberOfSections).foldlM (copyStep env f c buffer)
      ⟨env.pages.copy 0 f.mem 0 c.sizeOfHeaders, 0, none⟩) = [] := by
    refine attrCalls_eq_nil fun e he => ?_
    obtain ⟨i, -, u, -, he⟩ := emits_foldlM_range.mp he
    exact copyStep_accesses he
  have hreloc : attrCalls (relocateStage f c buffer st) = [] :=
    attrCalls_eq_nil fun e he => relocateStage_accesses he
  rw [attrCalls_emit_bind, attrCalls_emit_bind, attrCalls_emit_bind, attrCalls_bind (hcheck hentry),
    attrCalls_emit_bind, attrCalls_bind hst, attrCalls_bind (hcheck hdirs), attrCalls_bind himg,
    hnone, hnone, hcopy, hreloc]
  unfold finishStage at hfinish ⊢
  obtain ⟨u, hloop, hend⟩ := yields_bind.mp hfinish
  rw [attrCalls_bind hloop, attrLoop_attrCalls hloop]
  split_ifs
  all_goals exact congrArg (bufferCall c buffer :: ·) (append_nil _)

end

lemma handleImage_attrCalls {env : HandleEnv} {f : File} {c : Context} {image : LoadedImage}
    (hcheck : checkImage env f = .ok c) (h : (handleImage env f).Yields image) :
    CopyOk env.load f c image.buffer c.numberOfSections ∧
      attrCalls (handleImage env f) = bufferCall c image.buffer ::
        (List.range c.numberOfSections).flatMap fun i =>
          if (f.row c i).skipped then [] else [sectionCall c image.buffer (f.row c i)] := by
  obtain ⟨c', addr, hc', halloc, hload⟩ := handleImage_yields h
  obtain rfl : c' = c := Except.ok.inj (hc'.symm.trans hcheck)
  obtain ⟨-, hok, -, hbuffer, -⟩ := loadAt_yields hload
  have hcalls : attrCalls (handleImage env f) =
      attrCalls (loadAt env.load f c' (imageBuffer c' addr)) := by
    unfold handleImage
    rw [attrCalls_bind (a := c') (yields_lift.mpr hcheck)]
    unfold loadImage onError attrCalls
    rw [halloc]
    simp only [show (loadAt env.load f c' (imageBuffer c' addr)).out = .ok image from hload]
    rfl
  rw [hbuffer, hcalls]
  exact ⟨hok, loadAt_attrCalls hload⟩

/-! ## The last call decides -/

/-- A loop in which a round either decides `Q` or leaves it as it was: the last one that decides
counts. -/
theorem foldl_range_last_iff {σ : Type} {step : σ → ℕ → σ} (Q : σ → Prop) (decides W : ℕ → Prop)
    (hkeep : ∀ s i, ¬ decides i → (Q (step s i) ↔ Q s))
    (hset : ∀ s i, decides i → (Q (step s i) ↔ W i)) (s : σ) (n : ℕ) :
    Q ((List.range n).foldl step s) ↔
      (∃ i < n, decides i ∧ (∀ j, i < j → j < n → ¬ decides j) ∧ W i) ∨
        ((∀ i < n, ¬ decides i) ∧ Q s) := by
  induction n with
  | zero => simp
  | succ n ih =>
    rw [range_succ, foldl_append, foldl_cons, foldl_nil]
    by_cases hn : decides n
    · rw [hset _ n hn]
      constructor
      · intro hW
        exact .inl ⟨n, by omega, hn, fun j hj hj' => by omega, hW⟩
      · rintro (⟨i, hi, -, hlast, hW⟩ | ⟨hnone, -⟩)
        · rcases Nat.lt_succ_iff_lt_or_eq.mp hi with hi | rfl
          · exact absurd hn (hlast n hi (by omega))
          · exact hW
        · exact absurd hn (hnone n (by omega))
    · rw [hkeep _ n hn, ih]
      constructor
      · rintro (⟨i, hi, hdec, hlast, hW⟩ | ⟨hnone, hQ⟩)
        · refine .inl ⟨i, by omega, hdec, fun j hj hj' => ?_, hW⟩
          rcases Nat.lt_succ_iff_lt_or_eq.mp hj' with hj' | rfl
          · exact hlast j hj hj'
          · exact hn
        · refine .inr ⟨fun i hi => ?_, hQ⟩
          rcases Nat.lt_succ_iff_lt_or_eq.mp hi with hi | rfl
          · exact hnone i hi
          · exact hn
      · rintro (⟨i, hi, hdec, hlast, hW⟩ | ⟨hnone, hQ⟩)
        · rcases Nat.lt_succ_iff_lt_or_eq.mp hi with hi | rfl
          · exact .inl ⟨i, hi, hdec, fun j hj hj' => hlast j hj (by omega), hW⟩
          · exact absurd hdec hn
        · exact .inr ⟨fun i hi => hnone i (by omega), hQ⟩

section

variable {c : Context} {buffer page : ℕ} {s : SectionHeader} {attrs : ℕ → PageAttrs}

def Pe.SectionHeader.SetsPage (c : Context) (buffer page : ℕ) (s : SectionHeader) : Prop :=
  s.skipped = false ∧ (sectionCall c buffer s).Applies page

instance : Decidable (s.SetsPage c buffer page) := inferInstanceAs (Decidable (_ ∧ _))

lemma wx_sectionCall_iff (h : (sectionCall c buffer s).Applies page) :
    (updateMemAttrs attrs (sectionCall c buffer s) page).Wx ↔
      s.has scnMemWrite = true ∧ s.has scnMemExecute = true := by
  unfold updateMemAttrs
  rw [if_pos h]
  unfold PageAttrs.Wx PageAttrs.update sectionCall SectionHeader.setAttrs SectionHeader.clearAttrs
  by_cases hw : s.has scnMemWrite = true <;> by_cases hx : s.has scnMemExecute = true <;>
    simp [hw, hx, memAttrR, memAttrW, memAttrX]

lemma wx_bufferCall_iff : (updateMemAttrs attrs (bufferCall c buffer) page).Wx ↔
      ¬ (bufferCall c buffer).Applies page ∧ (attrs page).Wx := by
  unfold updateMemAttrs
  split_ifs with h
  · simp only [h, not_true_eq_false, false_and, iff_false]
    unfold PageAttrs.Wx PageAttrs.update bufferCall
    simp [memAttrX]
  · simp [h]

end

def OnImage (c : Context) (buffer page : ℕ) : Prop :=
  page * pageSize < buffer + c.imageSize ∧ buffer < (page + 1) * pageSize

/-- A discardable section with both flags is not the last one to set the page; if none sets it, it
is set with the buffer or was not both before. -/
structure PageSafe (init : ℕ → PageAttrs) (f : File) (c : Context) (buffer page : ℕ) : Prop where
  sections : ∀ i < c.numberOfSections, (f.row c i).SetsPage c buffer page →
    (∀ j, i < j → j < c.numberOfSections → ¬ (f.row c j).SetsPage c buffer page) →
    ¬ ((f.row c i).has scnMemDiscardable = true ∧ (f.row c i).has scnMemWrite = true ∧
      (f.row c i).has scnMemExecute = true)
  untouched : (∀ i < c.numberOfSections, ¬ (f.row c i).SetsPage c buffer page) →
    (bufferCall c buffer).Applies page ∨ ¬ (init page).Wx

lemma wx_pageAttrs_iff {ε α : Type} {x : Run LoadEvent ε α} {init : ℕ → PageAttrs} {f : File}
    {c : Context} {buffer page : ℕ}
    (h : attrCalls x = bufferCall c buffer :: (List.range c.numberOfSections).flatMap fun i =>
      if (f.row c i).skipped then [] else [sectionCall c buffer (f.row c i)]) :
    (pageAttrs init x page).Wx ↔ (∃ i < c.numberOfSections, (f.row c i).SetsPage c buffer page ∧
        (∀ j, i < j → j < c.numberOfSections → ¬ (f.row c j).SetsPage c buffer page) ∧
        (f.row c i).has scnMemWrite = true ∧ (f.row c i).has scnMemExecute = true) ∨
      ((∀ i < c.numberOfSections, ¬ (f.row c i).SetsPage c buffer page) ∧
        ¬ (bufferCall c buffer).Applies page ∧ (init page).Wx) := by
  unfold pageAttrs
  rw [h, foldl_cons, foldl_flatMap, ← wx_bufferCall_iff]
  refine foldl_range_last_iff (fun attrs : ℕ → PageAttrs => (attrs page).Wx) _ _ ?_ ?_ _ _
  · intro attrs i hnot
    by_cases hskip : (f.row c i).skipped = true
    · rw [if_pos hskip, foldl_nil]
    · rw [if_neg hskip, foldl_cons, foldl_nil, updateMemAttrs,
        if_neg fun happ => hnot ⟨by simpa using hskip, happ⟩]
  · rintro attrs i ⟨hskip, happ⟩
    rw [hskip, if_neg Bool.false_ne_true, foldl_cons, foldl_nil]
    exact wx_sectionCall_iff happ

/-- With `MOK_POLICY_REQUIRE_NX`, an image that is loaded has no page that the calls of
`update_mem_attrs` leave writable and executable iff every page of it is safe. -/
theorem handleImage_wx_iff {env : HandleEnv} {f : File} {c : Context} {image : LoadedImage}
    (init : ℕ → PageAttrs) (hnx : env.load.mokPolicy &&& mokPolicyRequireNx ≠ 0)
    (hcheck : checkImage env f = .ok c) (hload : (handleImage env f).Yields image) :
    (∀ page, OnImage c image.buffer page → ¬ (pageAttrs init (handleImage env f) page).Wx) ↔
      ∀ page, OnImage c image.buffer page → PageSafe init f c image.buffer page := by
  obtain ⟨hok, hcalls⟩ := handleImage_attrCalls hcheck hload
  refine forall_congr' fun page => forall_congr' fun _ => ?_
  rw [wx_pageAttrs_iff hcalls]
  -- a section that is writable and executable has only passed the copy loop if it is discardable
  have hdisc : ∀ i < c.numberOfSections, (f.row c i).SetsPage c image.buffer page →
      (f.row c i).has scnMemWrite = true → (f.row c i).has scnMemExecute = true →
        (f.row c i).has scnMemDiscardable = true := by
    intro i hi hsets hw hx
    by_contra hnot
    exact (hok.rows i hi hsets.1).nx ⟨by simpa using hnot, hw, hx, hnx⟩
  constructor
  · intro hsafe
    constructor
    · rintro i hi hsets hrest ⟨-, hw, hx⟩
      exact hsafe (.inl ⟨i, hi, hsets, hrest, hw, hx⟩)
    · intro hnone
      by_contra hbad
      rw [not_or, not_not] at hbad
      exact hsafe (.inr ⟨hnone, hbad⟩)
  · rintro ⟨hsections, huntouched⟩ (⟨i, hi, hsets, hrest, hw, hx⟩ | ⟨hnone, hbuffer, hinit⟩)
    · exact hsections i hi hsets hrest ⟨hdisc i hi hsets hw hx, hw, hx⟩
    · exact (huntouched hnone).elim hbuffer fun hnot => hnot hinit

def nameInit : ℕ := 0x74696e692e

def initImage (flags : ℕ) : File :=
  PeFields.file
    { sizeOfImage := 0x3000
      sections := [⟨nameText, 16, 0x1000, 8, 328, 0x60000020⟩,
        ⟨nameInit, 16, 0x2000, 8, 336, flags⟩]
      body := [(158, 2, 0x100)] }
    344

def nxEnv (hash : List UInt8) : HandleEnv :=
  { secureEnv hash with load := { (secureEnv hash).load with mokPolicy := mokPolicyRequireNx } }

/-- The page of a discardable section ends up writable and executable. -/
theorem handleImage_leaves_wx :
    let f := initImage 0xe2000040
    let env := nxEnv (f.mem.slice 312 32)
    checkImage env f = .ok (f.context 64) ∧
      (handleImage env f).out.map LoadedImage.buffer = .ok 0x100000 ∧
      OnImage (f.context 64) 0x100000 0x102 ∧
      (pageAttrs (fun _ => ⟨true, false, false⟩) (handleImage env f) 0x102).Wx := by
  refine ⟨by decide +kernel, by decide +kernel, ?_, by decide +kernel⟩
  unfold OnImage
  decide +kernel

theorem handleImage_wx_initImage :
    let f := initImage 0xc2000040
    let env := nxEnv (f.mem.slice 312 32)
    ∃ image, (handleImage env f).Yields image ∧ ∀ page, OnImage (f.context 64) image.buffer page →
      ¬ (pageAttrs (fun _ => ⟨true, true, false⟩) (handleImage env f) page).Wx := by
  intro f env
  have hcheck : checkImage env f = .ok (f.context 64) := by decide +kernel
  have hrun : (handleImage env f).out.isOk = true := by decide +kernel
  obtain ⟨image, hload⟩ := exists_yields_of_isOk hrun
  have hflags : ∀ i < (f.context 64).numberOfSections,
      ¬ ((f.row (f.context 64) i).has scnMemDiscardable = true ∧
        (f.row (f.context 64) i).has scnMemWrite = true ∧
        (f.row (f.context 64) i).has scnMemExecute = true) := by decide +kernel
  refine ⟨image, hload, (handleImage_wx_iff _ (by decide) hcheck hload).mpr fun page _ => ?_⟩
  refine ⟨fun i hi _ _ => hflags i hi, fun _ => .inr fun hwx => ?_⟩
  exact Bool.noConfusion hwx.2

end Shim
