import Shim.Lib.StableSort
import Shim.Pe.Coverage

/-!
# `generate_hash`, step by step

`generateHashRun` is `generateHash` with everything it does on the way, in runs that fail as well: the
tests of a section's size, with the numbers that are compared, and each call of the digest with the
range it is given. Any of these calls may fail.
-/

namespace Shim.Pe

open Shim.Lib List Run SectionHeader

/-! ## The run -/

inductive HashPart where
  | toCheckSum
  | toSecDir
  | toHeadersEnd
  | sectionData (index : ℕ)
  | toTable
  | remaining
  | padding

structure HashCalls where
  contexts : Bool
  init : Bool
  update : HashPart → Bool
  table : Bool
  final : Bool

def HashCalls.ok : HashCalls := ⟨true, true, fun _ => true, true, true⟩

inductive HashEvent where
  /-- A section is tested against `limit`, what the file has left; `sum` is `SumOfSectionBytes`. -/
  | sizeTest (sum limit : ℕ)
  /-- A section at `pointer` is tested against `limit`, what the file has from there. -/
  | rawTest (sum pointer limit : ℕ)
  /-- The digest is fed a range of the file. -/
  | update (base size : ℕ)
  | pad (size : ℕ)
  deriving DecidableEq

abbrev HashRun := Run HashEvent EfiStatus

def feed (calls : HashCalls) (f : File) (part : HashPart) (base size : ℕ) : HashRun Unit := do
  lift (checkSize f base size)
  Run.emit (.update base size)
  check (calls.update part = false) .outOfResources

def hashHeadersRun (calls : HashCalls) (f : File) (c : Context) : HashRun Unit := do
  feed calls f .toCheckSum 0 (c.checkSum % 2 ^ 32)
  feed calls f .toSecDir (c.checkSum + 4) (subW 32 c.secDir (c.checkSum + 4))
  let size := subW 32 c.sizeOfHeaders (c.secDir + 8)
  check (f.datasize < size) .invalidParameter
  feed calls f .toHeadersEnd (c.secDir + 8) size

def sortStepRun (f : File) (c : Context) (st : ℕ × List SectionHeader) (index : ℕ) :
    HashRun (ℕ × List SectionHeader) := do
  let (_, _, s) ← lift (getSectionVma f.mem f.addr c index)
  let limit := subW 32 (subW 32 f.datasize c.sizeOfHeaders) st.1
  Run.emit (.sizeTest st.1 limit)
  check (limit < s.sizeOfRawData) .invalidParameter
  pure (addW 32 st.1 s.sizeOfRawData, st.2.insertIdx (insertPos st.2 s st.2.length) s)

def hashStepRun (calls : HashCalls) (f : File) (sumOfSectionBytes : ℕ) (sum : ℕ)
    (row : SectionHeader × ℕ) : HashRun ℕ :=
  if row.1.sizeOfRawData = 0 then pure sum
  else do
    check (imageAddress f.addr f.datasize row.1.pointerToRawData = 0) .invalidParameter
    let limit := subW 32 f.datasize row.1.pointerToRawData
    Run.emit (.rawTest sumOfSectionBytes row.1.pointerToRawData limit)
    check (limit < row.1.sizeOfRawData) .invalidParameter
    feed calls f (.sectionData row.2) row.1.pointerToRawData row.1.sizeOfRawData
    pure (addW 32 sum row.1.sizeOfRawData)

def hashToTableRun (calls : HashCalls) (f : File) (c : Context) (sum : ℕ) : HashRun ℕ :=
  if sum < f.datasize ∧ f.dirSize c.secDir ≠ 0 then do
    let hashsize := subW 32 (subW 32 f.datasize (f.dirSize c.secDir)) sum
    check (subW 32 f.datasize sum < f.dirSize c.secDir ∨
      addW 32 sum hashsize ≠ f.dirVirtualAddress c.secDir) .invalidParameter
    feed calls f .toTable sum hashsize
    pure (addW 32 sum hashsize)
  else pure sum

def hashRemainingRun (calls : HashCalls) (f : File) (c : Context) (sum : ℕ) : HashRun Unit :=
  if addW 32 sum (f.dirSize c.secDir) < f.datasize then do
    let hashsize := subW 32 f.datasize sum
    feed calls f .remaining sum hashsize
    let sum := addW 32 sum hashsize
    let hashsize := subW 32 (alignUp 32 sum 8) sum
    if hashsize ≠ 0 then do
      Run.emit (.pad hashsize)
      check (calls.update .padding = false) .outOfResources
  else pure ()

def generateHashRun (calls : HashCalls) (f : File) (c : Context) : HashRun Unit := do
  check (f.datasize ≤ sizeofDosHeader ∨ f.eMagic ≠ imageDosSignature) .invalidParameter
  check (calls.contexts = false) .outOfResources
  check (calls.init = false) .outOfResources
  hashHeadersRun calls f c
  let c ← lift (refreshSections f c)
  check (calls.table = false) .outOfResources
  let (sumOfSectionBytes, table) ← (List.range c.numberOfSections).foldlM (sortStepRun f c) (0, [])
  let sum ← table.zipIdx.foldlM (hashStepRun calls f sumOfSectionBytes) c.sizeOfHeaders
  let sum ← hashToTableRun calls f c sum
  hashRemainingRun calls f c sum
  check (calls.final = false) .outOfResources

/-! ## What the digest is fed -/

def fedRanges (trace : List HashEvent) : List (ℕ × ℕ) :=
  trace.filterMap fun
    | .update base size => some (base, size)
    | _ => none

def Feeds {α : Type} (x : HashRun α) (a : α) (rs : List (ℕ × ℕ)) : Prop :=
  x.Yields a ∧ fedRanges x.trace = rs

section

variable {α β : Type} {x : HashRun α} {k : α → HashRun β} {a a' : α} {b : β} {rs : List (ℕ × ℕ)}

@[simp] lemma feeds_pure : Feeds (pure a) a' rs ↔ a = a' ∧ rs = [] := by
  unfold Feeds
  rw [yields_pure]
  exact and_congr_right fun _ => eq_comm

@[simp] lemma feeds_lift {y : Except EfiStatus α} : Feeds (lift y) a rs ↔ y = .ok a ∧ rs = [] :=
  and_congr_right fun _ => eq_comm

@[simp] lemma feeds_check {bad : Prop} [Decidable bad] {e : EfiStatus} {u : Unit} :
    Feeds (check bad e) u rs ↔ ¬ bad ∧ rs = [] := by
  unfold Feeds
  rw [yields_check]
  exact and_congr_right fun _ => eq_comm

@[simp] lemma feeds_emit {r : HashEvent} {u : Unit} :
    Feeds (Run.emit r) u rs ↔ rs = fedRanges [r] := by
  unfold Feeds
  rw [yields_emit, true_and]
  exact eq_comm

lemma feeds_bind : Feeds (x >>= k) b rs ↔
    ∃ a rs₁ rs₂, Feeds x a rs₁ ∧ Feeds (k a) b rs₂ ∧ rs = rs₁ ++ rs₂ := by
  unfold Feeds
  rw [yields_bind]
  constructor
  · rintro ⟨⟨a, hx, hk⟩, rfl⟩
    refine ⟨a, _, _, ⟨hx, rfl⟩, ⟨hk, rfl⟩, ?_⟩
    rw [bind_of_ok hx, fedRanges, filterMap_append]
    rfl
  · rintro ⟨a, rs₁, rs₂, ⟨hx, rfl⟩, ⟨hk, rfl⟩, rfl⟩
    refine ⟨⟨a, hx, hk⟩, ?_⟩
    rw [bind_of_ok hx, fedRanges, filterMap_append]
    rfl

lemma feeds_bind_quiet {P : α → Prop} (hx : ∀ a rs, Feeds x a rs ↔ P a ∧ rs = []) :
    Feeds (x >>= k) b rs ↔ ∃ a, P a ∧ Feeds (k a) b rs := by
  rw [feeds_bind]
  constructor
  · rintro ⟨a, rs₁, rs₂, h₁, h₂, rfl⟩
    obtain ⟨ha, rfl⟩ := (hx a rs₁).mp h₁
    exact ⟨a, ha, h₂⟩
  · rintro ⟨a, ha, h⟩
    exact ⟨a, [], rs, (hx a []).mpr ⟨ha, rfl⟩, h, rfl⟩

variable {bad : Prop} [Decidable bad] {e : EfiStatus} {l : Unit → HashRun β}

@[simp] lemma feeds_check_bind :
    Feeds (check bad e >>= l) b rs ↔ ¬ bad ∧ Feeds (l ()) b rs := by
  rw [feeds_bind_quiet fun _ _ => feeds_check]
  exact ⟨fun ⟨_, h⟩ => h, fun h => ⟨(), h⟩⟩

lemma feeds_emit_bind {r : HashEvent} (hr : fedRanges [r] = []) :
    Feeds (Run.emit r >>= l) b rs ↔ Feeds (l ()) b rs := by
  have hquiet : ∀ (u : Unit) rs, Feeds (Run.emit r) u rs ↔ True ∧ rs = [] := by
    intro u rs
    rw [feeds_emit, hr, true_and]
  rw [feeds_bind_quiet hquiet]
  exact ⟨fun ⟨_, _, h⟩ => h, fun h => ⟨(), trivial, h⟩⟩

@[simp] lemma feeds_lift_bind {y : Except EfiStatus α} :
    Feeds (lift y >>= k) b rs ↔ ∃ a, y = .ok a ∧ Feeds (k a) b rs :=
  feeds_bind_quiet fun _ _ => feeds_lift

variable {calls : HashCalls} {f : File} {part : HashPart} {base size : ℕ}

lemma checkSize_eq_ok {u : Unit} : checkSize f base size = .ok u ↔ base + size ≤ f.datasize := by
  have h : (checkSize f base size >>= pure) = .ok u ↔ base + size ≤ f.datasize ∧ _ :=
    checkSize_bind_eq_ok
  rw [bind_pure] at h
  rw [h]
  exact and_iff_left rfl

lemma feeds_feed : Feeds (feed calls f part base size) () rs ↔
    base + size ≤ f.datasize ∧ calls.update part = true ∧ rs = [(base, size)] := by
  unfold feed
  rw [feeds_lift_bind]
  simp only [feeds_bind, feeds_emit, feeds_check, checkSize_eq_ok]
  constructor
  · rintro ⟨u, hsize, _, rs₁, rs₂, rfl, ⟨hcall, rfl⟩, rfl⟩
    exact ⟨hsize, by simpa using hcall, rfl⟩
  · rintro ⟨hsize, hcall, rfl⟩
    exact ⟨(), hsize, (), _, _, rfl, ⟨by simpa using hcall, rfl⟩, rfl⟩

lemma feeds_feed_bind : Feeds (feed calls f part base size >>= l) b rs ↔
    base + size ≤ f.datasize ∧ calls.update part = true ∧
      ∃ rs', Feeds (l ()) b rs' ∧ rs = (base, size) :: rs' := by
  rw [feeds_bind]
  constructor
  · rintro ⟨_, rs₁, rs', h₁, h, rfl⟩
    obtain ⟨hsize, hcall, rfl⟩ := feeds_feed.mp h₁
    exact ⟨hsize, hcall, rs', h, rfl⟩
  · rintro ⟨hsize, hcall, rs', h, rfl⟩
    exact ⟨(), [(base, size)], rs', feeds_feed.mpr ⟨hsize, hcall, rfl⟩, h, rfl⟩

end

section

variable {calls : HashCalls} {f : File} {c : Context} {rs : List (ℕ × ℕ)} {sum sum' total : ℕ}

lemma feeds_hashHeadersRun : Feeds (hashHeadersRun calls f c) () rs ↔
      hashHeaders f c = .ok rs ∧ calls.update .toCheckSum = true ∧ calls.update .toSecDir = true ∧
        calls.update .toHeadersEnd = true := by
  unfold hashHeadersRun hashHeaders
  simp only [feeds_feed_bind, feeds_check_bind, feeds_feed, checkSize_bind_eq_ok, reject_bind_eq_ok]
  constructor
  · rintro ⟨h₁, hcall₁, rs₁, ⟨h₂, hcall₂, rs₂, ⟨hle, h₃, hcall₃, rfl⟩, rfl⟩, rfl⟩
    exact ⟨⟨h₁, h₂, hle, h₃, rfl⟩, hcall₁, hcall₂, hcall₃⟩
  · rintro ⟨⟨h₁, h₂, hle, h₃, h⟩, hcall₁, hcall₂, hcall₃⟩
    cases h
    exact ⟨h₁, hcall₁, _, ⟨h₂, hcall₂, _, ⟨hle, h₃, hcall₃, rfl⟩, rfl⟩, rfl⟩

lemma ok_inj_iff {α : Type} {a b : α} : (Except.ok a : Except EfiStatus α) = .ok b ↔ a = b :=
  iff_of_eq (Except.ok.injEq a b)

lemma feeds_sortStepRun {st st' : ℕ × List SectionHeader} {i : ℕ} :
    Feeds (sortStepRun f c st i) st' rs ↔ sortStep f c st i = .ok st' ∧ rs = [] := by
  unfold sortStepRun sortStep
  rw [feeds_lift_bind, bind_eq_ok, ← exists_and_right]
  refine exists_congr fun row => ?_
  rw [feeds_emit_bind rfl, feeds_check_bind, feeds_pure, reject_bind_eq_ok, and_assoc, and_assoc]
  exact and_congr_right fun _ => and_congr_right fun _ => and_congr_left' ok_inj_iff.symm

lemma feeds_sortSectionsRun {n : ℕ} {st : ℕ × List SectionHeader} :
    Feeds ((List.range n).foldlM (sortStepRun f c) (0, [])) st rs ↔
      (List.range n).foldlM (sortStep f c) (0, []) = .ok st ∧ rs = [] := by
  induction n generalizing st rs with
  | zero =>
    rw [range_zero, foldlM_nil, foldlM_nil, feeds_pure]
    exact and_congr_left' ok_inj_iff.symm
  | succ n ih =>
    rw [range_succ, foldlM_append, foldlM_append, feeds_bind_quiet fun _ _ => ih,
      bind_eq_ok, ← exists_and_right]
    refine exists_congr fun u => ?_
    rw [and_assoc]
    refine and_congr_right fun _ => ?_
    rw [foldlM_cons, foldlM_cons]
    simp only [foldlM_nil, bind_pure]
    exact feeds_sortStepRun

lemma feeds_hashStepRun {s : SectionHeader} {i : ℕ} (body : List (ℕ × ℕ)) :
    Feeds (hashStepRun calls f total sum (s, i)) sum' rs ↔
      hashStep f (sum, body) s = .ok (sum', body ++ rs) ∧
        (s.sizeOfRawData ≠ 0 → calls.update (.sectionData i) = true) := by
  unfold hashStepRun hashStep
  split_ifs with hzero
  · rw [feeds_pure]
    constructor
    · rintro ⟨rfl, rfl⟩
      exact ⟨by rw [append_nil], fun hne => absurd hzero hne⟩
    · rintro ⟨h, -⟩
      have heq := Prod.mk.inj (Except.ok.inj h)
      exact ⟨heq.1, by simpa using heq.2⟩
  · rw [feeds_check_bind, feeds_emit_bind rfl, feeds_check_bind, feeds_feed_bind]
    simp only [feeds_pure, reject_bind_eq_ok, checkSize_bind_eq_ok]
    constructor
    · rintro ⟨himage, hraw, hsize, hcall, rs', ⟨rfl, rfl⟩, rfl⟩
      exact ⟨⟨himage, hraw, hsize, rfl⟩, fun _ => hcall⟩
    · rintro ⟨⟨himage, hraw, hsize, h⟩, hcall⟩
      have heq := Prod.mk.inj (Except.ok.inj h)
      exact ⟨himage, hraw, hsize, hcall hzero, [], ⟨heq.1, rfl⟩,
        (append_cancel_left heq.2).symm⟩

def RowCalls (calls : HashCalls) (rows : List (SectionHeader × ℕ)) : Prop :=
  ∀ row ∈ rows, row.1.sizeOfRawData ≠ 0 → calls.update (.sectionData row.2) = true

lemma feeds_hashSectionsRun {table : List SectionHeader} {k : ℕ} (body : List (ℕ × ℕ)) :
    Feeds ((table.zipIdx k).foldlM (hashStepRun calls f total) sum) sum' rs ↔
      table.foldlM (hashStep f) (sum, body) = .ok (sum', body ++ rs) ∧
        RowCalls calls (table.zipIdx k) := by
  induction table generalizing k sum body rs with
  | nil =>
    rw [zipIdx_nil, foldlM_nil, foldlM_nil, feeds_pure]
    constructor
    · rintro ⟨rfl, rfl⟩
      exact ⟨by rw [append_nil]; rfl, fun row hrow => absurd hrow not_mem_nil⟩
    · rintro ⟨h, -⟩
      have heq := Prod.mk.inj (Except.ok.inj h)
      exact ⟨heq.1, by simpa using heq.2⟩
  | cons s table ih =>
    rw [zipIdx_cons, foldlM_cons, foldlM_cons, feeds_bind]
    unfold RowCalls
    rw [forall_mem_cons]
    constructor
    · rintro ⟨sum₁, rs₁, rs₂, h₁, h₂, rfl⟩
      obtain ⟨hstep, hcall⟩ := (feeds_hashStepRun body).mp h₁
      obtain ⟨hrest, hcalls⟩ := (ih (body ++ rs₁)).mp h₂
      refine ⟨?_, hcall, hcalls⟩
      rw [hstep, ok_bind, hrest, append_assoc]
    · rintro ⟨h, hcall, hcalls⟩
      rw [bind_eq_ok] at h
      obtain ⟨⟨sum₁, body₁⟩, hstep, hrest⟩ := h
      have hone : [s].foldlM (hashStep f) (sum, body) = .ok (sum₁, body₁) := by
        rw [foldlM_cons, hstep]
        rfl
      obtain ⟨-, rfl, -⟩ := hashSections_ok hone
      obtain ⟨-, hbody, -⟩ := hashSections_ok hrest
      rw [append_assoc] at hbody
      obtain rfl := append_cancel_left hbody
      refine ⟨sum₁, _, _, (feeds_hashStepRun body).mpr ⟨hstep, hcall⟩,
        (ih (body ++ rawRanges [s])).mpr ⟨?_, hcalls⟩, rfl⟩
      rw [hrest, append_assoc]

lemma feeds_hashToTableRun : Feeds (hashToTableRun calls f c sum) sum' rs ↔
      hashToTable f c sum = .ok (sum', rs) ∧
        (sum < f.datasize ∧ f.dirSize c.secDir ≠ 0 → calls.update .toTable = true) := by
  unfold hashToTableRun hashToTable
  split_ifs with htable
  · rw [feeds_check_bind, feeds_feed_bind]
    simp only [feeds_pure, reject_bind_eq_ok, checkSize_bind_eq_ok]
    constructor
    · rintro ⟨hbad, hsize, hcall, rs', ⟨rfl, rfl⟩, rfl⟩
      exact ⟨⟨hbad, hsize, rfl⟩, fun _ => hcall⟩
    · rintro ⟨⟨hbad, hsize, h⟩, hcall⟩
      have heq := Prod.mk.inj (Except.ok.inj h)
      exact ⟨hbad, hsize, hcall htable, [], ⟨heq.1, rfl⟩, heq.2.symm⟩
  · rw [feeds_pure]
    constructor
    · rintro ⟨rfl, rfl⟩
      exact ⟨rfl, fun h => absurd h htable⟩
    · rintro ⟨h, -⟩
      have heq := Prod.mk.inj (Except.ok.inj h)
      exact ⟨heq.1, heq.2.symm⟩

lemma feeds_pad {n : ℕ} : Feeds (if n ≠ 0 then do
        Run.emit (.pad n)
        check (calls.update .padding = false) .outOfResources
      else pure () : HashRun Unit) () rs ↔
      rs = [] ∧ (n ≠ 0 → calls.update .padding = true) := by
  split_ifs with hn
  · rw [feeds_emit_bind rfl, feeds_check]
    simp [hn, and_comm]
  · simp [hn]

lemma feeds_hashRemainingRun : Feeds (hashRemainingRun calls f c sum) () rs ↔
      ∃ pad, hashRemaining f c sum = .ok ⟨rs, pad⟩ ∧
        (addW 32 sum (f.dirSize c.secDir) < f.datasize →
          calls.update .remaining = true ∧ (pad ≠ 0 → calls.update .padding = true)) := by
  unfold hashRemainingRun hashRemaining
  split_ifs with hmore
  · rw [feeds_feed_bind]
    simp only [feeds_pad, checkSize_bind_eq_ok]
    constructor
    · rintro ⟨hsize, hcall, rs', ⟨rfl, hpad⟩, rfl⟩
      exact ⟨_, ⟨hsize, rfl⟩, fun _ => ⟨hcall, hpad⟩⟩
    · rintro ⟨pad, ⟨hsize, h⟩, hcalls⟩
      have heq := HashInput.mk.inj (Except.ok.inj h)
      obtain ⟨hcall, hpad⟩ := hcalls hmore
      rw [← heq.2] at hpad
      exact ⟨hsize, hcall, [], ⟨rfl, hpad⟩, heq.1.symm⟩
  · rw [feeds_pure]
    constructor
    · rintro ⟨-, rfl⟩
      exact ⟨0, rfl, fun h => absurd h hmore⟩
    · rintro ⟨pad, h, -⟩
      have heq := HashInput.mk.inj (Except.ok.inj h)
      exact ⟨rfl, heq.1.symm⟩

lemma generateHash_of_feeds (h : Feeds (generateHashRun calls f c) () rs) :
    ∃ pad, generateHash .ok f c = .ok ⟨rs, pad⟩ := by
  unfold generateHashRun at h
  simp only [feeds_check_bind] at h
  obtain ⟨hmagic, -, -, h⟩ := h
  rw [feeds_bind] at h
  obtain ⟨_, head, rs₁, hhead, h, rfl⟩ := h
  rw [feeds_lift_bind] at h
  obtain ⟨c', hrefresh, h⟩ := h
  rw [feeds_check_bind, feeds_bind_quiet fun _ _ => feeds_sortSectionsRun] at h
  obtain ⟨-, ⟨total, table⟩, hsort, h⟩ := h
  rw [feeds_bind] at h
  obtain ⟨sum, body, rs₂, hbody, h, rfl⟩ := h
  rw [feeds_bind] at h
  obtain ⟨sum', toTable, rs₃, htable, h, rfl⟩ := h
  rw [feeds_bind] at h
  obtain ⟨_, rest, rs₄, hrest, h, rfl⟩ := h
  rw [feeds_check] at h
  obtain ⟨-, rfl⟩ := h
  obtain ⟨hsections, -⟩ := (feeds_hashSectionsRun []).mp hbody
  obtain ⟨pad, hremaining, -⟩ := feeds_hashRemainingRun.mp hrest
  refine ⟨pad, ?_⟩
  unfold generateHash
  rw [reject_of_not hmagic, reject_of_not (by simp [HashResources.ok]),
    reject_of_not (by simp [HashResources.ok]), (feeds_hashHeadersRun.mp hhead).1]
  simp only [ok_bind, hrefresh]
  rw [reject_of_not (by simp [HashResources.ok])]
  unfold sortSections hashSections
  simp only [ok_bind, hsort, hsections, (feeds_hashToTableRun.mp htable).1, hremaining]
  rw [nil_append, append_nil, append_assoc, append_assoc]
  rfl

end

section

variable {table : List SectionHeader} {s : SectionHeader}

lemma insertPos_after {pos : ℕ} (hpos : pos ≤ table.length) :
    ∀ t ∈ (table.take pos).drop (insertPos table s pos),
      s.pointerToRawData < t.pointerToRawData := by
  induction pos with
  | zero => simp
  | succ pos ih =>
    have hget : table[pos]? = some (table[pos]) := getElem?_eq_getElem (by omega)
    have htake : table.take (pos + 1) = table.take pos ++ [table[pos]] :=
      take_succ_eq_append_getElem (by omega)
    rw [insertPos, hget]
    dsimp only
    split_ifs with hlt
    · intro t ht
      have hle : insertPos table s pos ≤ (table.take pos).length := by
        rw [length_take, Nat.min_eq_left (by omega)]
        exact insertPos_le table s pos
      rw [htake, drop_append_of_le_length hle, mem_append, mem_singleton] at ht
      rcases ht with ht | rfl
      · exact ih (by omega) t ht
      · exact hlt
    · rw [drop_of_length_le (by rw [length_take]; omega)]
      exact fun t ht => absurd ht not_mem_nil

lemma insertPos_before {pos : ℕ} (hpos : pos ≤ table.length)
    (hsorted : table.Pairwise fun a b => a.pointerToRawData ≤ b.pointerToRawData) :
    ∀ t ∈ table.take (insertPos table s pos), t.pointerToRawData ≤ s.pointerToRawData := by
  induction pos with
  | zero => simp [insertPos]
  | succ pos ih =>
    have hget : table[pos]? = some (table[pos]) := getElem?_eq_getElem (by omega)
    have htake : table.take (pos + 1) = table.take pos ++ [table[pos]] :=
      take_succ_eq_append_getElem (by omega)
    rw [insertPos, hget]
    dsimp only
    split_ifs with hlt
    · exact ih (by omega)
    intro t ht
    -- the rows in front of the one it stops at are not larger than that one
    have hpair := hsorted.sublist (take_sublist (pos + 1) table)
    rw [htake, pairwise_append] at hpair
    rw [htake, mem_append, mem_singleton] at ht
    rcases ht with ht | rfl
    · exact le_trans (hpair.2.2 t ht _ (mem_singleton_self _)) (by omega)
    · omega

lemma sortTable_stablySorted (sections : List SectionHeader) :
    StablySorted pointerToRawData sections (sortTable sections) := by
  induction sections using reverseRecOn with
  | nil => exact StablySorted.nil
  | append_singleton sections s ih =>
    rw [sortTable_concat]
    refine ih.insert (insertPos_le _ _ _) (insertPos_before le_rfl ih.sorted) fun t ht => ?_
    apply insertPos_after le_rfl
    rwa [take_length]

end

/-! ## No length is wrapped -/

/-- The differences of an event do not wrap, and its ranges lie inside the file. The padding comes
from a buffer of eight bytes. -/
def EventInside (f : File) (c : Context) : HashEvent → Prop
  | .sizeTest sum limit => c.sizeOfHeaders + sum + limit = f.datasize
  | .rawTest sum pointer limit =>
    c.sizeOfHeaders + sum ≤ f.datasize ∧ pointer + limit = f.datasize
  | .update base size => base + size ≤ f.datasize
  | .pad size => size < 8

section

variable {calls : HashCalls} {f : File} {c : Context} {e : HashEvent} {sum total : ℕ}

lemma feed_inside {part : HashPart} {base size : ℕ}
    (h : (feed calls f part base size).Emits e) : EventInside f c e := by
  unfold feed at h
  simp only [emits_bind, emits_lift, yields_lift, checkSize_eq_ok, emits_emit,
    emits_check, and_false, exists_false, or_false, false_or] at h
  obtain ⟨_, hsize, rfl⟩ := h
  exact hsize

lemma hashHeadersRun_inside (h : (hashHeadersRun calls f c).Emits e) : EventInside f c e := by
  unfold hashHeadersRun at h
  simp only [emits_bind, emits_check, false_or] at h
  rcases h with h | ⟨_, -, h | ⟨_, -, _, -, h⟩⟩
  · exact feed_inside h
  · exact feed_inside h
  · exact feed_inside h

lemma sortSectionsRun_inside (hle : c.sizeOfHeaders ≤ f.datasize) {n : ℕ}
    (h : ((List.range n).foldlM (sortStepRun f c) (0, [])).Emits e) : EventInside f c e := by
  have hdata := f.datasize_lt
  obtain ⟨k, -, st, hst, h⟩ := emits_foldlM_range.mp h
  have hloop := (feeds_sortSectionsRun.mp ⟨hst, rfl⟩).1
  have hsum := (sortSections_sum hle hloop).2
  unfold sortStepRun at h
  simp only [emits_bind, emits_lift, emits_emit, emits_check, emits_pure,
    and_false, exists_false, or_false, false_or] at h
  obtain ⟨_, -, rfl⟩ := h
  show c.sizeOfHeaders + st.1 + subW 32 (subW 32 f.datasize c.sizeOfHeaders) st.1 = f.datasize
  rw [subW_of_le hdata hle, subW_of_le (by omega) (by omega)]
  omega

lemma hashStepRun_inside (hle : c.sizeOfHeaders + total ≤ f.datasize) {row : SectionHeader × ℕ}
    (h : (hashStepRun calls f total sum row).Emits e) : EventInside f c e := by
  have hdata := f.datasize_lt
  unfold hashStepRun at h
  split_ifs at h with hzero
  · exact absurd h emits_pure
  simp only [emits_bind, emits_check, yields_check, emits_emit, emits_pure,
    and_false, exists_false, or_false, false_or] at h
  obtain ⟨_, himage, rfl | ⟨_, -, _, -, h⟩⟩ := h
  · have hlt := (imageAddress_ne_zero himage).1
    refine ⟨hle, ?_⟩
    rw [subW_of_le hdata (by omega)]
    omega
  · exact feed_inside h

lemma hashToTableRun_inside (h : (hashToTableRun calls f c sum).Emits e) : EventInside f c e := by
  unfold hashToTableRun at h
  split_ifs at h
  · simp only [emits_bind, emits_check, emits_pure, and_false, exists_false, or_false,
      false_or] at h
    obtain ⟨_, -, h⟩ := h
    exact feed_inside h
  · exact absurd h emits_pure

lemma hashRemainingRun_inside (h : (hashRemainingRun calls f c sum).Emits e) :
    EventInside f c e := by
  unfold hashRemainingRun at h
  split_ifs at h with hmore
  · rw [emits_bind] at h
    rcases h with h | ⟨_, -, h⟩
    · exact feed_inside h
    dsimp only at h
    split_ifs at h with hpad
    · simp only [emits_bind, emits_emit, emits_check, and_false, exists_false,
        or_false] at h
      rw [h]
      exact subW_alignUp_lt addW_lt (by decide) (by decide)
    · exact absurd h emits_pure
  · exact absurd h emits_pure

/-- The lengths do not wrap, in any run: a range that is fed lies inside the file, and where a
section is tested the headers and the sections before it fit. A run that succeeds hashes the
headers, the sections by the place of their raw data, and the rest. -/
theorem generateHashRun_sound {p : Platform} {mokPolicy : ℕ} {checkSecdir : Bool}
    (calls : HashCalls) (hread : readHeader f p mokPolicy checkSecdir = .ok c) :
    (∀ e, (generateHashRun calls f c).Emits e → EventInside f c e) ∧
      ((generateHashRun calls f c).Yields () →
        ∃ table tail, StablySorted pointerToRawData (f.sections c) table ∧
          fedRanges (generateHashRun calls f c).trace = headRanges c ++ rawRanges table ++ tail ∧
          Tiles (c.sizeOfHeaders + rawSum (f.sections c)) tail) := by
  refine ⟨fun e h => ?_, fun h => ?_⟩
  · unfold generateHashRun at h
    simp only [emits_bind, emits_check, yields_check, emits_lift, yields_lift,
      and_false, exists_false, or_false, false_or] at h
    obtain ⟨_, hmagic, _, -, _, -, h | ⟨_, hhead, c', hrefresh, _, -, h⟩⟩ := h
    · exact hashHeadersRun_inside h
    have hmz : f.eMagic = imageDosSignature := by
      by_contra hne
      exact hmagic (.inr hne)
    have hlay := layout_of_readHeader hread hmz
    obtain rfl := refreshSections_ok hlay hmz hrefresh
    have hle := (hashHeaders_ok hlay (feeds_hashHeadersRun.mp ⟨hhead, rfl⟩).1).2.1
    rcases h with h | ⟨⟨total, table⟩, hsort, h⟩
    · exact sortSectionsRun_inside hle h
    have htotal := (sortSections_sum hle (feeds_sortSectionsRun.mp ⟨hsort, rfl⟩).1).2
    rcases h with h | ⟨sum, -, h | ⟨sum', -, h⟩⟩
    · obtain ⟨row, -, u, hu⟩ := exists_emits_of_foldlM h
      exact hashStepRun_inside htotal hu
    · exact hashToTableRun_inside h
    · exact hashRemainingRun_inside h
  · obtain ⟨pad, hhash⟩ := generateHash_of_feeds ⟨h, rfl⟩
    obtain ⟨-, hhashed⟩ := generateHash_ok hread hhash
    obtain ⟨tail, hranges, htiles, -⟩ := hhashed.ranges
    rw [Hashed.tail_start (generateHash_sum hread hhash)] at htiles
    exact ⟨_, tail, sortTable_stablySorted _, hranges, htiles⟩

end

def unsortedImage : File :=
  PeFields.file ⟨0x4000, 0x200, 0x1000, 0x1000, (0, 0), (0, 0),
    [⟨nameText, 0x100, 0x1000, 0x100, 0x400, 0x60000020⟩,
      ⟨nameReloc, 0x100, 0x2000, 0x100, 0x200, 0x42000040⟩,
      ⟨nameReloc, 0x80, 0x3000, 0x80, 0x200, 0x42000040⟩], []⟩ 0x500

theorem generateHashRun_sound_unsortedImage :
    let f := unsortedImage
    let c := f.context 64
    let fed := fedRanges (generateHashRun .ok f c).trace
    fed = [(0, 152), (156, 76), (240, 272), (0x200, 0x100), (0x200, 0x80), (0x400, 0x100),
        (0x480, 0x80)] ∧
      ∃ table tail, StablySorted pointerToRawData (f.sections c) table ∧
        fed = headRanges c ++ rawRanges table ++ tail ∧ Tiles (0x200 + 0x280) tail := by
  have hread : readHeader unsortedImage .x64 0 true = .ok (unsortedImage.context 64) := by
    decide +kernel
  have hyields : (generateHashRun .ok unsortedImage (unsortedImage.context 64)).out = .ok () := by
    decide +kernel
  refine ⟨by decide +kernel, ?_⟩
  obtain ⟨table, tail, hsorted, hfed, htiles⟩ := (generateHashRun_sound .ok hread).2 hyields
  have hsum : (unsortedImage.context 64).sizeOfHeaders +
      rawSum (unsortedImage.sections (unsortedImage.context 64)) = 0x200 + 0x280 := by
    decide +kernel
  rw [hsum] at htiles
  exact ⟨table, tail, hsorted, hfed, htiles⟩

end Shim.Pe
