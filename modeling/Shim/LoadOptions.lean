import Shim.Efi
import Shim.Lib.CStr
import Shim.Lib.Loop
import Shim.Lib.Word

/-!
# Load options

The load options of an image are bytes. They may be an `EFI_LOAD_OPTION`: attributes, the length of a
list of device paths, a description in UCS-2, the list and optional data, which
`get_load_option_optional_data` finds. Its events are the ranges of the buffer it reads.
-/

namespace Shim.LoadOptions

open Lib Run

section

variable (m : Mem)

def fplistlen : ℕ := m.u16 4

def descriptionFrom (limit : ℕ) : ℕ → ℕ → Run Access EfiStatus ℕ
  | 0, i => return i
  | k + 1, i => do
      .emit (.read (6 + i) 1)
      if i % 2 ≠ 0 then do
        .check (m (6 + i) ≠ 0) .invalidParameter
        descriptionFrom limit k (i + 1)
      else if m (6 + i) = 0 then do
        .check (limit ≤ i + 1) .invalidParameter
        .emit (.read (6 + (i + 1)) 1)
        .check (m (6 + (i + 1)) ≠ 0) .invalidParameter
        return i + 1
      else descriptionFrom limit k (i + 1)

def nodeLen (cur i : ℕ) : ℕ :=
  (m (cur + addW 32 i 3)).toNat * 2 ^ 8 + (m (cur + addW 32 i 2)).toNat

def EndEntire (cur i : ℕ) : Prop := m (cur + i) = 0x7f ∧ m (cur + addW 32 i 1) = 0xff

instance (cur i : ℕ) : Decidable (EndEntire m cur i) := inferInstanceAs (Decidable (_ ∧ _))

def pathRound (cur limit i : ℕ) : Run Access EfiStatus (ℕ ⊕ ℕ) :=
  if subW 32 limit i < 4 then return .inr i
  else do
    .emit (.read (cur + i) 1)
    .emit (.read (cur + addW 32 i 1) 1)
    .emit (.read (cur + addW 32 i 3) 1)
    .emit (.read (cur + addW 32 i 2) 1)
    .check (nodeLen m cur i < 4 ∨ limit < nodeLen m cur i) .invalidParameter
    if EndEntire m cur i then do
      .check (nodeLen m cur i ≠ 4) .invalidParameter
      return .inr (addW 32 i (nodeLen m cur i))
    else return .inl (addW 32 i (nodeLen m cur i))

@[irreducible] def indexValues : ℕ := 2 ^ 32

/-- The walk, which is never over if it is not after as many rounds as its index has values. -/
def pathLoop (cur limit : ℕ) : Run Access EfiStatus (Option ℕ) :=
  Run.loop (pathRound m cur limit) indexValues 0

structure OptionalData where
  od : Option ℕ
  ods : ℕ
  deriving DecidableEq

/-- The device path at `cur`, with `limit` bytes behind it, and what follows it. -/
def pathStage (cur limit : ℕ) : Run Access EfiStatus (Option OptionalData) := do
  match ← pathLoop m cur limit with
  | none => return none
  | some i => do
      .check (fplistlen m < i) .invalidParameter
      return some ⟨some (cur + fplistlen m), limit - fplistlen m⟩

def getLoadOptionOptionalData (dataSize : ℕ) : Run Access EfiStatus (Option OptionalData) := do
  .check (dataSize < 12) .invalidParameter
  .emit (.read 4 2)
  .check (dataSize - 10 < fplistlen m) .invalidParameter
  let limit := dataSize - 6 - fplistlen m
  let i ← descriptionFrom m limit limit 0
  let i := i + 1
  .check (limit < i) .invalidParameter
  if i = limit then return some ⟨none, 0⟩
  else pathStage m (6 + i) (limit - i + fplistlen m)

end

/-! ## The description -/

variable {m : Mem} {limit : ℕ}

def IsText (m : Mem) (i : ℕ) : Prop := if i % 2 = 0 then m (6 + i) ≠ 0 else m (6 + i) = 0

structure Description (m : Mem) (limit d : ℕ) : Prop where
  even : d % 2 = 0
  text : ∀ i < d, IsText m i
  nul : m (6 + d) = 0 ∧ m (6 + (d + 1)) = 0
  le : d + 2 ≤ limit

lemma descriptionFrom_reads {k i off len : ℕ} (hk : i + k = limit)
    (h : (descriptionFrom m limit k i).Emits (.read off len)) : off + len ≤ 6 + limit := by
  induction k generalizing i with
  | zero => exact absurd h emits_pure
  | succ k ih =>
    rw [descriptionFrom, emits_bind, emits_emit] at h
    rcases h with h | ⟨_, -, h⟩
    · cases h
      omega
    split_ifs at h
    · simp only [emits_bind, emits_check, false_or] at h
      obtain ⟨_, -, h⟩ := h
      exact ih (by omega) h
    · simp only [emits_bind, emits_check, yields_check, emits_emit,
        emits_pure, false_or, and_false, exists_const, or_false] at h
      obtain ⟨hlimit, h⟩ := h
      cases h
      omega
    · exact ih (by omega) h

/-- Where the loop ends that has come to the byte `i`: behind the first half of the `NUL` of the
description, or at the limit if there is none. -/
def EndsAt (m : Mem) (limit i e : ℕ) : Prop :=
  (∃ d, i ≤ d ∧ Description m limit d ∧ e = d + 1) ∨ ((∀ j < limit, IsText m j) ∧ e = limit)

lemma endsAt_of_text {i e : ℕ} (hi : IsText m i) :
    EndsAt m limit i e ↔ EndsAt m limit (i + 1) e := by
  refine or_congr_left (exists_congr fun d => and_congr_left fun hd => ⟨fun hle => ?_, by omega⟩)
  rcases Nat.lt_or_eq_of_le hle with hlt | rfl
  · exact hlt
  · rw [IsText, if_pos hd.1.even] at hi
    exact absurd hd.1.nul.1 hi

lemma endsAt_of_not_text {i e : ℕ} (htext : ∀ j < i, IsText m j) (hlt : i < limit)
    (hi : ¬ IsText m i) :
    EndsAt m limit i e ↔
      (i % 2 = 0 ∧ m (6 + i) = 0 ∧ m (6 + (i + 1)) = 0 ∧ i + 2 ≤ limit) ∧ e = i + 1 := by
  constructor
  · rintro (⟨d, hd, hdesc, rfl⟩ | ⟨hall, -⟩)
    · rcases Nat.lt_or_eq_of_le hd with hlt | rfl
      · exact absurd (hdesc.text i hlt) hi
      · exact ⟨⟨hdesc.even, hdesc.nul.1, hdesc.nul.2, hdesc.le⟩, rfl⟩
    · exact absurd (hall i hlt) hi
  · rintro ⟨⟨heven, hnul, hnul', hle⟩, rfl⟩
    exact .inl ⟨i, le_rfl, ⟨heven, htext, ⟨hnul, hnul'⟩, hle⟩, rfl⟩

lemma descriptionFrom_yields {k i e : ℕ} (hk : i + k = limit) (htext : ∀ j < i, IsText m j) :
    (descriptionFrom m limit k i).Yields e ↔ EndsAt m limit i e := by
  induction k generalizing i with
  | zero =>
    rw [descriptionFrom, yields_pure]
    constructor
    · rintro rfl
      exact .inr ⟨by rwa [← hk], hk⟩
    · rintro (⟨d, hd, hdesc, -⟩ | ⟨-, rfl⟩)
      · have := hdesc.le
        omega
      · exact hk
  | succ k ih =>
    have hmore : IsText m i →
        ((descriptionFrom m limit k (i + 1)).Yields e ↔ EndsAt m limit i e) := by
      intro hi
      rw [endsAt_of_text hi]
      exact ih (by omega) (Nat.forall_lt_succ_right.mpr ⟨htext, hi⟩)
    rw [descriptionFrom, yields_bind]
    simp only [yields_emit, true_and, exists_const]
    by_cases hodd : i % 2 = 0
    · rw [if_neg (not_not.mpr hodd)]
      by_cases hnul : m (6 + i) = 0
      · have hnot : ¬ IsText m i := by
          rw [IsText, if_pos hodd]
          exact not_not.mpr hnul
        rw [if_pos hnul, endsAt_of_not_text htext (by omega) hnot]
        simp only [yields_bind, yields_check, yields_emit, yields_pure, not_not,
          exists_const, true_and, hodd, hnul]
        constructor
        · rintro ⟨hlimit, hnul', rfl⟩
          exact ⟨⟨hnul', by omega⟩, rfl⟩
        · rintro ⟨⟨hnul', hle⟩, rfl⟩
          exact ⟨by omega, hnul', rfl⟩
      · rw [if_neg hnul]
        exact hmore (by rwa [IsText, if_pos hodd])
    · rw [if_pos hodd, yields_bind]
      simp only [yields_check, not_not, exists_const]
      by_cases hnul : m (6 + i) = 0
      · rw [← hmore (by rwa [IsText, if_neg hodd])]
        exact and_iff_right hnul
      · have hnot : ¬ IsText m i := by rwa [IsText, if_neg hodd]
        rw [endsAt_of_not_text htext (by omega) hnot]
        exact iff_of_false (fun h => hnul h.1) fun h => hodd h.1.1

lemma description_yields {e : ℕ} :
    (descriptionFrom m limit limit 0).Yields e ↔ EndsAt m limit 0 e :=
  descriptionFrom_yields (Nat.zero_add _) fun j hj => absurd hj (Nat.not_lt_zero j)

lemma Description.yields {d : ℕ} (h : Description m limit d) :
    (descriptionFrom m limit limit 0).Yields (d + 1) :=
  description_yields.mpr (.inl ⟨d, Nat.zero_le d, h, rfl⟩)

/-! ## The walk -/

section

variable {cur i j : ℕ}

/-- The walk passes the node at `i` and goes on at `j`: its header has room, its length is within
the limit, and it does not end the path. -/
structure PassesNode (m : Mem) (cur limit i j : ℕ) : Prop where
  room : i + 4 ≤ limit
  len_ge : 4 ≤ nodeLen m cur i
  len_le : nodeLen m cur i ≤ limit
  more : ¬ EndEntire m cur i
  next : j = addW 32 i (nodeLen m cur i)

/-- The walk stays in the buffer and does not come back to a node. Only in a buffer of nearly 4 GiB
can it come back, when the index wraps. -/
structure PathInside (m : Mem) (cur limit : ℕ) : Prop where
  ends : ∀ i j, Relation.ReflTransGen (PassesNode m cur limit) 0 i → PassesNode m cur limit i j →
    j ≤ limit
  forward : ∀ i, Relation.ReflTransGen (PassesNode m cur limit) 0 i →
    ¬ Relation.TransGen (PassesNode m cur limit) i i

lemma nodeLen_lt (m : Mem) (cur i : ℕ) : nodeLen m cur i < 2 ^ 16 := by
  have hhigh := (m (cur + addW 32 i 3)).toNat_lt
  have hlow := (m (cur + addW 32 i 2)).toNat_lt
  unfold nodeLen
  omega

lemma pathRound_continues : Run.Continues (pathRound m cur limit) i j ↔
      4 ≤ subW 32 limit i ∧ 4 ≤ nodeLen m cur i ∧ nodeLen m cur i ≤ limit ∧
        ¬ EndEntire m cur i ∧ j = addW 32 i (nodeLen m cur i) := by
  unfold Run.Continues pathRound
  by_cases hroom : subW 32 limit i < 4
  · rw [if_pos hroom, yields_pure]
    refine iff_of_false (by simp) ?_
    rintro ⟨h, -⟩
    omega
  rw [if_neg hroom]
  by_cases hend : EndEntire m cur i
  · simp [hend]
  rw [if_neg hend]
  simp only [yields_bind, yields_emit, yields_check, yields_pure, exists_const,
    true_and, Sum.inl.injEq, not_or, Nat.not_lt, hend, not_false_eq_true]
  constructor
  · rintro ⟨⟨hge, hle⟩, rfl⟩
    exact ⟨by omega, hge, hle, rfl⟩
  · rintro ⟨-, hge, hle, rfl⟩
    exact ⟨⟨hge, hle⟩, rfl⟩

lemma continues_iff (hlimit : limit < 2 ^ 32) (hi : i ≤ limit) :
    Run.Continues (pathRound m cur limit) i j ↔ PassesNode m cur limit i j := by
  rw [pathRound_continues, subW_of_le hlimit hi]
  constructor
  · rintro ⟨hroom, hge, hle, hmore, hnext⟩
    exact ⟨by omega, hge, hle, hmore, hnext⟩
  · rintro ⟨hroom, hge, hle, hmore, hnext⟩
    exact ⟨by omega, hge, hle, hmore, hnext⟩

lemma pathRound_reads {off len : ℕ} : (pathRound m cur limit i).Emits (.read off len) ↔
      4 ≤ subW 32 limit i ∧ len = 1 ∧
        (off = cur + i ∨ off = cur + addW 32 i 1 ∨ off = cur + addW 32 i 3 ∨
          off = cur + addW 32 i 2) := by
  unfold pathRound
  by_cases hroom : subW 32 limit i < 4
  · rw [if_pos hroom]
    refine iff_of_false emits_pure ?_
    rintro ⟨h, -⟩
    omega
  have hlast : ∀ x : Run Access EfiStatus (ℕ ⊕ ℕ), x = (if EndEntire m cur i then do
        .check (nodeLen m cur i ≠ 4) .invalidParameter
        return .inr (addW 32 i (nodeLen m cur i))
      else return .inl (addW 32 i (nodeLen m cur i))) → ¬ x.Emits (.read off len) := by
    rintro x rfl
    split_ifs <;> simp
  have hge : 4 ≤ subW 32 limit i := by omega
  rw [if_neg hroom]
  simp only [emits_bind, emits_emit, yields_emit, emits_check, Access.read.injEq,
    exists_const, true_and, hlast _ rfl, and_false, or_false, hge]
  tauto

lemma reaches_lt (h : Run.Reaches (pathRound m cur limit) 0 i) : i < indexValues := by
  unfold indexValues
  rcases h.cases_tail with h | ⟨k, -, hk⟩
  · rw [h]
    exact Nat.two_pow_pos 32
  · obtain ⟨-, -, -, -, rfl⟩ := pathRound_continues.mp hk
    exact addW_lt

section

variable (hlimit : limit < 2 ^ 32)
include hlimit

lemma reaches_of_passes (h : Relation.ReflTransGen (PassesNode m cur limit) 0 i) :
    Run.Reaches (pathRound m cur limit) 0 i := by
  induction h with
  | refl => exact .refl
  | tail _ hpass ih =>
    have hroom := hpass.room
    exact ih.tail ((continues_iff hlimit (by omega)).mpr hpass)

lemma passes_of_reaches (hpath : PathInside m cur limit)
    (h : Run.Reaches (pathRound m cur limit) 0 i) :
    i ≤ limit ∧ Relation.ReflTransGen (PassesNode m cur limit) 0 i := by
  induction h with
  | refl => exact ⟨Nat.zero_le _, .refl⟩
  | tail _ hstep ih =>
    obtain ⟨hle, hreach⟩ := ih
    have hpass := (continues_iff hlimit hle).mp hstep
    exact ⟨hpath.ends _ _ hreach hpass, hreach.tail hpass⟩

lemma transGen_passes (hpath : PathInside m cur limit)
    (hi : Run.Reaches (pathRound m cur limit) 0 i)
    (h : Relation.TransGen (Run.Continues (pathRound m cur limit)) i j) :
    Relation.TransGen (PassesNode m cur limit) i j := by
  induction h with
  | single hstep =>
    exact .single ((continues_iff hlimit (passes_of_reaches hlimit hpath hi).1).mp hstep)
  | tail hrest hstep ih =>
    have hreach := hi.trans hrest.to_reflTransGen
    exact ih.tail ((continues_iff hlimit (passes_of_reaches hlimit hpath hreach).1).mp hstep)

lemma pathLoop_safe_iff : (¬ (pathLoop m cur limit).Yields none ∧
      ∀ off len, (pathLoop m cur limit).Emits (.read off len) → off + len ≤ cur + limit) ↔
      PathInside m cur limit := by
  have hnone : (pathLoop m cur limit).Yields none ↔ ∃ i, Run.Reaches (pathRound m cur limit) 0 i ∧
      Relation.TransGen (Run.Continues (pathRound m cur limit)) i i :=
    loop_yields_none_iff Function.injective_id fun i hi => reaches_lt hi
  constructor
  · rintro ⟨hends, hreads⟩
    constructor
    · intro i j hreach hpass
      by_contra hout
      -- the index is behind the limit, so the difference wraps and the walk reads there
      have hstep := (continues_iff hlimit (by have := hpass.room; omega)).mpr hpass
      have hj : Run.Reaches (pathRound m cur limit) 0 j := (reaches_of_passes hlimit hreach).tail hstep
      have hwraps : 4 ≤ subW 32 limit j := by
        have hlt := reaches_lt hj
        have hroom := hpass.room
        unfold indexValues at hlt
        rw [subW_of_lt hlt (by omega)]
        omega
      have hread : (pathRound m cur limit j).Emits (.read (cur + j) 1) :=
        pathRound_reads.mpr ⟨hwraps, rfl, .inl rfl⟩
      have := hreads _ _ ((loop_emits_of_ends hends).mpr ⟨j, hj, hread⟩)
      omega
    · intro i hreach hcycle
      refine hends (hnone.mpr ⟨i, reaches_of_passes hlimit hreach, ?_⟩)
      refine Relation.TransGen.mono ?_ i i hcycle
      intro a b hab
      exact (continues_iff hlimit (by have := hab.room; omega)).mpr hab
  · intro hpath
    constructor
    · intro hloop
      obtain ⟨i, hreach, hcycle⟩ := hnone.mp hloop
      exact hpath.forward i (passes_of_reaches hlimit hpath hreach).2
        (transGen_passes hlimit hpath hreach hcycle)
    · intro off len hread
      obtain ⟨i, hreach, hread⟩ := reaches_of_loop_emits hread
      obtain ⟨hle, -⟩ := passes_of_reaches hlimit hpath hreach
      obtain ⟨hroom, rfl, hoff⟩ := pathRound_reads.mp hread
      rw [subW_of_le hlimit hle] at hroom
      rw [addW_of_lt (by omega), addW_of_lt (by omega), addW_of_lt (by omega)] at hoff
      omega

end

/-- In a buffer that is not within 64 KiB of 4 GiB the index does not wrap: the nodes only have to end
in the buffer. -/
theorem pathInside_of_ends (hlimit : limit + 2 ^ 16 ≤ 2 ^ 32)
    (h : ∀ i j, Relation.ReflTransGen (PassesNode m cur limit) 0 i → PassesNode m cur limit i j →
      i + nodeLen m cur i ≤ limit) : PathInside m cur limit := by
  have hnext : ∀ {i j}, PassesNode m cur limit i j → j = i + nodeLen m cur i := by
    intro i j hpass
    have hlen := nodeLen_lt m cur i
    have hroom := hpass.room
    rw [hpass.next, addW_of_lt (by omega)]
  constructor
  · intro i j hreach hpass
    rw [hnext hpass]
    exact h i j hreach hpass
  · intro i _ hcycle
    have hforward : ∀ {a b}, Relation.TransGen (PassesNode m cur limit) a b → a < b := by
      intro a b hab
      induction hab with
      | single hpass =>
        have hlen := hpass.len_ge
        rw [hnext hpass]
        omega
      | tail _ hpass ih =>
        have hlen := hpass.len_ge
        rw [hnext hpass]
        omega
    exact lt_irrefl i (hforward hcycle)

end

/-! ## The function -/

section

variable {n : ℕ}

structure HasPath (m : Mem) (n d : ℕ) : Prop where
  size : 12 ≤ n
  list : fplistlen m ≤ n - 10
  description : Description m (n - 6 - fplistlen m) d
  more : d + 2 < n - 6 - fplistlen m

def OptionalData.Inside (x : OptionalData) (n : ℕ) : Prop :=
  match x.od with
  | none => x.ods = 0
  | some o => o + x.ods ≤ n

/-- The function returns, reads nothing outside of its `n` bytes, and what it hands out lies there. -/
structure Safe (m : Mem) (n : ℕ) : Prop where
  returns : ¬ (getLoadOptionOptionalData m n).Yields none
  reads : ∀ off len, (getLoadOptionOptionalData m n).Emits (.read off len) → off + len ≤ n
  result : ∀ x, (getLoadOptionOptionalData m n).Yields (some x) → x.Inside n

lemma HasPath.limit_eq {d : ℕ} (h : HasPath m n d) :
    n - 6 - fplistlen m - (d + 2) + fplistlen m = n - 6 - (d + 2) := by
  have := h.more
  omega

section

variable {cur limit : ℕ} {r : Access} {x : Option OptionalData}

lemma pathStage_yields_none :
    (pathStage m cur limit).Yields none ↔ (pathLoop m cur limit).Yields none := by
  unfold pathStage
  rw [yields_bind]
  constructor
  · rintro ⟨_ | i, hloop, h⟩
    · exact hloop
    · simp at h
  · intro h
    exact ⟨none, h, yields_pure.mpr rfl⟩

lemma pathStage_yields_some {x : OptionalData} (h : (pathStage m cur limit).Yields (some x)) :
    x = ⟨some (cur + fplistlen m), limit - fplistlen m⟩ := by
  unfold pathStage at h
  rw [yields_bind] at h
  obtain ⟨_ | i, -, h⟩ := h
  · simp at h
  · simp only [yields_bind, yields_check, yields_pure, exists_const,
      Option.some.injEq] at h
    exact h.2.symm

lemma pathStage_emits : (pathStage m cur limit).Emits r ↔ (pathLoop m cur limit).Emits r := by
  unfold pathStage
  rw [emits_bind]
  refine or_iff_left ?_
  rintro ⟨_ | i, -, h⟩
  · exact emits_pure h
  · simp at h

lemma description_cases {e : ℕ} (hn : ¬ n < 12) (hlist : ¬ n - 10 < fplistlen m)
    (he : (descriptionFrom m (n - 6 - fplistlen m) (n - 6 - fplistlen m) 0).Yields e)
    (hle : ¬ n - 6 - fplistlen m < e + 1) (hne : e + 1 ≠ n - 6 - fplistlen m) :
    ∃ d, HasPath m n d ∧ e = d + 1 := by
  rcases description_yields.mp he with ⟨d, -, hdesc, rfl⟩ | ⟨-, rfl⟩
  · exact ⟨d, ⟨by omega, by omega, hdesc, by omega⟩, rfl⟩
  · omega

lemma HasPath.yields_of_stage {d : ℕ} (h : HasPath m n d)
    (hx : (pathStage m (6 + (d + 2)) (n - 6 - (d + 2))).Yields x) :
    (getLoadOptionOptionalData m n).Yields x := by
  have hsize := h.size
  have hlist := h.list
  have hmore := h.more
  have hne : d + 1 + 1 ≠ n - 6 - fplistlen m := by omega
  unfold getLoadOptionOptionalData
  simp only [yields_bind, yields_check, yields_emit, exists_const, true_and]
  refine ⟨by omega, by omega, d + 1, h.description.yields, by omega, ?_⟩
  rw [if_neg hne, h.limit_eq]
  exact hx

lemma getLoadOptionOptionalData_yields :
    (getLoadOptionOptionalData m n).Yields x → x = some ⟨none, 0⟩ ∨
        ∃ d, HasPath m n d ∧ (pathStage m (6 + (d + 2)) (n - 6 - (d + 2))).Yields x := by
  intro h
  unfold getLoadOptionOptionalData at h
  simp only [yields_bind, yields_check, yields_emit, exists_const, true_and] at h
  obtain ⟨hn, hlist, e, he, hle, h⟩ := h
  split_ifs at h with hlast
  · exact .inl (yields_pure.mp h).symm
  · obtain ⟨d, hd, rfl⟩ := description_cases hn hlist he hle hlast
    rw [hd.limit_eq] at h
    exact .inr ⟨d, hd, h⟩

lemma getLoadOptionOptionalData_reads {off len : ℕ}
    (h : (getLoadOptionOptionalData m n).Emits (.read off len)) :
    off + len ≤ n ∨
      ∃ d, HasPath m n d ∧ (pathLoop m (6 + (d + 2)) (n - 6 - (d + 2))).Emits (.read off len) := by
  unfold getLoadOptionOptionalData at h
  simp only [emits_bind, emits_check, yields_check, emits_emit, yields_emit,
    Access.read.injEq, exists_const, true_and, false_or] at h
  obtain ⟨hn, ⟨rfl, rfl⟩ | ⟨hlist, hdesc | ⟨e, he, hle, h⟩⟩⟩ := h
  · exact .inl (by omega)
  · have := descriptionFrom_reads (Nat.zero_add _) hdesc
    exact .inl (by omega)
  · split_ifs at h with hlast
    · exact absurd h emits_pure
    · obtain ⟨d, hd, rfl⟩ := description_cases hn hlist he hle hlast
      rw [hd.limit_eq, pathStage_emits] at h
      exact .inr ⟨d, hd, h⟩

lemma HasPath.emits {d : ℕ} (h : HasPath m n d)
    (hr : (pathLoop m (6 + (d + 2)) (n - 6 - (d + 2))).Emits r) :
    (getLoadOptionOptionalData m n).Emits r := by
  have hsize := h.size
  have hlist := h.list
  have hmore := h.more
  have hne : d + 1 + 1 ≠ n - 6 - fplistlen m := by omega
  unfold getLoadOptionOptionalData
  simp only [emits_bind, emits_check, yields_check, emits_emit, yields_emit,
    exists_const, true_and, false_or]
  refine ⟨by omega, .inr ⟨by omega, .inr ⟨d + 1, h.description.yields, by omega, ?_⟩⟩⟩
  rw [if_neg hne, h.limit_eq, pathStage_emits]
  exact hr

end

/-- The function returns, keeps to its buffer and hands out a range of it iff each node of the device
path that it passes ends in the buffer. -/
theorem getLoadOptionOptionalData_safe_iff (m : Mem) (hn : n < 2 ^ 32) :
    Safe m n ↔ ∀ d, HasPath m n d → PathInside m (6 + (d + 2)) (n - 6 - (d + 2)) := by
  constructor
  · intro hsafe d hd
    refine (pathLoop_safe_iff (by omega)).mp ⟨fun hnone => ?_, fun off len hread => ?_⟩
    · exact hsafe.returns (hd.yields_of_stage (pathStage_yields_none.mpr hnone))
    · have := hsafe.reads off len (hd.emits hread)
      omega
  · intro hinside
    have hwalk : ∀ d, HasPath m n d → _ := fun d hd =>
      (pathLoop_safe_iff (by omega)).mpr (hinside d hd)
    constructor
    · intro hnone
      rcases getLoadOptionOptionalData_yields hnone with h | ⟨d, hd, h⟩
      · cases h
      · exact (hwalk d hd).1 (pathStage_yields_none.mp h)
    · intro off len hread
      rcases getLoadOptionOptionalData_reads hread with h | ⟨d, hd, h⟩
      · exact h
      · have hmore := hd.more
        have := (hwalk d hd).2 off len h
        omega
    · intro x hx
      rcases getLoadOptionOptionalData_yields hx with h | ⟨d, hd, h⟩
      · cases h
        rfl
      rw [pathStage_yields_some h]
      have hmore := hd.more
      show 6 + (d + 2) + fplistlen m + (n - 6 - (d + 2) - fplistlen m) ≤ n
      omega

end

def overrunOption : Mem := .ofBytes [1, 0, 0, 0, 4, 0, 0, 0, 4, 4, 4, 0, 4, 4, 8, 0]

/-- The function reads behind the buffer. -/
theorem overrunOption_reads_outside :
    (getLoadOptionOptionalData overrunOption 16).Emits (.read 20 1) := by
  decide +kernel

def endOption : Mem := .ofBytes [1, 0, 0, 0, 4, 0, 0, 0, 0x7f, 0xff, 4, 0, 0x61, 0]

theorem getLoadOptionOptionalData_safe_iff_endOption : Safe endOption 14 ∧
      (getLoadOptionOptionalData endOption 14).out = .ok (some ⟨some 12, 2⟩) := by
  refine ⟨(getLoadOptionOptionalData_safe_iff endOption (by decide)).mpr fun d hd => ?_,
    by decide +kernel⟩
  obtain rfl : d = 0 := by
    have hmore : d + 2 < 4 := hd.more
    have heven := hd.description.even
    omega
  have hend : EndEntire endOption 8 0 := by decide
  refine pathInside_of_ends (by decide) fun i j hreach hpass => ?_
  rcases hreach.cases_head with rfl | ⟨k, hk, -⟩
  · exact absurd hend hpass.more
  · exact absurd hend hk.more

end Shim.LoadOptions
