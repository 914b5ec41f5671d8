import Shim.Efi
import Shim.Lib.Check

/-!
# The cache of section digests

The digests of the sections of an image are kept together with its handle (`cache_section`), so that a
buffer that is one of these sections can be started without a signature. When the image goes away, its
entries are removed (`flush_cached_sections`), by copying inside the array.
-/

namespace Shim.Pe

open Lib List EfiStatus

structure CacheEntry where
  parentImageHandle : ℕ
  sectionName : List UInt8
  size : ℕ
  digest : List UInt8
  deriving DecidableEq

def CacheEntry.zero : CacheEntry := ⟨0, List.replicate 9 0, 0, List.replicate 32 0⟩

/-- `section_cache` and `num_section_cache_entries`. What the array holds from the count on is not
part of the cache. -/
structure SectionCache where
  entries : ℕ → CacheEntry
  num : ℕ

def SectionCache.list (c : SectionCache) : List CacheEntry := (List.range c.num).map c.entries

def SectionCache.empty : SectionCache := ⟨fun _ => .zero, 0⟩

structure Sha256Env where
  alloc : Bool
  init : Bool
  update : Bool
  final : Bool
  sha256 : List UInt8 → List UInt8

def doSha256Sum (env : Sha256Env) (data : List UInt8) : Except EfiStatus (List UInt8) := do
  reject (env.alloc = false) outOfResources
  reject (env.init = false) outOfResources
  reject (env.update = false) outOfResources
  reject (env.final = false) outOfResources
  return env.sha256 data

def cacheSection (alloc : Bool) (env : Sha256Env) (handle : ℕ) (name data : List UInt8)
    (c : SectionCache) : EfiStatus × SectionCache :=
  if alloc = false then (.outOfResources, c)
  else
    -- the new array is zeroed, and the old entries are copied to it
    let fresh := fun j => if j < c.num then c.entries j else .zero
    match doSha256Sum env data with
    | .error status => (status, ⟨fresh, c.num⟩)
    | .ok digest =>
      (.success,
        ⟨Function.update fresh c.num ⟨handle, name.take 8 ++ [0], data.length, digest⟩, c.num + 1⟩)

/-- The loop of `validate_cached_section`, with `n` entries to go from `i` on. Each entry of the
size and the handle costs a new digest. -/
def validateFrom (env : ℕ → Sha256Env) (handle : ℕ) (data : List UInt8) (c : SectionCache) :
    ℕ → ℕ → EfiStatus
  | 0, _ => .notFound
  | n + 1, i =>
    if (c.entries i).size ≠ data.length then validateFrom env handle data c n (i + 1)
    else if (c.entries i).parentImageHandle ≠ handle then validateFrom env handle data c n (i + 1)
    else
      match doSha256Sum (env i) data with
      | .error status => status
      | .ok digest =>
        if digest ≠ (c.entries i).digest then validateFrom env handle data c n (i + 1)
        else .success

def validateCachedSection (env : ℕ → Sha256Env) (handle : ℕ) (data : List UInt8)
    (c : SectionCache) : EfiStatus :=
  validateFrom env handle data c c.num 0

/-- `CopyMem` of `len` entries from index `src` to index `dst` of the same array; the ranges may
overlap. -/
def copyEntries (e : ℕ → CacheEntry) (dst src len : ℕ) : ℕ → CacheEntry := fun j =>
  if dst ≤ j ∧ j < dst + len then e (src + (j - dst)) else e j

def zeroEntries (e : ℕ → CacheEntry) (dst len : ℕ) : ℕ → CacheEntry := fun j =>
  if dst ≤ j ∧ j < dst + len then .zero else e j

def flushStep (handle num : ℕ) (s : (ℕ → CacheEntry) × ℕ) (i : ℕ) : (ℕ → CacheEntry) × ℕ :=
  if (s.1 i).parentImageHandle ≠ handle then s
  else (copyEntries s.1 (i + 1) i (num - i - 1), s.2 + 1)

def flushCachedSections (handle : ℕ) (c : SectionCache) : SectionCache :=
  let s := (List.range c.num).foldl (flushStep handle c.num) (c.entries, 0)
  ⟨zeroEntries s.1 (c.num - s.2) s.2, c.num - s.2⟩

/-! ## Adding and finding -/

section

variable {alloc : Bool} {env : Sha256Env} {handle : ℕ} {name data : List UInt8} {c : SectionCache}

def Sha256Env.works (env : Sha256Env) : Bool := env.alloc && env.init && env.update && env.final

lemma doSha256Sum_eq (env : Sha256Env) (data : List UInt8) : doSha256Sum env data =
      if env.works then .ok (env.sha256 data) else .error .outOfResources := by
  obtain ⟨alloc, init, update, final, sha256⟩ := env
  cases alloc <;> cases init <;> cases update <;> cases final <;> rfl

lemma cacheSection_eq (alloc : Bool) (env : Sha256Env) (handle : ℕ) (name data : List UInt8)
    (c : SectionCache) :
    (cacheSection alloc env handle name data c).1 =
      if alloc && env.works then .success else .outOfResources := by
  unfold cacheSection
  rw [doSha256Sum_eq]
  cases alloc <;> cases env.works <;> rfl

lemma list_fresh (n : ℕ) (e z : ℕ → CacheEntry) :
    (List.range n).map (fun j => if j < n then e j else z j) = (List.range n).map e := by
  apply map_congr_left
  intro j hj
  exact if_pos (mem_range.mp hj)

lemma cacheSection_of_success (h : (cacheSection alloc env handle name data c).1 = .success) :
    (cacheSection alloc env handle name data c).2.list =
      c.list ++ [⟨handle, name.take 8 ++ [0], data.length, env.sha256 data⟩] := by
  have hworks : (alloc && env.works) = true := by
    by_contra hfails
    rw [cacheSection_eq, if_neg hfails] at h
    cases h
  obtain ⟨rfl, hsum⟩ := Bool.and_eq_true_iff.mp hworks
  unfold cacheSection SectionCache.list
  rw [doSha256Sum_eq, if_pos hsum, if_neg (by decide)]
  dsimp only
  rw [range_succ, map_append, map_singleton, Function.update_self,
    ← list_fresh c.num c.entries fun _ => .zero]
  congr 1
  apply map_congr_left
  intro j hj
  exact Function.update_of_ne (mem_range.mp hj).ne _ _

lemma cacheSection_of_failure (h : (cacheSection alloc env handle name data c).1 ≠ .success) :
    (cacheSection alloc env handle name data c).2.list = c.list := by
  have hfails : ¬ (alloc && env.works) = true := by
    intro hworks
    exact h (by rw [cacheSection_eq, if_pos hworks])
  unfold cacheSection
  rw [doSha256Sum_eq]
  by_cases halloc : alloc = false
  · rw [if_pos halloc]
  have hsum : ¬ env.works = true := by
    intro hworks
    exact hfails (by simpa [hworks] using halloc)
  rw [if_neg halloc, if_neg hsum]
  exact list_fresh c.num c.entries fun _ => .zero

lemma validateFrom_success {env : ℕ → Sha256Env} {n i : ℕ}
    (h : validateFrom env handle data c n i = .success) :
    ∃ j, i ≤ j ∧ j < i + n ∧ (c.entries j).parentImageHandle = handle ∧
      (c.entries j).size = data.length ∧ (c.entries j).digest = (env j).sha256 data := by
  induction n generalizing i with
  | zero => cases h
  | succ n ih =>
    -- the entry is the one, or the loop goes on and finds one further on
    have hcases : ((c.entries i).parentImageHandle = handle ∧ (c.entries i).size = data.length ∧
        (c.entries i).digest = (env i).sha256 data) ∨
        validateFrom env handle data c n (i + 1) = .success := by
      rw [validateFrom, doSha256Sum_eq] at h
      split_ifs at h with hsize hhandle hworks
      · exact .inr h
      · exact .inr h
      · dsimp only at h
        split_ifs at h with hdigest
        · exact .inr h
        · exact .inl ⟨not_not.mp hhandle, not_not.mp hsize, (not_not.mp hdigest).symm⟩
    rcases hcases with hentry | hnext
    · exact ⟨i, le_refl i, by omega, hentry⟩
    · obtain ⟨j, hij, hj, hentry⟩ := ih hnext
      exact ⟨j, by omega, by omega, hentry⟩

lemma validateCachedSection_success {env : ℕ → Sha256Env}
    (h : validateCachedSection env handle data c = .success) :
    ∃ e ∈ c.list, e.parentImageHandle = handle ∧ e.size = data.length ∧
      ∃ j, e.digest = (env j).sha256 data := by
  obtain ⟨j, -, hj, hhandle, hsize, hdigest⟩ := validateFrom_success h
  refine ⟨c.entries j, mem_map.mpr ⟨j, mem_range.mpr (by omega), rfl⟩, hhandle, hsize, j,
    hdigest⟩

end

/-! ## What a flush keeps -/

section

variable {e : ℕ → CacheEntry} {handle num : ℕ}

lemma copyEntries_of_lt {dst src len j : ℕ} (h : j < dst) : copyEntries e dst src len j = e j :=
  if_neg fun hj => absurd hj.1 (Nat.not_le.mpr h)

lemma copyEntries_self {dst src len : ℕ} (h : 0 < len) :
    copyEntries e dst src len dst = e src := by
  unfold copyEntries
  rw [if_pos ⟨le_refl dst, Nat.lt_add_of_pos_right h⟩, Nat.sub_self, Nat.add_zero]

/-- Before round `k`: there is no entry of the handle so far, or `m` is the first one and the next
one is of the handle again. -/
def FlushInv (e : ℕ → CacheEntry) (handle num k : ℕ) (s : (ℕ → CacheEntry) × ℕ) : Prop :=
  ((∀ i < k, (e i).parentImageHandle ≠ handle) ∧ s = (e, 0)) ∨
    ∃ m < k, (∀ i < m, (e i).parentImageHandle ≠ handle) ∧ (e m).parentImageHandle = handle ∧
      (∀ j ≤ m, s.1 j = e j) ∧ (k < num → (s.1 k).parentImageHandle = handle) ∧ s.2 = k - m

lemma flushStep_match (num : ℕ) {s : (ℕ → CacheEntry) × ℕ} {k : ℕ}
    (hk : (s.1 k).parentImageHandle = handle) :
    (∀ j ≤ k, (flushStep handle num s k).1 j = s.1 j) ∧
      (k + 1 < num → ((flushStep handle num s k).1 (k + 1)).parentImageHandle = handle) ∧
      (flushStep handle num s k).2 = s.2 + 1 := by
  unfold flushStep
  rw [if_neg (not_not.mpr hk)]
  refine ⟨?_, ?_, rfl⟩
  · intro j hj
    exact copyEntries_of_lt (Nat.lt_succ_of_le hj)
  · intro hnum
    show (copyEntries s.1 (k + 1) k (num - k - 1) (k + 1)).parentImageHandle = handle
    rw [copyEntries_self (by omega)]
    exact hk

lemma FlushInv.step {k : ℕ} {s : (ℕ → CacheEntry) × ℕ} (hk : k < num)
    (h : FlushInv e handle num k s) : FlushInv e handle num (k + 1) (flushStep handle num s k) := by
  rcases h with ⟨hnone, rfl⟩ | ⟨m, hm, hfirst, hmatch, hkept, hnext, hred⟩
  · by_cases hhandle : (e k).parentImageHandle = handle
    · obtain ⟨hkept, hnext, hred⟩ := flushStep_match num (s := (e, 0)) hhandle
      refine .inr ⟨k, Nat.lt_succ_self k, hnone, hhandle, hkept, hnext, ?_⟩
      rw [hred]
      omega
    · refine .inl ⟨?_, if_pos hhandle⟩
      intro i hi
      rcases Nat.lt_succ_iff_lt_or_eq.mp hi with hi | rfl
      · exact hnone i hi
      · exact hhandle
  · obtain ⟨hkept', hnext', hred'⟩ := flushStep_match num (hnext hk)
    refine .inr ⟨m, Nat.lt_succ_of_lt hm, hfirst, hmatch, ?_, hnext', ?_⟩
    · intro j hj
      rw [hkept' j (hj.trans hm.le)]
      exact hkept j hj
    · rw [hred', hred]
      omega

lemma flushInv_loop (e : ℕ → CacheEntry) (handle : ℕ) {k : ℕ} (hk : k ≤ num) :
    FlushInv e handle num k ((List.range k).foldl (flushStep handle num) (e, 0)) := by
  induction k with
  | zero => exact .inl ⟨fun i hi => absurd hi (Nat.not_lt_zero i), rfl⟩
  | succ k ih =>
    rw [range_succ, foldl_append]
    exact (ih (Nat.le_of_succ_le hk)).step hk

end

lemma flushCachedSections_spec (c : SectionCache) (handle : ℕ) :
    ∃ m ≤ c.num, (∀ i < m, (c.entries i).parentImageHandle ≠ handle) ∧
      (m < c.num → (c.entries m).parentImageHandle = handle) ∧
      (flushCachedSections handle c).list = (List.range m).map c.entries := by
  unfold flushCachedSections SectionCache.list
  dsimp only
  have hzero : ∀ (e : ℕ → CacheEntry) (m r : ℕ), (List.range m).map (zeroEntries e m r) =
      (List.range m).map e := by
    intro e m r
    apply map_congr_left
    intro j hj
    exact if_neg fun h => absurd h.1 (Nat.not_le.mpr (mem_range.mp hj))
  rcases flushInv_loop c.entries handle (le_refl c.num) with
    ⟨hnone, hs⟩ | ⟨m, hm, hfirst, hmatch, hkept, -, hred⟩
  · refine ⟨c.num, le_refl _, hnone, fun h => absurd h (lt_irrefl _), ?_⟩
    rw [hs]
    exact hzero _ _ _
  · refine ⟨m, hm.le, hfirst, fun _ => hmatch, ?_⟩
    rw [hred, Nat.sub_sub_self hm.le, hzero]
    apply map_congr_left
    intro j hj
    exact hkept j (mem_range.mp hj).le

lemma flushCachedSections_not_mem (c : SectionCache) (handle : ℕ) :
    ∀ x ∈ (flushCachedSections handle c).list, x.parentImageHandle ≠ handle := by
  obtain ⟨m, -, hfirst, -, hlist⟩ := flushCachedSections_spec c handle
  intro x hx
  rw [hlist] at hx
  obtain ⟨i, hi, rfl⟩ := mem_map.mp hx
  exact hfirst i (mem_range.mp hi)

lemma flushCachedSections_subset (c : SectionCache) (handle : ℕ) :
    ∀ x ∈ (flushCachedSections handle c).list, x ∈ c.list := by
  obtain ⟨m, hm, -, -, hlist⟩ := flushCachedSections_spec c handle
  intro x hx
  rw [hlist] at hx
  obtain ⟨i, hi, rfl⟩ := mem_map.mp hx
  exact mem_map_of_mem (mem_range.mpr ((mem_range.mp hi).trans_le hm))

/-- A flush removes the entries of the handle and nothing else iff there is no other entry behind one
of them. -/
theorem flushCachedSections_filter_iff (c : SectionCache) (handle : ℕ) :
    (flushCachedSections handle c).list = c.list.filter (fun x => x.parentImageHandle ≠ handle) ↔
      ∀ i j, i < j → j < c.num → (c.entries i).parentImageHandle = handle →
        (c.entries j).parentImageHandle = handle := by
  obtain ⟨m, hm, hfirst, hmatch, hlist⟩ := flushCachedSections_spec c handle
  obtain ⟨r, hr⟩ := Nat.exists_eq_add_of_le hm
  have hkeep : ((List.range m).map c.entries).filter (fun x => x.parentImageHandle ≠ handle) =
      (List.range m).map c.entries := by
    apply filter_eq_self.mpr
    intro x hx
    obtain ⟨i, hi, rfl⟩ := mem_map.mp hx
    exact decide_eq_true (hfirst i (mem_range.mp hi))
  rw [hlist, SectionCache.list, hr, range_add, map_append, filter_append, hkeep,
    self_eq_append_right, filter_eq_nil_iff]
  constructor
  · intro hrest i j hij hj hi
    have hmi : m ≤ i := by
      by_contra hlt
      exact hfirst i (Nat.lt_of_not_le hlt) hi
    have hmem : c.entries j ∈ (((List.range r).map fun x => m + x).map c.entries) := by
      refine mem_map.mpr ⟨j, mem_map.mpr ⟨j - m, mem_range.mpr ?_, ?_⟩, rfl⟩
      · omega
      · omega
    simpa using hrest _ hmem
  · intro hbehind x hx
    obtain ⟨j, hj, rfl⟩ := mem_map.mp hx
    obtain ⟨d, hd, rfl⟩ := mem_map.mp hj
    rw [mem_range] at hd
    have hfirstMatch := hmatch (by omega)
    rcases Nat.eq_zero_or_pos d with rfl | hpos
    · simpa using hfirstMatch
    · simpa using hbehind m (m + d) (Nat.lt_add_of_pos_right hpos) (by omega) hfirstMatch

def workingSha256 : Sha256Env := ⟨true, true, true, true, fun data => data.take 32⟩

def twoHandles : SectionCache :=
  (cacheSection true workingSha256 2 [0x2e, 0x74, 0x65, 0x78, 0x74, 0, 0, 0] [2]
    (cacheSection true workingSha256 1 [0x2e, 0x74, 0x65, 0x78, 0x74, 0, 0, 0] [1] .empty).2).2

/-- A flush of the first handle takes the entry of the second one with it. -/
theorem flushCachedSections_drops_other :
    twoHandles.list.map CacheEntry.parentImageHandle = [1, 2] ∧
      (flushCachedSections 1 twoHandles).list = [] ∧
      (twoHandles.list.filter fun x => x.parentImageHandle ≠ 1) ≠ [] := by
  decide

end Shim.Pe
