import Shim.Loader.Protocol

/-!
# Where a cached digest comes from

The section cache is an array that `cache_section` grows and `flush_cached_sections` overwrites and
cuts. `CacheCall` is a call of one of the two, with what fails in it, and `cacheAfter` the cache
after a sequence of calls from the start on.
-/

namespace Shim.Loader

open Lib Pe List

inductive CacheCall where
  | cacheSection (calls : DigestCalls) (handle : ℕ) (name data : List UInt8)
  | flushCachedSections (handle : ℕ)

section

variable (sha256 : List UInt8 → List UInt8)

def CacheCall.apply (cache : SectionCache) : CacheCall → SectionCache
  | .cacheSection calls handle name data =>
    (Pe.cacheSection calls.array (calls.env sha256) handle name data cache).2
  | .flushCachedSections handle => Pe.flushCachedSections handle cache

def cacheAfter (history : List CacheCall) : SectionCache :=
  history.foldl (CacheCall.apply sha256) .empty

/-- The entry stems from a call that succeeded, and its handle has not been flushed since. -/
def Recorded (history : List CacheCall) (e : CacheEntry) : Prop :=
  ∃ before calls name data since,
    history = before ++ .cacheSection calls e.parentImageHandle name data :: since ∧
      (cacheSection calls.array (calls.env sha256) e.parentImageHandle name data
        (cacheAfter sha256 before)).1 = .success ∧
      CacheCall.flushCachedSections e.parentImageHandle ∉ since ∧
      data.length = e.size ∧ sha256 data = e.digest

variable {sha256} {history : List CacheCall} {call : CacheCall} {e : CacheEntry}

lemma cacheAfter_snoc :
    cacheAfter sha256 (history ++ [call]) = call.apply sha256 (cacheAfter sha256 history) := by
  unfold cacheAfter
  rw [foldl_append, foldl_cons, foldl_nil]

lemma Recorded.snoc (h : Recorded sha256 history e)
    (hcall : call ≠ .flushCachedSections e.parentImageHandle) :
    Recorded sha256 (history ++ [call]) e := by
  obtain ⟨before, calls, name, data, since, rfl, hsuccess, hsince, hlength, hdigest⟩ := h
  refine ⟨before, calls, name, data, since ++ [call], ?_, hsuccess, ?_, hlength, hdigest⟩
  · rw [append_assoc, cons_append]
  · rw [mem_append, mem_singleton, not_or]
    exact ⟨hsince, hcall.symm⟩

/-- What a call leaves in the cache was there before and is not flushed by it, or is what the call
has cached. -/
theorem recorded_step (h : ∀ e ∈ (cacheAfter sha256 history).list, Recorded sha256 history e) :
    ∀ e ∈ (cacheAfter sha256 (history ++ [call])).list, Recorded sha256 (history ++ [call]) e := by
  intro e he
  rw [cacheAfter_snoc] at he
  cases call with
  | cacheSection calls handle name data =>
    have hother : ∀ k, CacheCall.cacheSection calls handle name data ≠ .flushCachedSections k := by
      intro k hk
      cases hk
    by_cases hsuccess : (cacheSection calls.array (calls.env sha256) handle name data
        (cacheAfter sha256 history)).1 = .success
    · rw [CacheCall.apply, cacheSection_of_success hsuccess, mem_append,
        mem_singleton] at he
      rcases he with hold | rfl
      · exact (h e hold).snoc (hother _)
      · exact ⟨history, calls, name, data, [], rfl, hsuccess, not_mem_nil, rfl, rfl⟩
    · rw [CacheCall.apply, cacheSection_of_failure hsuccess] at he
      exact (h e he).snoc (hother _)
  | flushCachedSections handle =>
    have hkept := flushCachedSections_not_mem _ handle e he
    have hold := flushCachedSections_subset _ handle e he
    refine (h e hold).snoc ?_
    intro hflush
    exact hkept (CacheCall.flushCachedSections.inj hflush).symm

lemma cacheAfter_recorded (history : List CacheCall) :
    ∀ e ∈ (cacheAfter sha256 history).list, Recorded sha256 history e := by
  induction history using List.reverseRecOn with
  | nil =>
    intro e he
    cases he
  | append_singleton history call ih => exact recorded_step ih

/-- A buffer that is validated has the size and the digest of a range that was cached for the handle
by a call that succeeded, after the last flush of the handle. -/
theorem validateCachedSection_recorded {digests : ℕ → DigestCalls} {handle : ℕ} {data : List UInt8}
    (h : validateCachedSection (fun i => (digests i).env sha256) handle data
      (cacheAfter sha256 history) = .success) :
    ∃ before calls name cached since,
      history = before ++ .cacheSection calls handle name cached :: since ∧
        (cacheSection calls.array (calls.env sha256) handle name cached
          (cacheAfter sha256 before)).1 = .success ∧
        CacheCall.flushCachedSections handle ∉ since ∧
        cached.length = data.length ∧ sha256 cached = sha256 data := by
  obtain ⟨e, he, rfl, hsize, i, hdigest⟩ := validateCachedSection_success h
  obtain ⟨before, calls, name, cached, since, hhistory, hsuccess, hsince, hlength, hsum⟩ :=
    cacheAfter_recorded history e he
  exact ⟨before, calls, name, cached, since, hhistory, hsuccess, hsince, hlength.trans hsize,
    hsum.trans hdigest⟩

end

theorem validateCachedSection_recorded_first :
    let history : List CacheCall :=
      [.cacheSection .working 1 [] [1, 2], .cacheSection .working 2 [] [3, 4],
        .cacheSection ⟨true, false, true, true, true⟩ 1 [] [5], .flushCachedSections 2]
    let sha256 := workingSha256.sha256
    validateCachedSection (fun _ => DigestCalls.working.env sha256) 1 [1, 2]
        (cacheAfter sha256 history) = .success ∧
      ∃ before calls name cached since,
        history = before ++ .cacheSection calls 1 name cached :: since ∧
          (cacheSection calls.array (calls.env sha256) 1 name cached
            (cacheAfter sha256 before)).1 = .success ∧
          CacheCall.flushCachedSections 1 ∉ since ∧
          cached.length = 2 ∧ sha256 cached = sha256 [1, 2] := by
  intro history sha256
  have hvalid : validateCachedSection (fun _ => DigestCalls.working.env sha256) 1 [1, 2]
      (cacheAfter sha256 history) = .success := by decide
  exact ⟨hvalid, validateCachedSection_recorded hvalid⟩

end Shim.Loader
