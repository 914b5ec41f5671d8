import Shim.Lib.Mem

/-!
# Strings in memory

The string functions of C look for the first byte of some kind, a `NUL` above all. `Mem.scan` is that
search. With a limit it stops at the first byte of the kind, or at the limit, and nowhere else
(`scan_spec`, `scan_unique`).
-/

namespace Shim.Lib

open List

namespace Mem

/-- How many of the `n` bytes at `pos` come before the first one that satisfies `p`. -/
def scan (m : Mem) (p : UInt8 → Bool) (pos : ℕ) : ℕ → ℕ
  | 0 => 0
  | n + 1 => if p (m pos) then 0 else scan m p (pos + 1) n + 1

variable {m : Mem} {p : UInt8 → Bool} {pos n k : ℕ}

lemma scan_le (m : Mem) (p : UInt8 → Bool) (pos n : ℕ) : m.scan p pos n ≤ n := by
  induction n generalizing pos with
  | zero => simp [scan]
  | succ n ih =>
    rw [scan]
    split_ifs
    · omega
    · have := ih (pos + 1)
      omega

/-- The bytes passed are not of the kind, and the search stopped for a reason. -/
theorem scan_spec (m : Mem) (p : UInt8 → Bool) (pos n : ℕ) :
    (∀ j < m.scan p pos n, p (m (pos + j)) = false) ∧
      (m.scan p pos n = n ∨ p (m (pos + m.scan p pos n)) = true) := by
  induction n generalizing pos with
  | zero => simp [scan]
  | succ n ih =>
    obtain ⟨hbefore, hstop⟩ := ih (pos + 1)
    rw [scan]
    split_ifs with hp
    · exact ⟨fun j hj => absurd hj (Nat.not_lt_zero j), .inr hp⟩
    refine ⟨fun j hj => ?_, ?_⟩
    · cases j with
      | zero => simpa using hp
      | succ j =>
        have := hbefore j (by omega)
        rwa [Nat.add_right_comm, Nat.add_assoc] at this
    · rcases hstop with h | h
      · exact .inl (by omega)
      · rw [Nat.add_right_comm, Nat.add_assoc] at h
        exact .inr h

lemma scan_or (m : Mem) (p q : UInt8 → Bool) (pos n : ℕ) :
    m.scan (fun b => p b || q b) pos n = min (m.scan p pos n) (m.scan q pos n) := by
  induction n generalizing pos with
  | zero => rfl
  | succ n ih =>
    unfold scan
    cases hp : p (m pos) <;> cases hq : q (m pos) <;> simp [ih]

/-- Only the number of bytes before the first one of the kind fits `scan_spec`. -/
theorem scan_unique (hk : k ≤ n) (hbefore : ∀ j < k, p (m (pos + j)) = false)
    (hstop : k = n ∨ p (m (pos + k)) = true) : m.scan p pos n = k := by
  obtain ⟨hbefore', hstop'⟩ := scan_spec m p pos n
  have hle := scan_le m p pos n
  rcases lt_trichotomy (m.scan p pos n) k with hlt | heq | hgt
  · rcases hstop' with h | h
    · omega
    · rw [hbefore _ hlt] at h
      contradiction
  · exact heq
  · rcases hstop with h | h
    · omega
    · rw [hbefore' _ hgt] at h
      contradiction

lemma scan_eq_zero (h : p (m pos) = true) : m.scan p pos n = 0 :=
  scan_unique (Nat.zero_le n) (fun _ hj => absurd hj (Nat.not_lt_zero _)) (.inr (by simpa using h))

/-- A search whose first byte is not of the kind moves on. -/
theorem scan_pos (h : p (m pos) = false) (hn : 0 < n) : 0 < m.scan p pos n := by
  obtain ⟨n, rfl⟩ : ∃ k, n = k + 1 := ⟨n - 1, by omega⟩
  rw [scan, if_neg (by simp [h])]
  omega

lemma scan_le_of (hp : p (m (pos + k)) = true) : m.scan p pos n ≤ k := by
  by_contra hgt
  have := (scan_spec m p pos n).1 k (by omega)
  rw [hp] at this
  contradiction

/-! ## Strings -/

/-- The number of bytes before the first `NUL`.
The memory is as large as the address space, so `2 ^ 64` bytes is a search without a limit. -/
def strlen (m : Mem) (pos : ℕ) : ℕ := m.scan (· == 0) pos (2 ^ 64)

/-- The string at `pos`, without its `NUL`. -/
def cstr (m : Mem) (pos : ℕ) : List UInt8 := m.slice pos (m.strlen pos)

lemma strlen_eq (hk : k < 2 ^ 64) (hbefore : ∀ j < k, m (pos + j) ≠ 0) (hnul : m (pos + k) = 0) :
    m.strlen pos = k :=
  scan_unique (le_of_lt hk) (fun j hj => by simpa using hbefore j hj) (.inr (by simpa using hnul))

lemma store_nul (h : m pos = 0) : m.store pos 1 0 = m := by
  funext i
  unfold store
  split_ifs with hi
  · obtain rfl : i = pos := by omega
    simp [h]
  · rfl

lemma store_one_of_ne {i v : ℕ} (h : i ≠ pos) : m.store pos 1 v i = m i := if_neg (by omega)

lemma store_one_nul (m : Mem) (pos : ℕ) : m.store pos 1 0 pos = 0 := by
  simp [store]

/-- The string `s` stands at `pos`, with a `NUL` behind it. -/
structure StrAt (m : Mem) (pos : ℕ) (s : List UInt8) : Prop where
  bytes : m.slice pos s.length = s
  nul : m (pos + s.length) = 0
  text : ∀ b ∈ s, b ≠ 0

namespace StrAt

variable {s a r : List UInt8}

lemma byte (h : m.StrAt pos s) (hk : k < s.length) : m (pos + k) = s[k] := by
  rw [← getElem_slice m pos s.length k (by simpa using hk)]
  simp only [h.bytes]

lemma head {b : UInt8} (h : m.StrAt pos (b :: r)) : m pos = b := h.byte (Nat.succ_pos _)

lemma strlen_eq (h : m.StrAt pos s) (hlen : s.length < 2 ^ 64) : m.strlen pos = s.length := by
  apply Mem.strlen_eq hlen _ h.nul
  intro j hj
  rw [h.byte hj]
  exact h.text _ (getElem_mem hj)

lemma cstr_eq (h : m.StrAt pos s) (hlen : s.length < 2 ^ 64) : m.cstr pos = s := by
  unfold cstr
  rw [h.strlen_eq hlen, h.bytes]

/-- The string is there in every memory with the same bytes. -/
theorem of_eq {m' : Mem} (h : m.StrAt pos s)
    (heq : ∀ i, pos ≤ i → i ≤ pos + s.length → m' i = m i) : m'.StrAt pos s where
  bytes := by
    rw [← h.bytes, length_slice]
    exact slice_eq_iff.mpr fun i hi => heq _ (by omega) (by omega)
  nul := by rw [heq _ (by omega) le_rfl, h.nul]
  text := h.text

lemma drop (h : m.StrAt pos (a ++ r)) : m.StrAt (pos + a.length) r := by
  have hbytes := h.bytes
  rw [length_append, slice_add] at hbytes
  refine ⟨(append_inj hbytes (by simp)).2, ?_, fun b hb => h.text b (by simp [hb])⟩
  rw [Nat.add_assoc, ← length_append, h.nul]

lemma cut (h : m.StrAt pos (a ++ r)) : (m.store (pos + a.length) 1 0).StrAt pos a := by
  have hbytes := h.bytes
  rw [length_append, slice_add] at hbytes
  refine ⟨?_, store_one_nul _ _, fun b hb => h.text b (by simp [hb])⟩
  rw [slice_store_of_disjoint _ _ (by omega)]
  exact (append_inj hbytes (by simp)).1

/-- A search through a string, or to its end, stops behind the bytes that are not of the kind. -/
theorem scan_eq (h : m.StrAt pos (a ++ r)) (ha : ∀ b ∈ a, p b = false)
    (hstop : p (m (pos + a.length)) = true) (hn : a.length ≤ n) : m.scan p pos n = a.length := by
  apply scan_unique hn _ (.inr hstop)
  intro j hj
  rw [h.byte (by rw [length_append]; omega), getElem_append_left hj]
  exact ha _ (getElem_mem hj)

end StrAt

/-- In front of a `NUL` stands a string. -/
theorem exists_strAt (m : Mem) (pos n : ℕ) (hnul : m (pos + n) = 0) :
    ∃ s, m.StrAt pos s ∧ s.length ≤ n := by
  obtain ⟨hbefore, hstop⟩ := m.scan_spec (· == 0) pos n
  have hle := m.scan_le (· == 0) pos n
  generalize m.scan (· == 0) pos n = k at *
  have hzero : m (pos + k) = 0 := by
    rcases hstop with rfl | hstop
    · exact hnul
    · simpa using hstop
  refine ⟨m.slice pos k, ⟨by simp, by simpa using hzero, fun b hb => ?_⟩, by simpa using hle⟩
  obtain ⟨i, hi, rfl⟩ := mem_map.mp hb
  simpa using hbefore i (mem_range.mp hi)

/-- The sign of the first difference among the `len` bytes at `p` of `m` and at `q` of `n`, up to a
`NUL`. -/
def strncmp (m : Mem) (p : ℕ) (n : Mem) (q : ℕ) : ℕ → ℤ
  | 0 => 0
  | len + 1 =>
    if m p ≠ 0 ∧ m p = n q then strncmp m (p + 1) n (q + 1) len
    else (m p).toNat - (n q).toNat

lemma strncmp_eq_zero {m n : Mem} {p q len : ℕ} (h : m.slice p len = n.slice q len) :
    m.strncmp p n q len = 0 := by
  induction len generalizing p q with
  | zero => rfl
  | succ len ih =>
    rw [slice_succ, slice_succ, List.cons.injEq] at h
    rw [strncmp]
    split_ifs
    · exact ih h.2
    · rw [h.1]
      omega

/-- The memory that holds `bytes` from its start and zeroes behind them. -/
def ofBytes (bytes : List UInt8) : Mem := fun i => bytes.getD i 0

lemma ofBytes_of_lt {bytes : List UInt8} (h : k < bytes.length) : ofBytes bytes k = bytes[k] := by
  simp [ofBytes, h]

lemma ofBytes_of_le {bytes : List UInt8} (h : bytes.length ≤ k) : ofBytes bytes k = 0 := by
  simp [ofBytes, h]

lemma slice_ofBytes (a b c : List UInt8) :
    (ofBytes (a ++ b ++ c)).slice a.length b.length = b := by
  apply ext_getElem (length_slice _ _ _)
  intro i h₁ h₂
  have hlt : a.length + i < (a ++ b ++ c).length := by
    simp only [length_append]
    omega
  rw [getElem_slice, ofBytes_of_lt hlt, getElem_append_left (by simp; omega),
    getElem_append_right (by omega)]
  simp

lemma slice_ofBytes_of_le {l : List UInt8} {off len : ℕ} (h : off + len ≤ l.length) :
    (ofBytes l).slice off len = (l.drop off).take len := by
  apply ext_getElem
  · simp
    omega
  · intro i hi hi'
    rw [length_slice] at hi
    rw [getElem_slice, ofBytes_of_lt (by omega)]
    simp

lemma slice_ofBytes_self (bytes : List UInt8) : (ofBytes bytes).slice 0 bytes.length = bytes := by
  have := slice_ofBytes [] bytes []
  rwa [nil_append, append_nil] at this

lemma strlen_ofBytes {bytes : List UInt8} (hnul : ∀ b ∈ bytes, b ≠ 0)
    (hlen : bytes.length < 2 ^ 64) : (ofBytes bytes).strlen 0 = bytes.length := by
  apply strlen_eq hlen
  · intro j hj
    rw [Nat.zero_add, ofBytes_of_lt hj]
    exact hnul _ (getElem_mem hj)
  · rw [Nat.zero_add, ofBytes_of_le le_rfl]

end Mem

def ofText (s : String) : List UInt8 := s.toList.map fun c => UInt8.ofNat c.toNat

end Shim.Lib
