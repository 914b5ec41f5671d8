import Mathlib.Tactic
import Mathlib.Data.List.Basic

/-!
# Byte memories

A memory object is a total function from byte offsets to bytes. Offsets past its end stand for
whatever lies behind it; whether a read leaves the object is a question about the offsets.

* `Mem.load`, `Mem.slice`, `Mem.slots` — a little-endian number, the bytes of a range, and the same as
  entries of one size; `Mem.copy`, `Mem.fill`, `Mem.store` — the ways to write a range.
* `Mem.AgreeOn m n S` — two memories agree on a set of offsets.
-/

namespace Shim.Lib

open List

/-- The content of a memory object, by byte offset. -/
abbrev Mem := ℕ → UInt8

namespace Mem

/-- The little-endian number in the `w` bytes at `off`. -/
def load (m : Mem) (off : ℕ) : ℕ → ℕ
  | 0 => 0
  | w + 1 => (m off).toNat + 256 * load m (off + 1) w

/-- A 16-bit field. -/
def u16 (m : Mem) (off : ℕ) : ℕ := m.load off 2

/-- A 32-bit field. -/
def u32 (m : Mem) (off : ℕ) : ℕ := m.load off 4

/-- A 64-bit field. -/
def u64 (m : Mem) (off : ℕ) : ℕ := m.load off 8

section

variable (m : Mem) (off : ℕ)

lemma load_lt (off w : ℕ) : m.load off w < 256 ^ w := by
  induction w generalizing off with
  | zero => simp [load]
  | succ w ih =>
    have hb : (m off).toNat < 256 := (m off).toNat_lt
    have hr := ih (off + 1)
    rw [load, pow_succ]
    omega

lemma u16_lt : m.u16 off < 2 ^ 16 := by
  unfold u16
  simpa using m.load_lt off 2

lemma u32_lt : m.u32 off < 2 ^ 32 := by
  unfold u32
  simpa using m.load_lt off 4

lemma u64_lt : m.u64 off < 2 ^ 64 := by
  unfold u64
  simpa using m.load_lt off 8

lemma load_mod {k w : ℕ} (h : k ≤ w) : m.load off w % 256 ^ k = m.load off k := by
  induction k generalizing off w with
  | zero => simp [load, Nat.mod_one]
  | succ k ih =>
    obtain ⟨w, rfl⟩ : ∃ v, w = v + 1 := ⟨w - 1, by omega⟩
    have hb : (m off).toNat < 256 := (m off).toNat_lt
    have hrest : ((m off).toNat + 256 * m.load (off + 1) w) / 256 = m.load (off + 1) w := by omega
    rw [load, load, ← ih (off + 1) (by omega : k ≤ w), pow_succ, Nat.mul_comm (256 ^ k) 256,
      Nat.mod_mul, hrest]
    omega

end

/-- The `len` bytes at `off`, in order. -/
def slice (m : Mem) (off len : ℕ) : List UInt8 := (List.range len).map fun i => m (off + i)

@[simp] lemma length_slice (m : Mem) (off len : ℕ) : (m.slice off len).length = len := by
  simp [slice]

@[simp] lemma slice_zero (m : Mem) (off : ℕ) : m.slice off 0 = [] := rfl

lemma slice_add (m : Mem) (off a b : ℕ) :
    m.slice off (a + b) = m.slice off a ++ m.slice (off + a) b := by
  simp only [slice, range_add, map_append, map_map, Function.comp_def, Nat.add_assoc]

lemma slice_succ (m : Mem) (pos n : ℕ) : m.slice pos (n + 1) = m pos :: m.slice (pos + 1) n := by
  rw [Nat.add_comm n 1, slice_add]
  rfl

@[simp] lemma getElem_slice (m : Mem) (off len i : ℕ) (h : i < (m.slice off len).length) :
    (m.slice off len)[i] = m (off + i) := by
  simp [slice]

lemma slice_eq_iff {m n : Mem} {o p len : ℕ} :
    m.slice o len = n.slice p len ↔ ∀ i < len, m (o + i) = n (p + i) := by
  simp [slice]

/-- Two texts that start with the same range of two memories. -/
theorem slice_append_inj {m n : Mem} {o len : ℕ} {x y : List UInt8}
    (h : m.slice o len ++ x = n.slice o len ++ y) :
    (∀ i, o ≤ i → i < o + len → m i = n i) ∧ x = y := by
  obtain ⟨hslice, hrest⟩ := append_inj h (by simp)
  refine ⟨fun i hlo hhi => ?_, hrest⟩
  have := slice_eq_iff.mp hslice (i - o) (by omega)
  rwa [Nat.add_sub_cancel' hlo] at this

/-! ## Writing ranges -/

/-- Copy `len` bytes of `src` at `from'` over `dst` at `pos`. -/
def copy (dst : Mem) (pos : ℕ) (src : Mem) (from' len : ℕ) : Mem := fun i =>
  if pos ≤ i ∧ i < pos + len then src (from' + (i - pos)) else dst i

/-- Set `len` bytes at `pos` to `b`. -/
def fill (dst : Mem) (pos len : ℕ) (b : UInt8) : Mem := fun i =>
  if pos ≤ i ∧ i < pos + len then b else dst i

/-- Store the number `v`, little-endian, in the `w` bytes at `pos`; what does not fit is cut off. -/
def store (dst : Mem) (pos w v : ℕ) : Mem := fun i =>
  if pos ≤ i ∧ i < pos + w then UInt8.ofNat (v / 256 ^ (i - pos)) else dst i

/-- Write `bytes` at `pos`. -/
def write (dst : Mem) (pos : ℕ) (bytes : List UInt8) : Mem := fun i =>
  if pos ≤ i then bytes[i - pos]?.getD (dst i) else dst i

section

variable (dst : Mem)
include dst

section

variable (pos : ℕ) (src : Mem) (from' len : ℕ)

lemma copy_eq_write : dst.copy pos src from' len = dst.write pos (src.slice from' len) := by
  funext i
  unfold copy write
  by_cases hpos : pos ≤ i
  · by_cases hlt : i < pos + len
    · rw [if_pos ⟨hpos, hlt⟩, if_pos hpos, getElem?_eq_getElem (by rw [length_slice]; omega),
        getElem_slice]
      rfl
    · rw [if_neg (by omega), if_pos hpos, getElem?_eq_none (by rw [length_slice]; omega)]
      rfl
  · rw [if_neg (by omega), if_neg hpos]

lemma fill_eq_write (pos len : ℕ) (b : UInt8) :
    dst.fill pos len b = dst.write pos (List.replicate len b) := by
  funext i
  unfold fill write
  by_cases hpos : pos ≤ i
  · by_cases hlt : i < pos + len
    · rw [if_pos ⟨hpos, hlt⟩, if_pos hpos, getElem?_replicate_of_lt (by omega)]
      rfl
    · rw [if_neg (by omega), if_pos hpos, getElem?_eq_none (by rw [length_replicate]; omega)]
      rfl
  · rw [if_neg (by omega), if_neg hpos]

lemma write_write (a b : List UInt8) :
    (dst.write pos a).write (pos + a.length) b = dst.write pos (a ++ b) := by
  funext i
  unfold write
  by_cases hpos : pos ≤ i
  · rw [if_pos hpos, if_pos hpos]
    by_cases hlt : i - pos < a.length
    · rw [if_neg (by omega), getElem?_append_left hlt]
    · rw [if_pos (by omega), getElem?_append_right (by omega),
        getElem?_eq_none (Nat.le_of_not_lt hlt), Nat.sub_sub]
      rfl
  · rw [if_neg (by omega), if_neg hpos, if_neg hpos]

@[simp] lemma copy_zero (from' : ℕ) : dst.copy pos src from' 0 = dst := by
  funext i
  rw [copy, if_neg (by omega)]

@[simp] lemma fill_zero (b : UInt8) : dst.fill pos 0 b = dst := by
  funext i
  rw [fill, if_neg (by omega)]

lemma slice_copy_self : (dst.copy pos src from' len).slice pos len = src.slice from' len := by
  rw [slice_eq_iff]
  intro i hi
  rw [copy, if_pos (by omega), Nat.add_sub_cancel_left]

lemma slice_copy_of_disjoint {pos : ℕ} (from' : ℕ) {len o n : ℕ} (h : o + n ≤ pos ∨ pos + len ≤ o) :
    (dst.copy pos src from' len).slice o n = dst.slice o n := by
  rw [slice_eq_iff]
  intro i hi
  rw [copy, if_neg (by omega)]

end

end

lemma slice_store_self (dst dst' : Mem) (pos pos' w v : ℕ) :
    (dst.store pos w v).slice pos w = (dst'.store pos' w v).slice pos' w := by
  rw [slice_eq_iff]
  intro i hi
  rw [store, store, if_pos (by omega), if_pos (by omega), Nat.add_sub_cancel_left,
    Nat.add_sub_cancel_left]

lemma slice_store_of_disjoint (dst : Mem) {pos w : ℕ} (v : ℕ) {o n : ℕ}
    (h : o + n ≤ pos ∨ pos + w ≤ o) : (dst.store pos w v).slice o n = dst.slice o n := by
  rw [slice_eq_iff]
  intro i hi
  rw [store, if_neg (by omega)]

lemma load_of_slice_eq_store {m dst : Mem} {o pos w v : ℕ}
    (h : m.slice o w = (dst.store pos w v).slice pos w) : m.load o w = v % 256 ^ w := by
  rw [slice_store_self dst dst pos o, slice_eq_iff] at h
  induction w generalizing o v with
  | zero => rw [load, pow_zero, Nat.mod_one]
  | succ w ih =>
    have hfirst : m o = UInt8.ofNat v := by
      have := h 0 (Nat.succ_pos w)
      rwa [store, if_pos (by omega), Nat.add_zero, Nat.sub_self, pow_zero, Nat.div_one] at this
    have hrest : ∀ i < w, m (o + 1 + i) = (dst.store (o + 1) w (v / 256)) (o + 1 + i) := by
      intro i hi
      have hbyte := h (i + 1) (by omega)
      have hoff : o + 1 + i = o + (i + 1) := by omega
      rw [hoff, hbyte, store, store, if_pos (by omega), if_pos (by omega), Nat.add_sub_cancel_left,
        show o + (i + 1) - (o + 1) = i by omega, pow_succ', Nat.div_div_eq_div_mul]
    have hlow : (UInt8.ofNat v).toNat = v % 256 := UInt8.toNat_ofNat'
    rw [load, ih hrest, hfirst, hlow, pow_succ', Nat.mod_mul]

/-- The `n` entries of `size` bytes at `pos`. -/
def slots (m : Mem) (pos size n : ℕ) : List (List UInt8) :=
  (List.range n).map fun i => m.slice (pos + i * size) size

section

variable (m : Mem) (pos size n : ℕ)

@[simp] lemma length_slots : (m.slots pos size n).length = n := by
  simp [slots]

@[simp] lemma getElem_slots (pos size n i : ℕ) (h : i < (m.slots pos size n).length) :
    (m.slots pos size n)[i] = m.slice (pos + i * size) size := by
  simp [slots]

lemma slots_succ : m.slots pos size (n + 1) = m.slice pos size :: m.slots (pos + size) size n := by
  unfold slots
  rw [range_succ_eq_map, map_cons, map_map, Nat.zero_mul, Nat.add_zero]
  congr 1
  apply map_congr_left
  intro i _
  rw [Function.comp_apply, Nat.succ_mul, Nat.add_comm (i * size) size, Nat.add_assoc]

lemma take_slots (pos size : ℕ) {n k : ℕ} (h : k ≤ n) :
    (m.slots pos size n).take k = m.slots pos size k := by
  unfold slots
  rw [← map_take, take_range, Nat.min_eq_left h]

lemma drop_slots (pos size n k : ℕ) :
    (m.slots pos size n).drop k = m.slots (pos + k * size) size (n - k) := by
  refine ext_getElem (by simp) fun i hi hi' => ?_
  rw [getElem_drop, getElem_slots, getElem_slots, Nat.add_mul, Nat.add_assoc]

lemma flatten_slots : (m.slots pos size n).flatten = m.slice pos (n * size) := by
  induction n generalizing pos with
  | zero => simp [slots]
  | succ n ih =>
    rw [slots_succ, flatten_cons, ih, Nat.succ_mul, Nat.add_comm (n * size), slice_add]

end

lemma slots_of_slice_eq {m : Mem} {pos size : ℕ} {entries : List (List UInt8)}
    (hlen : ∀ e ∈ entries, e.length = size)
    (h : m.slice pos (entries.length * size) = entries.flatten) :
    m.slots pos size entries.length = entries := by
  induction entries generalizing pos with
  | nil => rfl
  | cons e entries ih =>
    obtain ⟨hhead, htail⟩ := forall_mem_cons.mp hlen
    rw [length_cons, Nat.succ_mul, Nat.add_comm, slice_add, flatten_cons] at h
    obtain ⟨hfirst, hrest⟩ := append_inj h (by rw [length_slice, hhead])
    rw [length_cons, slots_succ, hfirst, ih htail hrest]

/-- `m` and `n` hold the same bytes on `S`. -/
def AgreeOn (m n : Mem) (S : ℕ → Prop) : Prop := ∀ i, S i → m i = n i

variable {m n : Mem} {S : ℕ → Prop}

section

variable (h : AgreeOn m n S)
include h

lemma AgreeOn.load_eq {off w : ℕ} (hS : ∀ i, off ≤ i → i < off + w → S i) :
    m.load off w = n.load off w := by
  induction w generalizing off with
  | zero => rfl
  | succ w ih =>
    rw [load, load, h off (hS off le_rfl (by omega)), ih fun i h₁ h₂ => hS i (by omega) (by omega)]

lemma AgreeOn.slice_eq {off len : ℕ}
    (hS : ∀ i, off ≤ i → i < off + len → S i) : m.slice off len = n.slice off len :=
  slice_eq_iff.mpr fun i hi => h _ (hS _ (by omega) (by omega))

/-- Copying the same bytes into both keeps the agreement. -/
theorem AgreeOn.copy {s t : Mem} {pos from' len : ℕ}
    (hsrc : ∀ i < len, S (pos + i) → s (from' + i) = t (from' + i)) :
    AgreeOn (m.copy pos s from' len) (n.copy pos t from' len) S := by
  intro i hi
  unfold Mem.copy
  split_ifs with hr
  · apply hsrc (i - pos) (by omega)
    rwa [Nat.add_sub_cancel' hr.1]
  · exact h i hi

/-- Filling the same range in both keeps the agreement. -/
theorem AgreeOn.fill (pos len : ℕ) (b : UInt8) :
    AgreeOn (m.fill pos len b) (n.fill pos len b) S := by
  intro i hi
  unfold Mem.fill
  split_ifs
  · rfl
  · exact h i hi

/-- Adding the same number to a field in both keeps the agreement, if no byte of the field outside
`S` has a byte in `S` above it: a carry only goes up. -/
theorem AgreeOn.store_add {pos w : ℕ} (a : ℕ)
    (hS : ∀ i j, pos ≤ j → j < i → i < pos + w → S i → S j) :
    AgreeOn (m.store pos w ((m.load pos w + a) % 256 ^ w))
      (n.store pos w ((n.load pos w + a) % 256 ^ w)) S := by
  intro i hi
  unfold Mem.store
  split_ifs with hr
  · obtain ⟨k, rfl⟩ : ∃ k, i = pos + k := ⟨i - pos, by omega⟩
    have hk : k + 1 ≤ w := by omega
    have hlow : m.load pos (k + 1) = n.load pos (k + 1) := h.load_eq fun j h₁ h₂ => by
      rcases Nat.lt_or_ge j (pos + k) with hj | hj
      · exact hS _ j h₁ hj hr.2 hi
      · obtain rfl : j = pos + k := by omega
        exact hi
    have hbyte : ∀ p : Mem, ((p.load pos w + a) % 256 ^ w / 256 ^ k) % 256 =
        ((p.load pos (k + 1) + a) % 256 ^ (k + 1)) / 256 ^ k := by
      intro p
      rw [← p.load_mod pos hk, Nat.mod_add_mod, ← Nat.mod_mod_of_dvd _ (pow_dvd_pow 256 hk),
        pow_succ 256 k, Nat.mod_mul_right_div_self]
    have heq : ((m.load pos w + a) % 256 ^ w / 256 ^ k) % 256 =
        ((n.load pos w + a) % 256 ^ w / 256 ^ k) % 256 := by
      rw [hbyte, hbyte, hlow]
    rw [Nat.add_sub_cancel_left]
    exact UInt8.toNat_inj.mp (by simpa using heq)
  · exact h i hi

end

end Mem

end Shim.Lib
