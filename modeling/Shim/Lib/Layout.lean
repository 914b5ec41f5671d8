import Shim.Lib.CStr

/-!
# Objects laid out in an allocation

A program that lays out a table in one allocation writes its parts in the order in which it gets at
them, which need not be the order in which they lie. The writes are kept as a log.

* `Tiles lo hi l` — in the order of the log, the writes lie one behind the other from `lo` to `hi`.
* `ReadsBack` — the memory holds what the log says; so it does for a permutation of a tiling.
-/

namespace Shim.Lib

open List Mem

structure Write where
  pos : ℕ
  bytes : List UInt8
  deriving DecidableEq

namespace Write

/-- The place behind a write. -/
def stop (w : Write) : ℕ := w.pos + w.bytes.length

/-- Two writes have no byte in common. -/
def Apart (v w : Write) : Prop := v.stop ≤ w.pos ∨ w.stop ≤ v.pos

lemma Apart.symm {v w : Write} (h : Apart v w) : Apart w v := Or.symm h

lemma pairwise_apart_of_perm {l l' : List Write} (h : l.Perm l') (hl : l'.Pairwise Apart) :
    l.Pairwise Apart :=
  (h.pairwise_iff Apart.symm).mpr hl

end Write

/-- The writes lie one behind the other, from `lo` to `hi`. -/
def Tiles : ℕ → ℕ → List Write → Prop
  | lo, hi, [] => lo = hi
  | lo, hi, w :: l => w.pos = lo ∧ Tiles w.stop hi l

namespace Tiles

variable {lo mid hi : ℕ} {w : Write} {l l' : List Write}

lemma append (h : Tiles lo mid l) (h' : Tiles mid hi l') : Tiles lo hi (l ++ l') := by
  induction l generalizing lo with
  | nil =>
    obtain rfl : lo = mid := h
    exact h'
  | cons w l ih => exact ⟨h.1, ih h.2⟩

lemma le (h : Tiles lo hi l) : lo ≤ hi := by
  induction l generalizing lo with
  | nil => exact Nat.le_of_eq h
  | cons w l ih =>
    obtain ⟨rfl, hl⟩ := h
    exact Nat.le_trans (Nat.le_add_right _ _) (ih hl)

lemma bounds (h : Tiles lo hi l) (hw : w ∈ l) : lo ≤ w.pos ∧ w.stop ≤ hi := by
  induction l generalizing lo with
  | nil => exact absurd hw not_mem_nil
  | cons v l ih =>
    obtain ⟨rfl, hl⟩ := h
    rcases mem_cons.mp hw with rfl | hmem
    · exact ⟨le_rfl, hl.le⟩
    · obtain ⟨hpos, hstop⟩ := ih hl hmem
      exact ⟨Nat.le_trans (Nat.le_add_right _ _) hpos, hstop⟩

lemma pairwise_apart (h : Tiles lo hi l) : l.Pairwise Write.Apart := by
  induction l generalizing lo with
  | nil => exact List.Pairwise.nil
  | cons w l ih =>
    obtain ⟨rfl, hl⟩ := h
    exact List.Pairwise.cons (fun v hv => .inl (hl.bounds hv).1) (ih hl)

end Tiles

/-! ## What a log leaves in memory -/

namespace Mem

variable {m : Mem} {w : Write} {l : List Write}

/-- The writes of a log, in its order. -/
def writes (m : Mem) (l : List Write) : Mem := l.foldl (fun m w => m.write w.pos w.bytes) m

lemma write_of_outside {pos i : ℕ} {bytes : List UInt8} (h : i < pos ∨ pos + bytes.length ≤ i) :
    m.write pos bytes i = m i := by
  unfold write
  by_cases hpos : pos ≤ i
  · rw [if_pos hpos, getElem?_eq_none (by omega)]
    rfl
  · rw [if_neg hpos]

lemma slice_write_self (m : Mem) (pos : ℕ) (bytes : List UInt8) :
    (m.write pos bytes).slice pos bytes.length = bytes := by
  refine ext_getElem (by simp) fun k _ hk => ?_
  rw [getElem_slice, write, if_pos (Nat.le_add_right _ _), Nat.add_sub_cancel_left,
    getElem?_eq_getElem hk]
  rfl

lemma slice_eq_append {p : ℕ} {a b : List UInt8} : m.slice p (a ++ b).length = a ++ b ↔
      m.slice p a.length = a ∧ m.slice (p + a.length) b.length = b := by
  rw [length_append, slice_add]
  constructor
  · intro h
    exact append_inj h (length_slice _ _ _)
  · rintro ⟨ha, hb⟩
    rw [ha, hb]

lemma writes_of_outside {i : ℕ} (h : ∀ w ∈ l, i < w.pos ∨ w.stop ≤ i) : m.writes l i = m i := by
  induction l generalizing m with
  | nil => rfl
  | cons w l ih =>
    obtain ⟨hw, hl⟩ := forall_mem_cons.mp h
    calc (m.write w.pos w.bytes).writes l i = m.write w.pos w.bytes i := ih hl
      _ = m i := write_of_outside hw

/-- A write that lies apart from all others is read back. -/
theorem slice_writes (h : l.Pairwise Write.Apart) (hw : w ∈ l) :
    (m.writes l).slice w.pos w.bytes.length = w.bytes := by
  induction l generalizing m with
  | nil => exact absurd hw not_mem_nil
  | cons v l ih =>
    obtain ⟨hv, hl⟩ := pairwise_cons.mp h
    rcases mem_cons.mp hw with rfl | hmem
    · -- the later writes leave the bytes of this one alone
      have hkeep : ∀ i < w.bytes.length,
          (m.write w.pos w.bytes).writes l (w.pos + i) = m.write w.pos w.bytes (w.pos + i) := by
        intro i hi
        apply writes_of_outside
        intro u hu
        have hapart := hv u hu
        unfold Write.Apart Write.stop at hapart
        unfold Write.stop
        omega
      calc ((m.write w.pos w.bytes).writes l).slice w.pos w.bytes.length
          = (m.write w.pos w.bytes).slice w.pos w.bytes.length := slice_eq_iff.mpr hkeep
        _ = w.bytes := slice_write_self m w.pos w.bytes
    · exact ih hl hmem

end Mem

/-- The memory holds what the log says. -/
def ReadsBack (m : Mem) (l : List Write) : Prop := ∀ w ∈ l, m.slice w.pos w.bytes.length = w.bytes

/-- The `w` bytes of a number, little-endian. -/
def numberBytes (w v : ℕ) : List UInt8 := (store (fun _ => 0) 0 w v).slice 0 w

lemma numberBytes_two (v : ℕ) : numberBytes 2 v = [UInt8.ofNat v, UInt8.ofNat (v / 256)] := by
  simp [numberBytes, store, slice, range_succ]

@[simp] lemma length_numberBytes (w v : ℕ) : (numberBytes w v).length = w :=
  length_slice _ _ _

namespace ReadsBack

variable {m : Mem} {pos w v : ℕ} {s : List UInt8} {l l' : List Write}

lemma of_writes (m : Mem) (h : l.Pairwise Write.Apart) : ReadsBack (m.writes l) l :=
  fun _ hw => slice_writes h hw

section

variable (h : ReadsBack m l)
include h

lemma subset (hsub : l' ⊆ l) : ReadsBack m l' := fun w hw => h w (hsub hw)

lemma load_eq (hw : ⟨pos, numberBytes w v⟩ ∈ l) (hv : v < 256 ^ w) : m.load pos w = v := by
  have hslice := h _ hw
  dsimp only at hslice
  rw [length_numberBytes] at hslice
  rw [load_of_slice_eq_store hslice, Nat.mod_eq_of_lt hv]

lemma strAt (hw : ⟨pos, s ++ [0]⟩ ∈ l) (hs : ∀ b ∈ s, b ≠ 0) : m.StrAt pos s := by
  have hslice := h _ hw
  dsimp only at hslice
  rw [length_append, length_singleton, slice_add] at hslice
  obtain ⟨hbytes, hnul⟩ := append_inj hslice (by simp)
  exact ⟨hbytes, by simpa [slice] using hnul, hs⟩

/-- What a tiling of a range leaves there, from end to end. -/
theorem slice_eq {lo hi : ℕ} (hl : Tiles lo hi l) :
    m.slice lo (hi - lo) = l.flatMap Write.bytes := by
  induction l generalizing lo with
  | nil =>
    obtain rfl : lo = hi := hl
    rw [Nat.sub_self]
    rfl
  | cons w l ih =>
    obtain ⟨rfl, hrest⟩ := hl
    have hstop : w.stop = w.pos + w.bytes.length := rfl
    have hle := hrest.le
    have hlen : hi - w.pos = w.bytes.length + (hi - w.stop) := by omega
    rw [hlen, slice_add, h w mem_cons_self, ← hstop,
      ih (h.subset (subset_cons_self w l)) hrest]
    rfl

end

end ReadsBack

end Shim.Lib
