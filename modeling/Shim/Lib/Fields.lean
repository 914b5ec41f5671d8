import Shim.Lib.Mem

/-!
# Numbers in memory, changed one by one

Each field of a list, a place and a width, is replaced by a function of what is in it. If no two of
the fields overlap, the order does not matter: every field is changed on its own, and nothing else is
(`Mem.Modified`).
-/

namespace Shim.Lib.Mem

open List

lemma load_store_self (m : Mem) (pos w v : ℕ) : (m.store pos w v).load pos w = v % 256 ^ w :=
  load_of_slice_eq_store rfl

lemma load_store_of_disjoint (m : Mem) {pos w : ℕ} (v : ℕ) {off len : ℕ}
    (h : off + len ≤ pos ∨ pos + w ≤ off) : (m.store pos w v).load off len = m.load off len := by
  have hagree : AgreeOn (m.store pos w v) m fun i => off ≤ i ∧ i < off + len := by
    intro i hi
    rw [store, if_neg (by omega)]
  exact hagree.load_eq fun i h₁ h₂ => ⟨h₁, h₂⟩

lemma eq_of_load_eq {m n : Mem} {off w : ℕ} (h : m.load off w = n.load off w) :
    ∀ i, off ≤ i → i < off + w → m i = n i := by
  induction w generalizing off with
  | zero =>
    intro i hlo hhi
    omega
  | succ w ih =>
    have hm := (m off).toNat_lt
    have hn := (n off).toNat_lt
    rw [load, load] at h
    have hfirst : (m off).toNat = (n off).toNat := by omega
    have hrest : m.load (off + 1) w = n.load (off + 1) w := by omega
    intro i hlo hhi
    rcases Nat.eq_or_lt_of_le hlo with rfl | hlt
    · exact UInt8.toNat_inj.mp hfirst
    · exact ih hrest i hlt (by omega)

/-! ## Many numbers -/

section

variable {ι : Type} (off width : ι → ℕ)

def InField (x : ι) (i : ℕ) : Prop := off x ≤ i ∧ i < off x + width x

/-- The fields of `x` and `y` do not overlap. -/
def Apart (x y : ι) : Prop := off x + width x ≤ off y ∨ off y + width y ≤ off x

instance (x y : ι) : Decidable (Apart off width x y) := inferInstanceAs (Decidable (_ ∨ _))

/-- The number in the field of `x` is replaced by the value of `f`. -/
def modify (f : ι → ℕ → ℕ) (m : Mem) (x : ι) : Mem :=
  m.store (off x) (width x) (f x (m.load (off x) (width x)))

/-- In `n` the fields of a list hold what `f` makes of their numbers in `m`, and all other bytes are
those of `m`. -/
structure Modified (f : ι → ℕ → ℕ) (l : List ι) (m n : Mem) : Prop where
  field : ∀ x ∈ l, n.load (off x) (width x) = f x (m.load (off x) (width x)) % 256 ^ width x
  other : ∀ i, (∀ x ∈ l, ¬ InField off width x i) → n i = m i

variable {off width} {f g : ι → ℕ → ℕ} {l : List ι} {m n p : Mem} {x y : ι} {i : ℕ}

lemma modify_of_not_inField (h : ¬ InField off width x i) : modify off width f m x i = m i := by
  unfold InField at h
  unfold modify store
  rw [if_neg h]

lemma load_modify_self : (modify off width f m x).load (off x) (width x) =
      f x (m.load (off x) (width x)) % 256 ^ width x :=
  load_store_self _ _ _ _

lemma load_modify_of_apart (h : Apart off width x y) :
    (modify off width f m x).load (off y) (width y) = m.load (off y) (width y) :=
  load_store_of_disjoint _ _ (Or.symm h)

lemma foldl_modify_of_not_inField (h : ∀ x ∈ l, ¬ InField off width x i) :
    l.foldl (modify off width f) m i = m i := by
  induction l generalizing m with
  | nil => rfl
  | cons x l ih =>
    obtain ⟨hx, hl⟩ := forall_mem_cons.mp h
    rw [foldl_cons, ih hl, modify_of_not_inField hx]

lemma load_foldl_modify_of_apart (h : ∀ x ∈ l, Apart off width x y) :
    (l.foldl (modify off width f) m).load (off y) (width y) = m.load (off y) (width y) := by
  induction l generalizing m with
  | nil => rfl
  | cons x l ih =>
    obtain ⟨hx, hl⟩ := forall_mem_cons.mp h
    rw [foldl_cons, ih hl, load_modify_of_apart hx]

/-- Going through a list of fields that do not overlap changes each of them on its own. -/
theorem modified_foldl (h : l.Pairwise (Apart off width)) :
    Modified off width f l m (l.foldl (modify off width f) m) := by
  refine ⟨?_, fun i hi => foldl_modify_of_not_inField hi⟩
  induction l generalizing m with
  | nil =>
    intro x hx
    exact absurd hx not_mem_nil
  | cons y l ih =>
    obtain ⟨hy, hl⟩ := pairwise_cons.mp h
    intro x hx
    rw [foldl_cons]
    rcases mem_cons.mp hx with rfl | hmem
    · rw [load_foldl_modify_of_apart fun z hz => (hy z hz).symm, load_modify_self]
    · rw [ih hl x hmem, load_modify_of_apart (hy x hmem)]

lemma Modified.refl (h : ∀ x ∈ l, ∀ v < 256 ^ width x, f x v % 256 ^ width x = v) :
    Modified off width f l m m :=
  ⟨fun x hx => (h x hx _ (load_lt m _ _)).symm, fun _ _ => rfl⟩

section

variable (h : Modified off width f l m n)
include h

/-- The outcome is determined: a byte is in a field, whose number is known, or it is unchanged. -/
theorem Modified.unique (h' : Modified off width f l m p) : n = p := by
  funext i
  by_cases hin : ∃ x ∈ l, InField off width x i
  · obtain ⟨x, hx, hlo, hhi⟩ := hin
    exact eq_of_load_eq ((h.field x hx).trans (h'.field x hx).symm) i hlo hhi
  · have hout : ∀ x ∈ l, ¬ InField off width x i := fun x hx hi => hin ⟨x, hx, hi⟩
    rw [h.other i hout, h'.other i hout]

lemma Modified.trans (h' : Modified off width g l n p) :
    Modified off width (fun x v => g x (f x v % 256 ^ width x)) l m p :=
  ⟨fun x hx => by rw [h'.field x hx, h.field x hx],
    fun i hi => (h'.other i hi).trans (h.other i hi)⟩

lemma Modified.congr (hfg : ∀ x ∈ l, ∀ v, f x v % 256 ^ width x = g x v % 256 ^ width x) :
    Modified off width g l m n :=
  ⟨fun x hx => (h.field x hx).trans (hfg x hx _), h.other⟩

end

end

end Shim.Lib.Mem
