import Mathlib.Tactic

/-!
# Early returns

A C function that returns an error code as soon as a test fails is a chain of `reject`s in `Except`.
`reject_bind_eq_ok` and `bind_eq_ok` take such a chain apart: a run that gets to its end has passed
every test. `FailsWith P x` says that the errors of `x` satisfy `P`.
-/

namespace Shim.Lib

open List

variable {ε α β : Type}

/-- `if (bad) return e;` -/
def reject (bad : Prop) [Decidable bad] (e : ε) : Except ε Unit :=
  if bad then .error e else .ok ()

lemma reject_bind_eq_ok {bad : Prop} [Decidable bad] {e : ε} {k : Unit → Except ε α} {r : α} :
    (reject bad e >>= k) = .ok r ↔ ¬ bad ∧ k () = .ok r := by
  unfold reject
  split_ifs with h
  · simp [h, bind, Except.bind]
  · simp [h, bind, Except.bind]

lemma reject_of_not {bad : Prop} [Decidable bad] (h : ¬ bad) (e : ε) :
    reject bad e = .ok () := if_neg h

@[simp] lemma ok_bind (a : α) (k : α → Except ε β) : (Except.ok a >>= k) = k a := rfl

lemma bind_eq_ok {x : Except ε α} {k : α → Except ε β} {r : β} :
    (x >>= k) = .ok r ↔ ∃ a, x = .ok a ∧ k a = .ok r := by
  cases x with
  | error e => simp [bind, Except.bind]
  | ok a => simp [bind, Except.bind]

lemma mapError_eq_ok {ε' : Type} {g : ε → ε'} {x : Except ε α} {a : α} :
    x.mapError g = .ok a ↔ x = .ok a := by
  cases x with
  | error e => simp [Except.mapError]
  | ok b => simp [Except.mapError]

/-- Two chains that go on in the same way behind a test. -/
theorem reject_bind_congr {bad : Prop} [Decidable bad] {e : ε} {k k' : Unit → Except ε α}
    (h : ¬ bad → k () = k' ()) : (reject bad e >>= k) = (reject bad e >>= k') := by
  unfold reject
  split_ifs with hbad
  · rfl
  · exact h hbad

/-- Two chains that go on in the same way behind a step. -/
theorem bind_congr_ok {x : Except ε α} {k k' : α → Except ε β}
    (h : ∀ a, x = .ok a → k a = k' a) : (x >>= k) = (x >>= k') := by
  cases x with
  | error e => rfl
  | ok a => exact h a rfl

lemma foldlM_congr_mem {k k' : β → α → Except ε β} {l : List α}
    (h : ∀ a ∈ l, ∀ b, k b a = k' b a) (b : β) : l.foldlM k b = l.foldlM k' b := by
  induction l generalizing b with
  | nil => rfl
  | cons a l ih =>
    rw [forall_mem_cons] at h
    rw [foldlM_cons, foldlM_cons, h.1 b]
    exact bind_congr_ok fun b' _ => ih h.2 b'

section

variable {step : β → ℕ → Except ε β} {n : ℕ} {s t : β}

lemma foldlM_range_succ_eq_ok : (List.range (n + 1)).foldlM step s = .ok t ↔
      ∃ u, (List.range n).foldlM step s = .ok u ∧ step u n = .ok t := by
  rw [range_succ, foldlM_append, bind_eq_ok]
  refine exists_congr fun u => and_congr_right fun _ => ?_
  rw [foldlM_cons, bind_eq_ok]
  constructor
  · rintro ⟨v, hv, hnil⟩
    cases hnil
    exact hv
  · intro h
    exact ⟨t, h, rfl⟩

/-- What holds at the start of a loop over `0, ..., n - 1` and is kept by each round holds at its
end; the invariant `I` knows the number of rounds. -/
theorem foldlM_range_invariant (I : ℕ → β → Prop) (hstart : I 0 s)
    (hstep : ∀ k u v, I k u → step u k = .ok v → I (k + 1) v)
    (h : (List.range n).foldlM step s = .ok t) : I n t := by
  induction n generalizing t with
  | zero =>
    cases h
    exact hstart
  | succ n ih =>
    obtain ⟨u, hu, ht⟩ := foldlM_range_succ_eq_ok.mp h
    exact hstep n u t (ih hu) ht

end

/-- If it fails, then with an error that satisfies `P`. -/
def FailsWith (P : ε → Prop) (x : Except ε α) : Prop := ∀ e, x = .error e → P e

variable {P : ε → Prop}

lemma FailsWith.ok (a : α) : FailsWith P (.ok a : Except ε α) := by
  intro e h
  cases h

lemma FailsWith.of_reject {bad : Prop} [Decidable bad] {e : ε} (he : P e) :
    FailsWith P (reject bad e) := by
  intro e' h
  unfold reject at h
  split_ifs at h
  cases h
  exact he

lemma FailsWith.bind {x : Except ε α} {k : α → Except ε β} (hx : FailsWith P x)
    (hk : ∀ a, FailsWith P (k a)) : FailsWith P (x >>= k) := by
  intro e h
  cases x with
  | error e' =>
    cases h
    exact hx _ rfl
  | ok a => exact hk a e h

lemma FailsWith.reject_bind {bad : Prop} [Decidable bad] {e : ε} {k : Unit → Except ε α} (he : P e)
    (hk : FailsWith P (k ())) : FailsWith P (reject bad e >>= k) :=
  .bind (.of_reject he) fun _ => hk

lemma FailsWith.foldlM {k : β → α → Except ε β} (hk : ∀ b a, FailsWith P (k b a)) (l : List α)
    (b : β) : FailsWith P (l.foldlM k b) := by
  induction l generalizing b with
  | nil => exact .ok b
  | cons a l ih =>
    rw [foldlM_cons]
    exact .bind (hk b a) ih

end Shim.Lib
