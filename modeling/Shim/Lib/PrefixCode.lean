import Mathlib.Data.List.Basic

/-!
# Words of a prefix code

A format whose records carry their own length is a prefix code. So what a reader has taken at its end
is the longest start of the input that is made of records: `words P l`.
-/

namespace Shim.Lib

open List

variable {α : Type} {P : List α → Prop} {l v w : List α} {vs ws : List (List α)}

/-- No word is empty, and none starts another one. -/
structure IsPrefixCode (P : List α → Prop) : Prop where
  ne_nil : ∀ {w : List α}, P w → w ≠ []
  eq_of_starts : ∀ {v w : List α}, P v → P w → v <+: w → v = w

/-- `l` starts with the words `ws`, and with no other words further than with these. -/
structure IsMaximal (P : List α → Prop) (l : List α) (ws : List (List α)) : Prop where
  words : ∀ w ∈ ws, P w
  starts : ws.flatten <+: l
  greatest : ∀ vs : List (List α), (∀ v ∈ vs, P v) → vs.flatten <+: l → vs.flatten <+: ws.flatten

namespace IsPrefixCode

/-- Two words that the same list starts with are equal. -/
theorem eq_of_both (h : IsPrefixCode P) (hv : P v) (hw : P w) (hvl : v <+: l) (hwl : w <+: l) :
    v = w := by
  rcases prefix_or_prefix_of_prefix hvl hwl with hle | hle
  · exact h.eq_of_starts hv hw hle
  · exact (h.eq_of_starts hw hv hle).symm

/-- A sequence of words is determined by what it spells. -/
theorem flatten_inj (h : IsPrefixCode P) (hvs : ∀ v ∈ vs, P v) (hws : ∀ w ∈ ws, P w)
    (heq : vs.flatten = ws.flatten) : vs = ws := by
  induction vs generalizing ws with
  | nil =>
    cases ws with
    | nil => rfl
    | cons w ws =>
      have hnil : w = [] := by
        rw [flatten_nil, flatten_cons] at heq
        exact (append_eq_nil_iff.mp heq.symm).1
      exact absurd hnil (h.ne_nil (hws w mem_cons_self))
  | cons v vs ih =>
    cases ws with
    | nil =>
      have hnil : v = [] := by
        rw [flatten_nil, flatten_cons] at heq
        exact (append_eq_nil_iff.mp heq).1
      exact absurd hnil (h.ne_nil (hvs v mem_cons_self))
    | cons w ws =>
      rw [flatten_cons, flatten_cons] at heq
      obtain rfl : v = w :=
        h.eq_of_both (hvs v mem_cons_self) (hws w mem_cons_self)
          (prefix_append v vs.flatten) ⟨ws.flatten, heq.symm⟩
      rw [ih (fun x hx => hvs x (mem_cons_of_mem _ hx))
        (fun x hx => hws x (mem_cons_of_mem _ hx)) (append_cancel_left heq)]

end IsPrefixCode

namespace IsMaximal

lemma unique (h : IsPrefixCode P) (hvs : IsMaximal P l vs) (hws : IsMaximal P l ws) : vs = ws := by
  apply h.flatten_inj hvs.words hws.words
  have hle := hws.greatest vs hvs.words hvs.starts
  have hge := hvs.greatest ws hws.words hws.starts
  exact hle.eq_of_length_le hge.length_le

lemma nil (hno : ∀ w, P w → ¬ w <+: l) : IsMaximal P l [] where
  words := by simp
  starts := nil_prefix
  greatest := by
    intro vs hvs hstarts
    cases vs with
    | nil => exact prefix_refl _
    | cons v vs =>
      have hv : v <+: l := (prefix_append v vs.flatten).trans hstarts
      exact absurd hv (hno v (hvs v mem_cons_self))

/-- Where a word starts, it is the first of the sequence. -/
theorem cons (h : IsPrefixCode P) (hw : P w) (hws : IsMaximal P l ws) :
    IsMaximal P (w ++ l) (w :: ws) where
  words := by
    intro v hv
    rcases mem_cons.mp hv with rfl | hv
    · exact hw
    · exact hws.words v hv
  starts := by
    rw [flatten_cons]
    exact (prefix_append_right_inj w).mpr hws.starts
  greatest := by
    intro vs hvs hstarts
    cases vs with
    | nil => exact nil_prefix
    | cons v vs =>
      rw [flatten_cons] at hstarts ⊢
      obtain rfl : v = w :=
        h.eq_of_both (hvs v mem_cons_self) hw
          ((prefix_append v vs.flatten).trans hstarts) (prefix_append w l)
      rw [flatten_cons, prefix_append_right_inj]
      exact hws.greatest vs (fun x hx => hvs x (mem_cons_of_mem _ hx))
        ((prefix_append_right_inj v).mp hstarts)

end IsMaximal

lemma exists_isMaximal (h : IsPrefixCode P) (l : List α) : ∃ ws, IsMaximal P l ws := by
  induction hn : l.length using Nat.strongRecOn generalizing l with
  | _ n ih =>
    by_cases hword : ∃ w, P w ∧ w <+: l
    · obtain ⟨w, hw, rest, rfl⟩ := hword
      have hpos : 0 < w.length := length_pos_iff.mpr (h.ne_nil hw)
      rw [length_append] at hn
      obtain ⟨ws, hws⟩ := ih rest.length (by omega) rest rfl
      exact ⟨w :: ws, hws.cons h hw⟩
    · exact ⟨[], .nil fun w hw hstarts => hword ⟨w, hw, hstarts⟩⟩

open Classical in
noncomputable def words (P : List α → Prop) (l : List α) : List (List α) :=
  if h : ∃ ws, IsMaximal P l ws then h.choose else []

lemma words_isMaximal (h : IsPrefixCode P) (l : List α) : IsMaximal P l (words P l) := by
  have hex := exists_isMaximal h l
  rw [words, dif_pos hex]
  exact hex.choose_spec

lemma words_append (h : IsPrefixCode P) (hw : P w) (l : List α) :
    words P (w ++ l) = w :: words P l :=
  (words_isMaximal h _).unique h ((words_isMaximal h l).cons h hw)

lemma words_eq_nil (h : IsPrefixCode P) (hno : ∀ w, P w → ¬ w <+: l) : words P l = [] :=
  (words_isMaximal h l).unique h (.nil hno)

end Shim.Lib
