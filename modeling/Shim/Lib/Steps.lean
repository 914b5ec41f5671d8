import Mathlib.Tactic

/-!
# Runs of a machine

`step s k` is the state after the call `k`, if control comes back. A run is a list of calls, and
`calls.foldlM step s` is the state behind it.

* `Along step good s calls` — each call of the run meets `good` in the state in which it is made.
* `Along.invariant` — what holds at the start and is kept by every such call holds in every state.
* `forall_prefix_iff` — the rule for "a run is all right at every point iff each call is safe".
-/

namespace Shim.Lib

open List

variable {σ κ : Type} {step : σ → κ → Option σ} {good : σ → κ → Prop} {s t : σ} {calls : List κ}

/-- Every call of the run meets the condition in the state in which it is made. -/
def Along (step : σ → κ → Option σ) (good : σ → κ → Prop) : σ → List κ → Prop
  | _, [] => True
  | s, k :: calls => good s k ∧ ∀ t, step s k = some t → Along step good t calls

lemma Along.invariant (I : σ → Prop) (hstart : I s)
    (hstep : ∀ s k t, I s → good s k → step s k = some t → I t) (hgood : Along step good s calls)
    (hrun : calls.foldlM step s = some t) : I t := by
  induction calls generalizing s with
  | nil =>
    cases hrun
    exact hstart
  | cons k calls ih =>
    rw [foldlM_cons] at hrun
    obtain ⟨u, hu, hrun⟩ := Option.bind_eq_some_iff.mp hrun
    exact ih (hstep s k u hstart hgood.1 hu) (hgood.2 u hu) hrun

lemma Along.init {k : κ} (h : Along step good s (calls ++ [k])) : Along step good s calls := by
  induction calls generalizing s with
  | nil => trivial
  | cons k' calls ih => exact ⟨h.1, fun u hu => ih (h.2 u hu)⟩

lemma Along.last {k : κ} (h : Along step good s (calls ++ [k]))
    (hrun : calls.foldlM step s = some t) : good t k := by
  induction calls generalizing s with
  | nil =>
    cases hrun
    exact h.1
  | cons k' calls ih =>
    rw [foldlM_cons] at hrun
    obtain ⟨u, hu, hrun⟩ := Option.bind_eq_some_iff.mp hrun
    exact ih (h.2 u hu) hrun

lemma forall_prefix_iff {α : Type*} {I P : List α → Prop} {Safe : List α → α → Prop} (hnil : I [])
    (hkeep : ∀ {pre c}, I pre → Safe pre c → I (pre ++ [c])) (hholds : ∀ {pre}, I pre → P pre)
    (hshows : ∀ {pre c}, I pre → P (pre ++ [c]) → Safe pre c) (calls : List α) :
    (∀ pre, pre <+: calls → P pre) ↔ ∀ pre c, pre ++ [c] <+: calls → Safe pre c := by
  have hinv (calls : List α) (hsafe : ∀ pre c, pre ++ [c] <+: calls → Safe pre c) : I calls := by
    induction calls using reverseRecOn with
    | nil => exact hnil
    | append_singleton pre c ih =>
      have hpre := ih fun pre' d hpre => hsafe pre' d (hpre.trans (prefix_append _ _))
      exact hkeep hpre (hsafe pre c prefix_rfl)
  constructor
  · intro hall
    induction calls using reverseRecOn with
    | nil => simp
    | append_singleton calls d ih =>
      have hsafe := ih fun pre hpre => hall pre (hpre.trans (prefix_append _ _))
      intro pre c hpre
      rcases prefix_concat_iff.mp hpre with heq | hpre
      · obtain ⟨rfl, hcd⟩ := append_inj' heq rfl
        obtain rfl : c = d := by simpa using hcd
        exact hshows (hinv pre hsafe) (hall _ prefix_rfl)
      · exact hsafe pre c hpre
  · intro hsafe pre hpre
    exact hholds (hinv pre fun pre' c hpre' => hsafe pre' c (hpre'.trans hpre))

end Shim.Lib
