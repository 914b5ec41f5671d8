import Mathlib.Logic.Relation
import Shim.Lib.Run

/-!
# Loops with a trace

`loop step n s` runs at most `n` rounds of a `while` loop from the state `s`: a round goes on in a new
state (`inl`), leaves the loop with a result (`inr`), or fails. A run that is out of rounds ends in
`none`.

* `loop_emits`, `loop_yields` — what the loop does, in terms of the states it reaches, if a number
  falls with every round that changes something.
* `ensures_loop` — the rule of invariants.
-/

namespace Shim.Lib

open Relation.TransGen

namespace Run

variable {ρ ε σ α : Type}

def loop (step : σ → Run ρ ε (σ ⊕ α)) : ℕ → σ → Run ρ ε (Option α)
  | 0, _ => return none
  | n + 1, s => do
      match ← step s with
      | .inl s' => loop step n s'
      | .inr a => return some a

lemma loop_succ_out (step : σ → Run ρ ε (σ ⊕ α)) (n : ℕ) (s : σ) :
    (loop step (n + 1) s).out = (step s).out >>= fun
      | .inl s' => (loop step n s').out
      | .inr a => .ok (some a) := by
  rw [loop, out_bind]
  congr 1
  funext x
  cases x <;> rfl

lemma value_loop_succ (step : σ → Run ρ Empty (σ ⊕ α)) (n : ℕ) (s : σ) :
    (loop step (n + 1) s).value =
      (step s).value.elim (fun s' => (loop step n s').value) some := by
  rw [loop, value_bind]
  cases (step s).value with
  | inl s' => rfl
  | inr a => rfl

lemma loop_of_continues {step : σ → Run ρ ε (σ ⊕ α)} {s s' : σ} {tr : List ρ}
    (h : step s = ⟨tr, .ok (.inl s')⟩) (n : ℕ) :
    loop step (n + 1) s = ⟨tr ++ (loop step n s').trace, (loop step n s').out⟩ := by
  rw [loop, h]
  rfl

lemma loop_of_stops {step : σ → Run ρ ε (σ ⊕ α)} {s : σ} {tr : List ρ} {a : α}
    (h : step s = ⟨tr, .ok (.inr a)⟩) (n : ℕ) : loop step (n + 1) s = ⟨tr, .ok (some a)⟩ := by
  rw [loop, h, bind_of_ok rfl]
  exact Run.ext (List.append_nil tr) rfl

/-- One round goes on in `s'`. -/
def Continues (step : σ → Run ρ ε (σ ⊕ α)) (s s' : σ) : Prop := (step s).Yields (.inl s')

/-- The loop gets from `s` to `s'`. -/
def Reaches (step : σ → Run ρ ε (σ ⊕ α)) : σ → σ → Prop := Relation.ReflTransGen (Continues step)

variable {step : σ → Run ρ ε (σ ⊕ α)} {s s' : σ} {n : ℕ} {r : ρ} {a : α}

lemma Continues.unique {s₁ s₂ : σ} (h₁ : Continues step s s₁) (h₂ : Continues step s s₂) :
    s₁ = s₂ := Sum.inl.inj (Yields.unique h₁ h₂)

lemma not_continues_of_yields (h : (step s).Yields (.inr a)) : ¬ Continues step s s' := fun h' =>
  by cases Yields.unique h h'

/-- A state that goes on to itself reaches nothing else. -/
theorem Reaches.eq_of_stutter (hs : Continues step s s) (h : Reaches step s s') : s' = s := by
  induction h with
  | refl => rfl
  | tail _ hstep ih =>
    rw [ih] at hstep
    exact hstep.unique hs

lemma loop_emits_succ : (loop step (n + 1) s).Emits r ↔
      (step s).Emits r ∨ ∃ s', Continues step s s' ∧ (loop step n s').Emits r := by
  unfold Continues
  simp only [loop, emits_bind]
  refine or_congr_right ⟨?_, ?_⟩
  · rintro ⟨x | a, hx, hr⟩
    · exact ⟨x, hx, hr⟩
    · exact absurd hr emits_pure
  · rintro ⟨s', hs', hr⟩
    exact ⟨.inl s', hs', hr⟩

lemma loop_yields_succ : (loop step (n + 1) s).Yields (some a) ↔
      (step s).Yields (.inr a) ∨ ∃ s', Continues step s s' ∧ (loop step n s').Yields (some a) := by
  unfold Continues
  simp only [loop, yields_bind]
  constructor
  · rintro ⟨x | b, hx, ha⟩
    · exact .inr ⟨x, hx, ha⟩
    · rw [yields_pure, Option.some.injEq] at ha
      exact .inl (ha ▸ hx)
  · rintro (h | ⟨s', hs', ha⟩)
    · exact ⟨.inr a, h, yields_pure.mpr rfl⟩
    · exact ⟨.inl s', hs', ha⟩

/-- An event of the loop happens in a state it reaches. -/
theorem reaches_of_loop_emits (h : (loop step n s).Emits r) :
    ∃ s', Reaches step s s' ∧ (step s').Emits r := by
  induction n generalizing s with
  | zero => exact absurd h emits_pure
  | succ n ih =>
    rcases loop_emits_succ.mp h with h | ⟨d, hd, h⟩
    · exact ⟨s, .refl, h⟩
    · obtain ⟨s', hreach, h⟩ := ih h
      exact ⟨s', .head hd hreach, h⟩

/-- A result of the loop comes from a state it reaches. -/
theorem reaches_of_loop_yields (h : (loop step n s).Yields (some a)) :
    ∃ s', Reaches step s s' ∧ (step s').Yields (.inr a) := by
  induction n generalizing s with
  | zero =>
    rw [loop, yields_pure] at h
    cases h
  | succ n ih =>
    rcases loop_yields_succ.mp h with h | ⟨d, hd, h⟩
    · exact ⟨s, .refl, h⟩
    · obtain ⟨s', hreach, h⟩ := ih h
      exact ⟨s', .head hd hreach, h⟩

/-! ## Loops with a variant -/

/-- `μ` falls with every round, except with a round that changes nothing. -/
def Variant (step : σ → Run ρ ε (σ ⊕ α)) (μ : σ → ℕ) : Prop :=
  ∀ s s', Continues step s s' → s' = s ∨ μ s' < μ s

variable {μ : σ → ℕ}

/-- More rounds than the variant counts find every event. -/
theorem loop_emits (hμ : Variant step μ) (hn : μ s < n) :
    (loop step n s).Emits r ↔ ∃ s', Reaches step s s' ∧ (step s').Emits r := by
  refine ⟨reaches_of_loop_emits, ?_⟩
  rintro ⟨s', hreach, h⟩
  induction n generalizing s with
  | zero => omega
  | succ n ih =>
    rw [loop_emits_succ]
    rcases hreach.cases_head with rfl | ⟨d, hd, hrest⟩
    · exact .inl h
    rcases hμ s d hd with rfl | hlt
    · rw [Reaches.eq_of_stutter hd hrest] at h
      exact .inl h
    · exact .inr ⟨d, hd, ih (by omega) hrest⟩

/-- More rounds than the variant counts find the result. -/
theorem loop_yields (hμ : Variant step μ) (hn : μ s < n) :
    (loop step n s).Yields (some a) ↔ ∃ s', Reaches step s s' ∧ (step s').Yields (.inr a) := by
  refine ⟨reaches_of_loop_yields, ?_⟩
  rintro ⟨s', hreach, h⟩
  induction n generalizing s with
  | zero => omega
  | succ n ih =>
    rw [loop_yields_succ]
    rcases hreach.cases_head with rfl | ⟨d, hd, hrest⟩
    · exact .inl h
    rcases hμ s d hd with rfl | hlt
    · rw [Reaches.eq_of_stutter hd hrest] at h
      exact .inl h
    · exact .inr ⟨d, hd, ih (by omega) hrest⟩

/-- A loop whose variant falls with every round does not run out of rounds. -/
theorem not_loop_yields_none (hμ : ∀ s s', Continues step s s' → μ s' < μ s) (hn : μ s < n) :
    ¬ (loop step n s).Yields none := by
  induction n generalizing s with
  | zero => omega
  | succ n ih =>
    rw [loop, yields_bind]
    rintro ⟨s' | a, hs', h⟩
    · have hlt := hμ s s' hs'
      exact ih (by omega) h
    · rw [yields_pure] at h
      cases h

/-- The rule of a loop: a round keeps the invariant and lets the variant fall, or it ends the loop. -/
theorem ensures_loop {E : ρ → Prop} {I : σ → Prop} {Q : α → Prop}
    (hstep : ∀ s, I s → Ensures E (step s) fun
      | .inl s' => I s' ∧ μ s' < μ s
      | .inr a => Q a) (hs : I s) (hn : μ s < n) :
    Ensures E (loop step n s) fun r => ∃ a, r = some a ∧ Q a := by
  induction n generalizing s with
  | zero => omega
  | succ n ih =>
    refine (hstep s hs).bind fun x hx => ?_
    rcases x with s' | a
    · exact ih hx.1 (by have := hx.2; omega)
    · exact ensures_pure ⟨a, rfl, hx⟩

/-- The loop returns iff no state it reaches fails or goes on to itself. -/
theorem loop_returns_iff (hμ : Variant step μ) (hn : μ s < n) :
    (∃ a, (loop step n s).Yields (some a)) ↔
      ∀ s', Reaches step s s' → (∃ x, (step s').Yields x) ∧ ¬ Continues step s' s' := by
  constructor
  · rintro ⟨a, ha⟩ s' hs'
    obtain ⟨t, ht, hta⟩ := (loop_yields hμ hn).mp ha
    -- the last state comes after every other state that is reached
    have hlast : Reaches step s' t := by
      rcases ht.total_of_right_unique (fun _ _ _ h₁ h₂ => h₁.unique h₂) hs' with h | h
      · rcases h.cases_head with rfl | ⟨d, hd, -⟩
        · exact .refl
        · exact absurd hd (not_continues_of_yields hta)
      · exact h
    refine ⟨?_, fun hloop => ?_⟩
    · rcases hlast.cases_head with rfl | ⟨d, hd, -⟩
      · exact ⟨_, hta⟩
      · exact ⟨_, hd⟩
    · rw [Reaches.eq_of_stutter hloop hlast] at hta
      exact not_continues_of_yields hta hloop
  · intro h
    induction n generalizing s with
    | zero => omega
    | succ n ih =>
      obtain ⟨⟨x, hx⟩, hloop⟩ := h s .refl
      rcases x with d | a
      · rcases hμ s d hx with rfl | hlt
        · exact absurd hx hloop
        · obtain ⟨a, ha⟩ := ih (by omega) fun s' hs' => h s' (.head hx hs')
          exact ⟨a, loop_yields_succ.mpr (.inr ⟨d, hx, ha⟩)⟩
      · exact ⟨a, loop_yields_succ.mpr (.inl hx)⟩

/-! ## Loops on finitely many states -/

/-- A loop that is not out of rounds has done what the states it reaches do. -/
theorem loop_emits_of_ends (h : ¬ (loop step n s).Yields none) :
    (loop step n s).Emits r ↔ ∃ s', Reaches step s s' ∧ (step s').Emits r := by
  refine ⟨reaches_of_loop_emits, ?_⟩
  rintro ⟨s', hreach, hr⟩
  induction n generalizing s with
  | zero => exact absurd (yields_pure.mpr rfl) h
  | succ n ih =>
    rw [loop_emits_succ]
    rcases hreach.cases_head with rfl | ⟨d, hd, hrest⟩
    · exact .inl hr
    refine .inr ⟨d, hd, ih ?_ hrest⟩
    intro hnone
    apply h
    rw [loop, yields_bind]
    exact ⟨.inl d, hd, hnone⟩

/-- A loop that is out of rounds has gone on in every round. -/
theorem exists_path_of_loop_none (h : (loop step n s).Yields none) :
    ∃ path : ℕ → σ, path 0 = s ∧ ∀ k < n, Continues step (path k) (path (k + 1)) := by
  induction n generalizing s with
  | zero => exact ⟨fun _ => s, rfl, fun k hk => absurd hk (Nat.not_lt_zero k)⟩
  | succ n ih =>
    rw [loop, yields_bind] at h
    obtain ⟨s' | a, hs', h⟩ := h
    · obtain ⟨path, hstart, hpath⟩ := ih h
      refine ⟨fun k => if k = 0 then s else path (k - 1), rfl, ?_⟩
      intro k hk
      cases k with
      | zero =>
        show Continues step s (path 0)
        rw [hstart]
        exact hs'
      | succ k => exact hpath k (Nat.lt_of_succ_lt_succ hk)
    · rw [yields_pure] at h
      cases h

lemma reaches_path {path : ℕ → σ} (hpath : ∀ k < n, Continues step (path k) (path (k + 1)))
    {i j : ℕ} (hij : i ≤ j) (hj : j ≤ n) : Reaches step (path i) (path j) := by
  induction hij with
  | refl => exact .refl
  | step _ ih => exact (ih (Nat.le_of_succ_le hj)).tail (hpath _ hj)

/-- From a state that is come back to, every state that is reached goes on. -/
theorem exists_continues_of_cycle (hcycle : Relation.TransGen (Continues step) s s)
    (hreach : Reaches step s s') : Relation.TransGen (Continues step) s' s := by
  induction hreach with
  | refl => exact hcycle
  | tail _ hstep ih =>
    obtain ⟨d, hd, hrest⟩ := head'_iff.mp ih
    rw [hstep.unique hd]
    exact trans_right hrest hcycle

/-- A loop that always goes on is out of rounds in the end. -/
theorem loop_yields_none_of_continues (h : ∀ s', Reaches step s s' → ∃ d, Continues step s' d) :
    (loop step n s).Yields none := by
  induction n generalizing s with
  | zero => exact yields_pure.mpr rfl
  | succ n ih =>
    obtain ⟨d, hd⟩ := h s .refl
    rw [loop, yields_bind]
    exact ⟨.inl d, hd, ih fun s' hs' => h s' (.head hd hs')⟩

/-- With as many rounds as there are states that can be reached, the loop is out of rounds iff it comes
back to a state. -/
theorem loop_yields_none_iff {μ : σ → ℕ} (hinj : Function.Injective μ)
    (hμ : ∀ s', Reaches step s s' → μ s' < n) :
    (loop step n s).Yields none ↔
      ∃ s', Reaches step s s' ∧ Relation.TransGen (Continues step) s' s' := by
  constructor
  · intro h
    obtain ⟨path, rfl, hpath⟩ := exists_path_of_loop_none h
    -- there are more rounds than states, so some state is there twice
    obtain ⟨i, hi, j, hj, hne, heq⟩ := Finset.exists_ne_map_eq_of_card_lt_of_maps_to
      (s := Finset.range (n + 1)) (t := Finset.range n) (f := fun k => μ (path k)) (by simp)
      (by
        intro k hk
        rw [Finset.coe_range, Set.mem_Iio] at hk ⊢
        exact hμ _ (reaches_path hpath (Nat.zero_le k) (Nat.le_of_lt_succ hk)))
    have hback : ∀ {i j : ℕ}, i < j → j ≤ n → path i = path j →
        Relation.TransGen (Continues step) (path i) (path i) := by
      intro i j hij hj heq
      have hrest : Reaches step (path (i + 1)) (path j) := reaches_path hpath hij hj
      rw [← heq] at hrest
      exact head' (hpath i (by omega)) hrest
    have hi' : i ≤ n := Nat.le_of_lt_succ (Finset.mem_range.mp hi)
    have hj' : j ≤ n := Nat.le_of_lt_succ (Finset.mem_range.mp hj)
    rcases Nat.lt_or_gt_of_ne hne with hij | hij
    · exact ⟨path i, reaches_path hpath (Nat.zero_le i) hi', hback hij hj' (hinj heq)⟩
    · exact ⟨path j, reaches_path hpath (Nat.zero_le j) hj', hback hij hi' (hinj heq).symm⟩
  · rintro ⟨t, hreach, hcycle⟩
    refine loop_yields_none_of_continues fun s' hs' => ?_
    rcases hs'.total_of_right_unique (fun _ _ _ h₁ h₂ => h₁.unique h₂) hreach with h | h
    · rcases h.cases_head with rfl | ⟨d, hd, -⟩
      · obtain ⟨d, hd, -⟩ := head'_iff.mp hcycle
        exact ⟨d, hd⟩
      · exact ⟨d, hd⟩
    · obtain ⟨d, hd, -⟩ := head'_iff.mp (exists_continues_of_cycle hcycle h)
      exact ⟨d, hd⟩

end Run

end Shim.Lib
