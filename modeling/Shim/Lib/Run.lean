import Shim.Lib.Check

/-!
# Runs that keep their trace

A C function touches memory while it runs, also when it then returns an error. `Run ρ ε α` is such
a computation: what it did, as a list of events of type `ρ`, and how it ended.

* `Emits x r`, `Yields x a` — the event occurs in the run; the run ends in `a`. Both have a lemma for
  every way to build a run, so that `simp` turns a question about a program into one about its tests.
* `Only E x` — only events of `E` occur.
* `Ensures E x Q` — the run ends in a value that has `Q`, with events of `E` only.
-/

namespace Shim.Lib

open List

/-- A computation that emits events of type `ρ` and ends in a value or an error. -/
@[ext] structure Run (ρ ε α : Type) where
  /-- What happened, in order. -/
  trace : List ρ
  /-- How the run ended. -/
  out : Except ε α

/-- A range of memory that is read or written. -/
inductive Access where
  | read (off len : ℕ)
  | write (off len : ℕ)
  deriving DecidableEq, Repr

namespace Run

variable {ρ ε α β σ : Type}

/-- Run `x`, and `k` from its result unless it failed. -/
protected def bind (x : Run ρ ε α) (k : α → Run ρ ε β) : Run ρ ε β :=
  match x.out with
  | .error e => ⟨x.trace, .error e⟩
  | .ok a => ⟨x.trace ++ (k a).trace, (k a).out⟩

instance : Monad (Run ρ ε) where
  pure a := ⟨[], .ok a⟩
  bind := Run.bind

def emit (r : ρ) : Run ρ ε Unit := ⟨[r], .ok ()⟩

/-- End with an error. -/
def fail (e : ε) : Run ρ ε α := ⟨[], .error e⟩

/-- A computation without events. -/
def lift (x : Except ε α) : Run ρ ε α := ⟨[], x⟩

/-- `if (bad) return e;` -/
def check (bad : Prop) [Decidable bad] (e : ε) : Run ρ ε Unit := lift (reject bad e)

/-- An event that happens if the condition holds. -/
def emitIf (c : Prop) [Decidable c] (r : ρ) : Run ρ ε Unit := if c then emit r else pure ()

/-- The same run, with its events renamed. -/
def via {ρ' : Type} (g : ρ → ρ') (x : Run ρ ε α) : Run ρ' ε α := ⟨x.trace.map g, x.out⟩

/-- The same run, with its error renamed. -/
def mapError {ε' : Type} (g : ε → ε') (x : Run ρ ε α) : Run ρ ε' α := ⟨x.trace, x.out.mapError g⟩

/-- The run, with one more event if it fails. -/
def onError (x : Run ρ ε α) (r : ρ) : Run ρ ε α :=
  match x.out with
  | .error e => ⟨x.trace ++ [r], .error e⟩
  | .ok a => ⟨x.trace, .ok a⟩

/-- The result of a run that cannot fail. -/
def value (x : Run ρ Empty α) : α :=
  match x.out with
  | .ok a => a
  | .error e => e.elim

/-- The event occurs in the run. -/
def Emits (x : Run ρ ε α) (r : ρ) : Prop := r ∈ x.trace

/-- The run ends in the value. -/
def Yields (x : Run ρ ε α) (a : α) : Prop := x.out = .ok a

instance [DecidableEq ρ] (x : Run ρ ε α) (r : ρ) : Decidable (x.Emits r) :=
  inferInstanceAs (Decidable (r ∈ x.trace))

lemma yields_value (x : Run ρ Empty α) : x.Yields x.value := by
  unfold Yields value
  cases x.out with
  | ok a => rfl
  | error e => exact e.elim

lemma bind_of_ok {x : Run ρ ε α} {a : α} (h : x.out = .ok a) (k : α → Run ρ ε β) :
    x >>= k = ⟨x.trace ++ (k a).trace, (k a).out⟩ := by
  show x.bind k = _
  simp only [Run.bind, h]

lemma bind_of_error {x : Run ρ ε α} {e : ε} (h : x.out = .error e) (k : α → Run ρ ε β) :
    x >>= k = ⟨x.trace, .error e⟩ := by
  show x.bind k = _
  simp only [Run.bind, h]

instance : LawfulMonad (Run ρ ε) := LawfulMonad.mk' _ (fun x => by
    show x.bind _ = _
    cases h : x.out <;> simp [Run.bind, h, Run.ext_iff])
  (fun a k => by
    show Run.bind _ k = _
    simp [Run.bind, pure])
  (fun x k l => by
    cases h : x.out with
    | error e => simp only [bind_of_error h]; rw [bind_of_error rfl]
    | ok a =>
      rw [bind_of_ok h, bind_of_ok h]
      cases hk : (k a).out with
      | error e => rw [bind_of_error rfl, bind_of_error hk]
      | ok b => rw [bind_of_ok rfl, bind_of_ok hk, append_assoc])

@[simp] lemma out_pure (a : α) : (pure a : Run ρ ε α).out = .ok a := rfl

@[simp] lemma out_emit (r : ρ) : (emit r : Run ρ ε Unit).out = .ok () := rfl

@[simp] lemma out_lift (x : Except ε α) : (lift x : Run ρ ε α).out = x := rfl

@[simp] lemma out_bind (x : Run ρ ε α) (k : α → Run ρ ε β) :
    (x >>= k).out = x.out >>= fun a => (k a).out := by
  cases h : x.out with
  | error e => rw [bind_of_error h]; rfl
  | ok a => rw [bind_of_ok h]; rfl

/-! ## Events and results of a program text -/

section

variable {x : Run ρ ε α} {k : α → Run ρ ε β} {r s : ρ} {a b : α} {e : ε}

@[simp] lemma emits_pure : ¬ (pure a : Run ρ ε α).Emits r := not_mem_nil

@[simp] lemma yields_pure : (pure a : Run ρ ε α).Yields b ↔ a = b := by
  simp [Yields, pure]

@[simp] lemma emits_emit : (emit s : Run ρ ε Unit).Emits r ↔ r = s := mem_singleton

@[simp] lemma yields_emit {u : Unit} : (emit s : Run ρ ε Unit).Yields u ↔ True := by
  simp [Yields, emit]

section

variable {c : Prop} {u : Unit} {y : Except ε α} {bad : Prop} {b : β} {ρ' : Type} {g : ρ → ρ'}
  {ε' : Type}

@[simp] lemma emits_emitIf [Decidable c] : (emitIf c s : Run ρ ε Unit).Emits r ↔ c ∧ r = s := by
  unfold emitIf
  by_cases h : c
  · simp [h]
  · simp [h]

@[simp] lemma yields_emitIf [Decidable c] : (emitIf c s : Run ρ ε Unit).Yields u ↔ True := by
  unfold emitIf
  by_cases h : c
  · simp [h]
  · simp [h]

@[simp] lemma emits_fail : ¬ (fail e : Run ρ ε α).Emits r := not_mem_nil

@[simp] lemma yields_fail : ¬ (fail e : Run ρ ε α).Yields a := by
  simp [Yields, fail]

@[simp] lemma emits_lift : ¬ (lift y : Run ρ ε α).Emits r := not_mem_nil

@[simp] lemma yields_lift : (lift y : Run ρ ε α).Yields a ↔ y = .ok a := Iff.rfl

@[simp] lemma emits_check [Decidable bad] : ¬ (check bad e : Run ρ ε Unit).Emits r := not_mem_nil

@[simp] lemma yields_check [Decidable bad] : (check bad e : Run ρ ε Unit).Yields u ↔ ¬ bad := by
  unfold check reject
  by_cases h : bad
  · simp [h]
  · simp [h]

@[simp] lemma emits_bind : (x >>= k).Emits r ↔ x.Emits r ∨ ∃ a, x.Yields a ∧ (k a).Emits r := by
  unfold Emits Yields
  cases h : x.out with
  | error e => simp [bind_of_error h]
  | ok a => simp [bind_of_ok h]

@[simp] lemma yields_bind : (x >>= k).Yields b ↔ ∃ a, x.Yields a ∧ (k a).Yields b := by
  unfold Yields
  cases h : x.out with
  | error e => simp [bind_of_error h]
  | ok a => simp [bind_of_ok h]

@[simp] lemma emits_map {g : α → β} : (g <$> x).Emits r ↔ x.Emits r := by
  rw [← bind_pure_comp, emits_bind]
  simp only [emits_pure, and_false, exists_false, or_false]

@[simp] lemma yields_map {g : α → β} : (g <$> x).Yields b ↔ ∃ a, x.Yields a ∧ g a = b := by
  rw [← bind_pure_comp, yields_bind]
  simp only [yields_pure]

@[simp] lemma emits_via {r : ρ'} : (x.via g).Emits r ↔ ∃ r', x.Emits r' ∧ g r' = r := mem_map

@[simp] lemma yields_via : (x.via g).Yields a ↔ x.Yields a := Iff.rfl

@[simp] lemma emits_mapError {g : ε → ε'} : (x.mapError g).Emits r ↔ x.Emits r := Iff.rfl

@[simp] lemma yields_mapError {g : ε → ε'} : (x.mapError g).Yields a ↔ x.Yields a := by
  unfold mapError Yields
  exact mapError_eq_ok

end

@[simp] lemma yields_onError : (x.onError r).Yields a ↔ x.Yields a := by
  unfold onError Yields
  cases h : x.out with
  | error e => simp
  | ok b => simp

/-- The added event apart, the events are those of the run. -/
theorem emits_onError (hne : s ≠ r) : (x.onError r).Emits s ↔ x.Emits s := by
  unfold onError Emits
  cases h : x.out with
  | error e => simp [hne]
  | ok b => simp

lemma exists_yields_of_isOk (h : x.out.isOk = true) : ∃ a, x.Yields a := by
  unfold Yields
  cases hout : x.out with
  | error e =>
    rw [hout] at h
    cases h
  | ok a => exact ⟨a, rfl⟩

lemma Yields.unique (ha : x.Yields a) (hb : x.Yields b) : a = b := by
  unfold Yields at ha hb
  rw [ha] at hb
  exact Except.ok.inj hb

end

section

variable {step : σ → ℕ → Run ρ ε σ} {s t : σ} {n : ℕ} {r : ρ}

lemma yields_foldlM_range_succ : ((List.range (n + 1)).foldlM step s).Yields t ↔
      ∃ u, ((List.range n).foldlM step s).Yields u ∧ (step u n).Yields t := by
  rw [range_succ, foldlM_append]
  simp

lemma yields_foldlM_range_invariant (I : ℕ → σ → Prop) (hstart : I 0 s)
    (hstep : ∀ k u v, I k u → (step u k).Yields v → I (k + 1) v)
    (h : ((List.range n).foldlM step s).Yields t) : I n t := by
  induction n generalizing t with
  | zero =>
    rw [range_zero, foldlM_nil, yields_pure] at h
    rwa [← h]
  | succ n ih =>
    obtain ⟨u, hu, ht⟩ := yields_foldlM_range_succ.mp h
    exact hstep n u t (ih hu) ht

lemma emits_foldlM_range : ((List.range n).foldlM step s).Emits r ↔
      ∃ k < n, ∃ u, ((List.range k).foldlM step s).Yields u ∧ (step u k).Emits r := by
  induction n with
  | zero => simp
  | succ n ih =>
    rw [range_succ, foldlM_append, emits_bind, ih]
    constructor
    · rintro (⟨k, hk, u, hu, hr⟩ | ⟨u, hu, hr⟩)
      · exact ⟨k, by omega, u, hu, hr⟩
      · exact ⟨n, by omega, u, hu, by simpa using hr⟩
    · rintro ⟨k, hk, u, hu, hr⟩
      rcases Nat.lt_succ_iff_lt_or_eq.mp hk with hk | rfl
      · exact .inl ⟨k, hk, u, hu, hr⟩
      · exact .inr ⟨u, hu, by simpa using hr⟩

end

section

variable {step : σ → α → Run ρ ε σ} {s t : σ} {r : ρ}

/-- The events of a loop that never fails and whose rounds do not look at the state for `r`. -/
theorem emits_foldlM_iff {E : α → Prop} (hyields : ∀ s a, ∃ t, (step s a).Yields t)
    (hemits : ∀ s a, (step s a).Emits r ↔ E a) (l : List α) :
    (l.foldlM step s).Emits r ↔ ∃ a ∈ l, E a := by
  induction l generalizing s with
  | nil => simp
  | cons a l ih =>
    obtain ⟨t, ht⟩ := hyields s a
    rw [foldlM_cons, emits_bind, hemits s a, exists_mem_cons_iff]
    refine or_congr_right ⟨?_, ?_⟩
    · rintro ⟨u, -, h⟩
      exact ih.mp h
    · intro h
      exact ⟨t, ht, ih.mpr h⟩

lemma exists_emits_of_foldlM {l : List α} (h : (l.foldlM step s).Emits r) :
    ∃ a ∈ l, ∃ u, (step u a).Emits r := by
  induction l generalizing s with
  | nil =>
    rw [foldlM_nil] at h
    exact absurd h emits_pure
  | cons a l ih =>
    rw [foldlM_cons, emits_bind] at h
    rcases h with h | ⟨u, -, h⟩
    · exact ⟨a, mem_cons_self, s, h⟩
    · obtain ⟨b, hb, u, hu⟩ := ih h
      exact ⟨b, mem_cons_of_mem _ hb, u, hu⟩

lemma yields_foldlM_invariant (I : σ → Prop) (hstep : ∀ u v a, I u → (step u a).Yields v → I v)
    {l : List α} (hstart : I s) (h : (l.foldlM step s).Yields t) : I t := by
  induction l generalizing s with
  | nil =>
    rw [foldlM_nil, yields_pure] at h
    rwa [← h]
  | cons a l ih =>
    rw [foldlM_cons, yields_bind] at h
    obtain ⟨u, hu, h⟩ := h
    exact ih (hstep s u a hstart hu) h

lemma yields_foldlM_iff {g : σ → α → σ} (hstep : ∀ u a v, (step u a).Yields v ↔ v = g u a)
    {l : List α} : (l.foldlM step s).Yields t ↔ t = l.foldl g s := by
  induction l generalizing s with
  | nil => rw [foldlM_nil, yields_pure, foldl_nil, eq_comm]
  | cons a l ih =>
    rw [foldlM_cons, yields_bind, foldl_cons]
    simp only [hstep, exists_eq_left, ih]

end

section

variable {E : ρ → Prop} {r : ρ}

/-- All events of the run are in `E`. -/
def Only (E : ρ → Prop) (x : Run ρ ε α) : Prop := ∀ r, x.Emits r → E r

@[simp] lemma only_pure {a : α} : Only E (pure a : Run ρ ε α) := fun _ hr => absurd hr emits_pure

@[simp] lemma only_emit : Only E (emit r : Run ρ ε Unit) ↔ E r := by
  simp only [Only, emits_emit, forall_eq]

@[simp] lemma only_map {x : Run ρ ε α} {g : α → β} : Only E (g <$> x) ↔ Only E x := by
  simp only [Only, emits_map]

@[simp] lemma only_discard {x : Run ρ ε α} : Only E (discard x) ↔ Only E x := only_map

lemma only_ite {c : Prop} [Decidable c] {x y : Run ρ ε α} :
    Only E (if c then x else y) ↔ (c → Only E x) ∧ (¬ c → Only E y) := by
  split <;> simp [*]

end

section

variable {E : ρ → Prop} {r : ρ} {x : Run ρ Empty α} {k : α → Run ρ Empty β}

lemma value_of_yields {a : α} (h : x.Yields a) : x.value = a :=
  Except.ok.inj (x.yields_value.symm.trans h)

lemma yields_iff_value {a : α} : x.Yields a ↔ x.value = a :=
  ⟨value_of_yields, fun h => h ▸ x.yields_value⟩

@[simp] lemma value_pure {a : α} : (pure a : Run ρ Empty α).value = a :=
  value_of_yields (yields_pure.mpr rfl)

@[simp] lemma value_emit {u : Unit} : (emit r : Run ρ Empty Unit).value = u := rfl

@[simp] lemma value_bind : (x >>= k).value = (k x.value).value :=
  value_of_yields (yields_bind.mpr ⟨x.value, x.yields_value, (k x.value).yields_value⟩)

@[simp] lemma value_map {g : α → β} : (g <$> x).value = g x.value :=
  value_of_yields (yields_map.mpr ⟨x.value, x.yields_value, rfl⟩)

lemma value_ite {c : Prop} [Decidable c] {y : Run ρ Empty α} :
    (if c then x else y).value = if c then x.value else y.value := by
  split <;> rfl

@[simp] lemma only_bind : Only E (x >>= k) ↔ Only E x ∧ Only E (k x.value) := by
  simp only [Only, emits_bind]
  constructor
  · intro h
    exact ⟨fun r hr => h r (.inl hr), fun r hr => h r (.inr ⟨x.value, x.yields_value, hr⟩)⟩
  · rintro ⟨hx, hk⟩ r (hr | ⟨a, ha, hr⟩)
    · exact hx r hr
    · rw [← value_of_yields ha] at hr
      exact hk r hr

section

variable {I : σ → Prop} {step : σ → α → Run ρ Empty σ} (hkeep : ∀ s a, I s → I (step s a).value)
  {l : List α} {s : σ}
include hkeep

/-- A loop over a list whose rounds keep `I`, and whose events depend on the element alone. -/
theorem only_foldlM_iff {P : α → Prop} (honly : ∀ s a, I s → (Only E (step s a) ↔ P a)) (hs : I s) :
    Only E (l.foldlM step s) ↔ ∀ a ∈ l, P a := by
  induction l generalizing s with
  | nil => simp
  | cons a l ih =>
    rw [foldlM_cons, only_bind, honly s a hs, ih (hkeep s a hs), forall_mem_cons]

lemma value_foldlM (hs : I s) : I (l.foldlM step s).value :=
  yields_foldlM_invariant I (fun u _ a hu hv => value_of_yields hv ▸ hkeep u a hu) hs
    (Run.yields_value _)

end

end

section

variable {E : ρ → Prop} {P Q : α → Prop} {R : β → Prop} {x : Run ρ ε α} {k : α → Run ρ ε β}

/-- The run ends in a value that has `Q`, and all its events are in `E`. -/
def Ensures (E : ρ → Prop) (x : Run ρ ε α) (Q : α → Prop) : Prop :=
  (∃ a, x.Yields a ∧ Q a) ∧ Only E x

lemma ensures_pure {a : α} (h : Q a) : Ensures E (pure a : Run ρ ε α) Q :=
  ⟨⟨a, yields_pure.mpr rfl, h⟩, fun _ hr => absurd hr emits_pure⟩

lemma Ensures.bind (hx : Ensures E x P) (hk : ∀ a, P a → Ensures E (k a) R) :
    Ensures E (x >>= k) R := by
  obtain ⟨⟨a, ha, hp⟩, hex⟩ := hx
  obtain ⟨⟨b, hb, hr⟩, hek⟩ := hk a hp
  refine ⟨⟨b, yields_bind.mpr ⟨a, ha, hb⟩, hr⟩, ?_⟩
  intro r hr
  rcases emits_bind.mp hr with hr | ⟨a', ha', hr⟩
  · exact hex r hr
  · have : a' = a := Except.ok.inj (ha'.symm.trans ha)
    exact hek r (this ▸ hr)

lemma Ensures.emit_bind {r : ρ} {y : Unit → Run ρ ε β} (hr : E r) (hy : Ensures E (y ()) R) :
    Ensures E (emit r >>= y) R := by
  refine Ensures.bind (P := fun _ => True) ⟨⟨(), by simp⟩, fun s hs => ?_⟩ fun _ _ => hy
  rwa [emits_emit.mp hs]

lemma ensures_ite {c : Prop} [Decidable c] {y : Run ρ ε α} (hx : c → Ensures E x Q)
    (hy : ¬ c → Ensures E y Q) : Ensures E (if c then x else y) Q := by
  split
  · exact hx ‹_›
  · exact hy ‹_›

lemma ensures_foldlM {I : σ → Prop} {step : σ → α → Run ρ ε σ}
    (hstep : ∀ s a, I s → Ensures E (step s a) I) (l : List α) {s : σ} (hs : I s) :
    Ensures E (l.foldlM step s) I := by
  induction l generalizing s with
  | nil =>
    rw [foldlM_nil]
    exact ensures_pure hs
  | cons a l ih =>
    rw [foldlM_cons]
    exact (hstep s a hs).bind fun t ht => ih ht

end

end Run

end Shim.Lib
