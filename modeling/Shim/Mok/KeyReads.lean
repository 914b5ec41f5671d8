import Shim.Mok.KeyFormat

/-!
# What the walks over a key list read

Both `count_keys` and `build_mok_list` read the size of a list in the condition of their loop, before
they test that there is room for its header.
-/

namespace Shim.Mok

open Lib Verify Run

def InBuffer (size : ℕ) : Access → Prop
  | .read off len => off + len ≤ size
  | .write off len => off + len ≤ size

/-- For `build_mok_list`, whose array is another matter. -/
def ListEvent.InBuffer (size : ℕ) : ListEvent → Prop
  | .buffer a => Mok.InBuffer size a
  | .node _ => True

inductive ListAt (db : SigDb) (accepts : ℕ → Prop) : ℕ → Prop
  | first : ListAt db accepts 0
  | next {o : ℕ} (h : ListAt db accepts o) (ho : accepts o) :
      ListAt db accepts (o + db.signatureListSize o)

variable {db : SigDb}

lemma countKeysRound_inside_iff (o num : ℕ) :
    (countKeysRound db (o, num)).Only (InBuffer db.size) ↔ (o < db.size → o + 20 ≤ db.size) := by
  unfold countKeysRound
  simp only [only_ite, only_bind, only_emit, only_pure, InBuffer, implies_true,
    true_and, and_true, not_le]
  constructor
  · intro h hin
    exact (h hin).1
  · intro h hin
    have hsize : sizeofSignatureList = 28 := rfl
    exact ⟨h hin, fun _ _ => ⟨by omega, fun _ => by omega⟩⟩

lemma buildMokListRound_inside_iff (o : ℕ) (list : List MokListNode) :
    (buildMokListRound db (o, list)).Only (ListEvent.InBuffer db.size) ↔
      (o < db.size → o + 20 ≤ db.size) := by
  unfold buildMokListRound
  simp only [only_ite, only_bind, only_emit, only_pure, ListEvent.InBuffer, InBuffer, implies_true,
    true_and, and_true, not_le, sizeofSignatureList]
  constructor
  · intro h hin
    exact (h hin).1
  · intro h hin
    exact ⟨h hin, fun _ _ => ⟨by omega, fun _ => by omega⟩⟩

section

variable {ρ σ α : Type} {step : ℕ × σ → Run ρ Empty ((ℕ × σ) ⊕ α)} {accepts : ℕ → Prop}
  {after : ℕ → σ → σ} {x : σ} {inside : ρ → Prop}

lemma reaches_iff_listAt (hstep : ∀ o x s', Run.Continues step (o, x) s' ↔
      accepts o ∧ (o + db.signatureListSize o, after o x) = s') (o : ℕ) :
    (∃ y, Run.Reaches step (0, x) (o, y)) ↔ ListAt db accepts o := by
  constructor
  · rintro ⟨y, h⟩
    suffices hall : ∀ s, Run.Reaches step (0, x) s → ListAt db accepts s.1 from hall _ h
    intro s hs
    induction hs with
    | refl => exact .first
    | @tail s t _ hnext ih =>
      obtain ⟨ho, rfl⟩ := (hstep s.1 s.2 t).mp hnext
      exact ih.next ho
  · intro h
    induction h with
    | first => exact ⟨x, .refl⟩
    | @next o _ ho ih =>
      obtain ⟨y, hy⟩ := ih
      exact ⟨_, hy.tail ((hstep o y _).mpr ⟨ho, rfl⟩)⟩

/-- The reads of a loop that goes from list to list, in terms of what it accepts. -/
theorem only_loop_iff (db : SigDb) (hstep : ∀ o x s', Run.Continues step (o, x) s' ↔
      accepts o ∧ (o + db.signatureListSize o, after o x) = s')
    (hadvances : ∀ s s', Run.Continues step s s' → s.1 < s'.1 ∧ s'.1 ≤ db.size)
    (hinside : ∀ o x, (step (o, x)).Only inside ↔ (o < db.size → o + 20 ≤ db.size)) :
    (Run.loop step (db.size + 1) (0, x)).Only inside ↔
      ∀ o, ListAt db accepts o → o < db.size → o + 20 ≤ db.size := by
  have hvariant : Run.Variant step fun s => db.size - s.1 := by
    intro s s' h
    obtain ⟨hlt, hle⟩ := hadvances s s' h
    exact .inr (by dsimp only; omega)
  constructor
  · intro h o ho
    obtain ⟨y, hy⟩ := (reaches_iff_listAt hstep o).mpr ho
    refine (hinside o y).mp fun r hr => h r ?_
    exact (loop_emits hvariant (by dsimp only; omega)).mpr ⟨_, hy, hr⟩
  · intro h r hr
    obtain ⟨⟨o, y⟩, hy, hr⟩ := reaches_of_loop_emits hr
    exact (hinside o y).mpr (h o ((reaches_iff_listAt hstep o).mp ⟨y, hy⟩)) r hr

end

/-- The two functions read inside the buffer iff, for each of them, there are twenty bytes or none at
the end of the lists that it accepts. -/
theorem keyReads_inside_iff (db : SigDb) : ((countKeys db).Only (InBuffer db.size) ∧
        ∀ alloc, (buildMokList db alloc).Only (ListEvent.InBuffer db.size)) ↔
      ∀ o, ListAt db (CountAccepts db) o ∨ ListAt db (BuildAccepts db) o →
        o < db.size → o + 20 ≤ db.size := by
  have hcount := only_loop_iff db (x := 0) (fun _ _ _ => countKeysRound_continues_iff)
    (fun _ _ => countKeysRound_continues) countKeysRound_inside_iff
  have hbuild := only_loop_iff db (x := []) (fun _ _ _ => buildMokListRound_continues_iff)
    (fun _ _ => buildMokListRound_continues) buildMokListRound_inside_iff
  have halloc : (∀ alloc, (buildMokList db alloc).Only (ListEvent.InBuffer db.size)) ↔
      (Run.loop (buildMokListRound db) (db.size + 1) (0, [])).Only (ListEvent.InBuffer db.size) := by
    simp [buildMokList]
  rw [halloc, hbuild, countKeys, only_map, hcount]
  simp only [or_imp, forall_and]

/-- One byte behind a list: the size of the next list is read from behind the buffer. -/
theorem countKeys_reads_behind :
    let list := certTypeX509Guid ++ u32Bytes 45 ++ u32Bytes 0 ++ u32Bytes 17 ++ shimLockGuid ++ [0x30]
    (countKeys ⟨.ofBytes (list ++ [0]), 46⟩).Emits (.read 61 4) := by
  decide +kernel

end Shim.Mok
