import Shim.Efi
import Shim.Lib.CStr
import Shim.Verify.SigDb

/-!
# Questions for characters of a password

A request to change the state of Secure Boot, of the database or of the trust in the MOK list comes
with a password of up to 16 characters. `mok_sb_prompt`, `mok_db_prompt` and `mok_tml_prompt` ask for
three characters of it. None of them looks at the length of the password before it divides by it.
-/

namespace Shim.Mok

open Lib Verify List Run

def sbPasswordLen : ℕ := 16

def stateRequestSize : ℕ := 8 + 2 * sbPasswordLen

def requestState (data : Mem) : ℕ := data.u32 0

def pwLen (data : Mem) : ℕ := data.u32 4

/-- `Password[i]`; behind the array, what follows the request in memory. -/
def passwordChar (data : Mem) (i : ℕ) : ℕ := data.u16 (8 + 2 * i)

inductive ChallengeEvent where
  | ask (pos : ℕ)
  | index (pos : ℕ)
  deriving DecidableEq, Repr

structure ChallengeInput where
  random : UInt8
  /-- What `get_password_charater` returns. -/
  typed : ℕ
  pool : Bool

structure Positions where
  pos1 : ℕ
  pos2 : ℕ
  pos3 : ℕ
  deriving DecidableEq, Repr

/-- Where the loop is: before the draw of a position, before a question, or behind the loop. -/
inductive ChallengeState where
  | first (failCount : ℕ)
  | second (failCount pos1 : ℕ)
  | third (failCount pos1 pos2 : ℕ)
  | ask1 (failCount : ℕ) (pos : Positions)
  | ask2 (failCount : ℕ) (pos : Positions) (pass1 : ℕ)
  | ask3 (failCount : ℕ) (pos : Positions) (pass1 pass2 : ℕ)
  | passed
  | returned (status : EfiStatus)
  deriving DecidableEq, Repr

section

variable (data : Mem)

def drawPosition (random : UInt8) : Run ChallengeEvent Fault ℕ :=
  if pwLen data = 0 then .fail .divideError else return random.toNat % pwLen data

def askCharacter (i : ChallengeInput) (pos : ℕ) (next : Run ChallengeEvent Fault ChallengeState) :
    Run ChallengeEvent Fault ChallengeState :=
  if i.pool = false then return .returned .outOfResources
  else do
    .emit (.ask pos)
    next

def compareCharacter (failCount pos pass : ℕ) (next : Run ChallengeEvent Fault ChallengeState) :
    Run ChallengeEvent Fault ChallengeState := do
  .emit (.index pos)
  if pass ≠ passwordChar data pos then return .first (failCount + 1) else next

def challengeStep (s : ChallengeState) (i : ChallengeInput) :
    Run ChallengeEvent Fault ChallengeState :=
  match s with
  | .first failCount =>
    if failCount < 3 then do
      let pos1 ← drawPosition data i.random
      return .second failCount pos1
    else return .returned .accessDenied
  | .second failCount pos1 => do
      let pos2 ← drawPosition data i.random
      if pos2 = pos1 then return .second failCount pos1 else return .third failCount pos1 pos2
  | .third failCount pos1 pos2 => do
      let pos3 ← drawPosition data i.random
      if pos3 = pos2 ∨ pos3 = pos1 then return .third failCount pos1 pos2
      else return .ask1 failCount ⟨pos1, pos2, pos3⟩
  | .ask1 failCount pos => askCharacter i pos.pos1 (return .ask2 failCount pos i.typed)
  | .ask2 failCount pos pass1 => askCharacter i pos.pos2 (return .ask3 failCount pos pass1 i.typed)
  | .ask3 failCount pos pass1 pass2 =>
    askCharacter i pos.pos3 <| compareCharacter data failCount pos.pos1 pass1 <|
      compareCharacter data failCount pos.pos2 pass2 <|
      compareCharacter data failCount pos.pos3 i.typed (return .passed)
  | .passed => return .passed
  | .returned status => return .returned status

def challengeRun (inputs : List ChallengeInput) : Run ChallengeEvent Fault ChallengeState :=
  inputs.foldlM (challengeStep data) (.first 0)

end

/-! ## The prompts -/

/-- What the three functions differ in: their texts, the variables of the request and of the state,
and whether a state of zero sets it. -/
structure StatePrompt where
  title : String
  invalid : String
  askZero : String
  askNonzero : String
  /-- The variable that is deleted when the answer is no. -/
  request : String
  target : String
  /-- A state of zero sets the variable to one; otherwise it deletes it. -/
  zeroSets : Bool
  setFailed : String
  deleteFailed : String

structure PromptEnd where
  yes : Bool
  setVariable : EfiStatus

structure PromptResult where
  status : EfiStatus
  texts : List String
  writes : List (String × List UInt8)
  deriving DecidableEq, Repr

def StatePrompt.finish (p : StatePrompt) (data : Mem) (e : PromptEnd) : PromptResult :=
  let question := if requestState data = 0 then p.askZero else p.askNonzero
  if e.yes = false then ⟨.aborted, [p.title, question], [(p.request, [])]⟩
  else
    let sets := decide (requestState data = 0) == p.zeroSets
    let writes := [(p.target, if sets then [1] else [])]
    if e.setVariable ≠ .success then
      ⟨e.setVariable, [p.title, question, if sets then p.setFailed else p.deleteFailed], writes⟩
    else ⟨.success, [p.title, question], writes⟩

/-- A prompt, for a request of `size` bytes. It has no result as long as it waits for input. -/
def StatePrompt.run (p : StatePrompt) (data : Mem) (size : ℕ) (inputs : List ChallengeInput)
    (e : PromptEnd) : Run ChallengeEvent Fault (Option PromptResult) :=
  if size ≠ stateRequestSize then return some ⟨.invalidParameter, [p.invalid], []⟩
  else do
    match ← challengeRun data inputs with
    | .passed => return some (p.finish data e)
    | .returned .accessDenied =>
      return some ⟨.accessDenied, [p.title, "Password limit reached"], []⟩
    | .returned status => return some ⟨status, [p.title, "Failed to allocate buffer"], []⟩
    | _ => return none

def mokSbPrompt : StatePrompt where
  title := "Change Secure Boot state"
  invalid := "Invalid MokSB variable contents"
  askZero := "Disable Secure Boot"
  askNonzero := "Enable Secure Boot"
  request := "MokSB"
  target := "MokSBState"
  zeroSets := true
  setFailed := "Failed to set Secure Boot state"
  deleteFailed := "Failed to delete Secure Boot state"

def mokDbPrompt : StatePrompt where
  title := "Change DB state"
  invalid := "Invalid MokDB variable contents"
  askZero := "Ignore DB certs/hashes"
  askNonzero := "Use DB certs/hashes"
  request := "MokDB"
  target := "MokDBState"
  zeroSets := true
  setFailed := "Failed to set DB state"
  deleteFailed := "Failed to delete DB state"

def mokTmlPrompt : StatePrompt where
  title := "Change Trusted MOK List Keyring state"
  invalid := "Invalid MokTML variable contents"
  askZero := "Trust the MOK list"
  askNonzero := "Do not trust the MOK list"
  request := "MokListTrustedNew"
  target := "MokListTrusted"
  zeroSets := false
  setFailed := "Failed to set MokListTrusted state"
  deleteFailed := "Failed to delete MokListTrusted state"

def ChallengeState.Draws : ChallengeState → Prop
  | .first failCount => failCount < 3
  | .second _ _ => True
  | .third _ _ _ => True
  | _ => False

structure Positions.Distinct (pos : Positions) : Prop where
  pos12 : pos.pos1 ≠ pos.pos2
  pos13 : pos.pos1 ≠ pos.pos3
  pos23 : pos.pos2 ≠ pos.pos3

/-- The loop divides by no zero, reads and asks inside the password, and while it draws, some
further draws end the drawing. -/
structure ChallengeSound (data : Mem) : Prop where
  runs : ∀ inputs, ∃ s, (challengeRun data inputs).Yields s
  index : ∀ inputs pos, (challengeRun data inputs).Emits (.index pos) →
    pos < pwLen data ∧ pos < sbPasswordLen
  ask : ∀ inputs pos, (challengeRun data inputs).Emits (.ask pos) →
    pos < pwLen data ∧ pos < sbPasswordLen
  settles : ∀ inputs s, (challengeRun data inputs).Yields s → s.Draws →
    ∃ more failCount pos, (challengeRun data (inputs ++ more)).Yields (.ask1 failCount pos) ∧
      pos.Distinct

/-! ## What a run keeps -/

def ChallengeEvent.Below (len : ℕ) : ChallengeEvent → Prop
  | .ask pos => pos < len
  | .index pos => pos < len

structure Positions.Placed (len : ℕ) (pos : Positions) : Prop extends pos.Distinct where
  lt1 : pos.pos1 < len
  lt2 : pos.pos2 < len
  lt3 : pos.pos3 < len

def ChallengeState.Placed (len : ℕ) : ChallengeState → Prop
  | .second _ pos1 => pos1 < len
  | .third _ pos1 pos2 => pos1 < len ∧ pos2 < len ∧ pos1 ≠ pos2
  | .ask1 _ pos => pos.Placed len
  | .ask2 _ pos _ => pos.Placed len
  | .ask3 _ pos _ _ => pos.Placed len
  | _ => True

section

variable {data : Mem} {i : ChallengeInput} {failCount pos pass : ℕ} {s : ChallengeState}
variable {E : ChallengeEvent → Prop} {Q : ChallengeState → Prop}
variable {next : Run ChallengeEvent Fault ChallengeState}

lemma drawPosition_eq (h : 0 < pwLen data) (random : UInt8) :
    drawPosition data random = pure (random.toNat % pwLen data) :=
  if_neg h.ne'

lemma drawPosition_ensures (h : 0 < pwLen data) (random : UInt8) :
    Run.Ensures E (drawPosition data random) (· < pwLen data) := by
  rw [drawPosition_eq h]
  exact ensures_pure (Nat.mod_lt _ h)

lemma askCharacter_ensures (hpos : E (.ask pos)) (hq : ∀ status, Q (.returned status))
    (hnext : Run.Ensures E next Q) : Run.Ensures E (askCharacter i pos next) Q := by
  unfold askCharacter
  apply ensures_ite
  · intro _
    exact ensures_pure (hq _)
  · intro _
    exact .emit_bind hpos hnext

lemma compareCharacter_ensures (hpos : E (.index pos)) (hq : ∀ n, Q (.first n))
    (hnext : Run.Ensures E next Q) :
    Run.Ensures E (compareCharacter data failCount pos pass next) Q := by
  unfold compareCharacter
  refine .emit_bind hpos (ensures_ite ?_ fun _ => hnext)
  intro _
  exact ensures_pure (hq _)

/-- One step divides by a length that is not zero, touches positions below it, and keeps the
positions drawn below it and distinct. -/
theorem challengeStep_placed (h : 0 < pwLen data) (s : ChallengeState) (i : ChallengeInput)
    (hs : s.Placed (pwLen data)) :
    Run.Ensures (ChallengeEvent.Below (pwLen data)) (challengeStep data s i)
      (ChallengeState.Placed (pwLen data)) := by
  cases s with
  | first failCount =>
    apply ensures_ite
    · intro _
      exact (drawPosition_ensures h _).bind fun pos1 h1 => ensures_pure h1
    · intro _
      exact ensures_pure trivial
  | second failCount pos1 =>
    refine (drawPosition_ensures h _).bind fun pos2 h2 => ensures_ite ?_ ?_
    · intro _
      exact ensures_pure hs
    · intro hne
      exact ensures_pure ⟨hs, h2, fun h => hne h.symm⟩
  | third failCount pos1 pos2 =>
    obtain ⟨h1, h2, h12⟩ := hs
    refine (drawPosition_ensures h _).bind fun pos3 h3 => ensures_ite ?_ ?_
    · intro _
      exact ensures_pure ⟨h1, h2, h12⟩
    · intro hne
      rw [not_or] at hne
      exact ensures_pure ⟨⟨h12, fun h => hne.2 h.symm, fun h => hne.1 h.symm⟩, h1, h2, h3⟩
  | ask1 failCount pos =>
    exact askCharacter_ensures hs.lt1 (fun _ => trivial) (ensures_pure hs)
  | ask2 failCount pos pass1 =>
    exact askCharacter_ensures hs.lt2 (fun _ => trivial) (ensures_pure hs)
  | ask3 failCount pos pass1 pass2 =>
    apply askCharacter_ensures hs.lt3 fun _ => trivial
    apply compareCharacter_ensures hs.lt1 fun _ => trivial
    apply compareCharacter_ensures hs.lt2 fun _ => trivial
    apply compareCharacter_ensures hs.lt3 fun _ => trivial
    exact ensures_pure trivial
  | passed => exact ensures_pure trivial
  | returned status => exact ensures_pure trivial

lemma challengeRun_placed (h : 0 < pwLen data) (inputs : List ChallengeInput) :
    Run.Ensures (ChallengeEvent.Below (pwLen data)) (challengeRun data inputs)
      (ChallengeState.Placed (pwLen data)) :=
  ensures_foldlM (challengeStep_placed h) inputs trivial

lemma placed_of_challengeRun (h : 0 < pwLen data) {inputs : List ChallengeInput}
    (hs : (challengeRun data inputs).Yields s) : s.Placed (pwLen data) := by
  obtain ⟨⟨t, ht, hp⟩, -⟩ := challengeRun_placed h inputs
  rwa [Except.ok.inj (hs.symm.trans ht)]

lemma challengeRun_append {inputs more : List ChallengeInput} {t : ChallengeState}
    (hs : (challengeRun data inputs).Yields s) :
    (challengeRun data (inputs ++ more)).Yields t ↔
      (more.foldlM (challengeStep data) s).Yields t := by
  rw [challengeRun, foldlM_append, yields_bind]
  constructor
  · rintro ⟨u, hu, ht⟩
    rwa [Except.ok.inj (hs.symm.trans hu)]
  · intro ht
    exact ⟨s, hs, ht⟩

/-! ## Draws that lead to the questions -/

def drawing (pos : ℕ) : ChallengeInput := ⟨UInt8.ofNat pos, 0, true⟩

section

variable (hpos : pos < pwLen data)
include hpos

lemma drawPosition_drawing (hbyte : pos < 256) :
    drawPosition data (drawing pos).random = pure pos := by
  rw [drawPosition_eq (by omega), drawing, UInt8.toNat_ofNat_of_lt' hbyte, Nat.mod_eq_of_lt hpos]

lemma challengeStep_first (hbyte : pos < 256) (hf : failCount < 3) :
    challengeStep data (.first failCount) (drawing pos) = pure (.second failCount pos) := by
  rw [challengeStep, if_pos hf, drawPosition_drawing hpos hbyte, pure_bind]

lemma challengeStep_second {pos1 : ℕ} (hbyte : pos < 256)
    (hne : pos ≠ pos1) :
    challengeStep data (.second failCount pos1) (drawing pos) =
      pure (.third failCount pos1 pos) := by
  rw [challengeStep, drawPosition_drawing hpos hbyte, pure_bind, if_neg hne]

lemma challengeStep_third {pos1 pos2 : ℕ} (hbyte : pos < 256)
    (hne1 : pos ≠ pos1) (hne2 : pos ≠ pos2) :
    challengeStep data (.third failCount pos1 pos2) (drawing pos) =
      pure (.ask1 failCount ⟨pos1, pos2, pos⟩) := by
  rw [challengeStep, drawPosition_drawing hpos hbyte, pure_bind, if_neg (not_or.mpr ⟨hne2, hne1⟩)]

end

lemma exists_fresh (pos1 pos2 : ℕ) : ∃ pos < 3, pos ≠ pos1 ∧ pos ≠ pos2 := by
  by_cases h0 : 0 = pos1 ∨ 0 = pos2
  · by_cases h1 : 1 = pos1 ∨ 1 = pos2
    · exact ⟨2, by omega, by omega, by omega⟩
    · exact ⟨1, by omega, by omega, by omega⟩
  · exact ⟨0, by omega, by omega, by omega⟩

def Settles (data : Mem) (s : ChallengeState) : Prop :=
  ∃ (more : List ChallengeInput) (failCount : ℕ) (pos : Positions),
    (more.foldlM (challengeStep data) s).Yields (.ask1 failCount pos) ∧ pos.Distinct

lemma settles_of_step {t : ChallengeState} (hstep : challengeStep data s i = pure t)
    (h : Settles data t) : Settles data s := by
  obtain ⟨more, failCount, pos, hyields, hd⟩ := h
  refine ⟨i :: more, failCount, pos, ?_, hd⟩
  rwa [foldlM_cons, hstep, pure_bind]

lemma settles_third {pos1 pos2 : ℕ} (h : 3 ≤ pwLen data) (h12 : pos1 ≠ pos2) :
    Settles data (.third failCount pos1 pos2) := by
  obtain ⟨pos, hlt, hne1, hne2⟩ := exists_fresh pos1 pos2
  refine settles_of_step (challengeStep_third (by omega) (by omega) hne1 hne2) ?_
  exact ⟨[], failCount, _, yields_pure.mpr rfl, h12, hne1.symm, hne2.symm⟩

lemma settles_second {pos1 : ℕ} (h : 3 ≤ pwLen data) : Settles data (.second failCount pos1) := by
  obtain ⟨pos, hlt, hne, -⟩ := exists_fresh pos1 pos1
  exact settles_of_step (challengeStep_second (by omega) (by omega) hne) (settles_third h hne.symm)

lemma settles_of_draws (h : 3 ≤ pwLen data) (hd : s.Draws) (hs : s.Placed (pwLen data)) :
    Settles data s := by
  cases s with
  | first failCount =>
    exact settles_of_step (challengeStep_first (show 0 < pwLen data by omega) (by omega) hd)
      (settles_second h)
  | second failCount pos1 => exact settles_second h
  | third failCount pos1 pos2 => exact settles_third h hs.2.2
  | _ => exact hd.elim

-- The first step draws a position, and there is none in a password without characters.
lemma pwLen_pos_of_cons {i : ChallengeInput} {inputs : List ChallengeInput}
    (h : (challengeRun data (i :: inputs)).Yields s) : 0 < pwLen data := by
  by_contra hzero
  have hfail : drawPosition data i.random = .fail .divideError := if_pos (by omega)
  rw [challengeRun, foldlM_cons, yields_bind] at h
  obtain ⟨t, ht, -⟩ := h
  rw [challengeStep, if_pos (by omega), hfail, yields_bind] at ht
  obtain ⟨pos, hpos, -⟩ := ht
  exact yields_fail hpos

lemma ChallengeSound.pwLen_pos (h : ChallengeSound data) : 0 < pwLen data := by
  obtain ⟨s, hs⟩ := h.runs [drawing 0]
  exact pwLen_pos_of_cons hs

lemma ChallengeSound.three_le (h : ChallengeSound data) : 3 ≤ pwLen data := by
  obtain ⟨more, failCount, pos, hyields, -⟩ :=
    h.settles [] (.first 0) (yields_pure.mpr rfl) (show 0 < 3 by omega)
  have hpos : pos.Placed (pwLen data) := placed_of_challengeRun h.pwLen_pos hyields
  have h12 := hpos.pos12
  have h13 := hpos.pos13
  have h23 := hpos.pos23
  have h1 := hpos.lt1
  have h2 := hpos.lt2
  have h3 := hpos.lt3
  omega

lemma challengeRun_asks_behind (h : sbPasswordLen < pwLen data) :
    (challengeRun data [drawing sbPasswordLen, drawing 0, drawing 1, drawing 0]).Emits
      (.ask sbPasswordLen) := by
  unfold sbPasswordLen at h ⊢
  simp only [challengeRun, foldlM_cons, foldlM_nil]
  rw [challengeStep_first (by omega) (by omega) (by omega), pure_bind,
    challengeStep_second (by omega) (by omega) (by omega), pure_bind,
    challengeStep_third (by omega) (by omega) (by omega) (by omega), pure_bind]
  simp [challengeStep, askCharacter, drawing]

lemma ChallengeSound.le_sbPasswordLen (h : ChallengeSound data) : pwLen data ≤ sbPasswordLen := by
  by_contra hlt
  have hask := h.ask _ _ (challengeRun_asks_behind (Nat.lt_of_not_le hlt))
  exact absurd hask.2 (Nat.lt_irrefl _)

lemma challengeSound_of_bounds (h3 : 3 ≤ pwLen data) (h16 : pwLen data ≤ sbPasswordLen) :
    ChallengeSound data where
  runs inputs := by
    obtain ⟨⟨s, hs, -⟩, -⟩ := challengeRun_placed (by omega : 0 < pwLen data) inputs
    exact ⟨s, hs⟩
  index inputs pos hpos := by
    have hlt : pos < pwLen data :=
      (challengeRun_placed (by omega : 0 < pwLen data) inputs).2 _ hpos
    exact ⟨hlt, by omega⟩
  ask inputs pos hpos := by
    have hlt : pos < pwLen data :=
      (challengeRun_placed (by omega : 0 < pwLen data) inputs).2 _ hpos
    exact ⟨hlt, by omega⟩
  settles inputs s hs hd := by
    obtain ⟨more, failCount, pos, hyields, hdist⟩ :=
      settles_of_draws h3 hd (placed_of_challengeRun (by omega) hs)
    exact ⟨more, failCount, pos, (challengeRun_append hs).mpr hyields, hdist⟩

end

/-- The loop is sound for a request iff the length in it is at least three and at most the number of
characters that a request holds. The prompts test neither. -/
theorem challengeSound_iff (data : Mem) :
    ChallengeSound data ↔ 3 ≤ pwLen data ∧ pwLen data ≤ sbPasswordLen := by
  constructor
  · intro h
    exact ⟨h.three_le, h.le_sbPasswordLen⟩
  · rintro ⟨h3, h16⟩
    exact challengeSound_of_bounds h3 h16

/-! ## The prompts around the loop -/

section

variable {p : StatePrompt} {data : Mem} {size : ℕ} {inputs : List ChallengeInput} {e : PromptEnd}
  {s t : ChallengeState} {i : ChallengeInput} {failCount pos pass : ℕ}
  {next : Run ChallengeEvent Fault ChallengeState}

/-- A request of another size starts no loop; the events of any other prompt are those of its loop,
whichever of the three prompts it is. -/
theorem StatePrompt.run_emits {ev : ChallengeEvent} : (p.run data size inputs e).Emits ev ↔
      size = stateRequestSize ∧ (challengeRun data inputs).Emits ev := by
  unfold StatePrompt.run
  by_cases hsize : size = stateRequestSize
  · have hafter : ∀ s : ChallengeState, ¬ Run.Emits (match s with
        | .passed => return some (p.finish data e)
        | .returned .accessDenied =>
          return some ⟨.accessDenied, [p.title, "Password limit reached"], []⟩
        | .returned status => return some ⟨status, [p.title, "Failed to allocate buffer"], []⟩
        | _ => return none : Run ChallengeEvent Fault (Option PromptResult)) ev := by
      intro s
      split <;> exact emits_pure
    rw [if_neg (not_not.mpr hsize), emits_bind]
    simp only [hafter, and_false, exists_false, or_false, hsize, true_and]
  · simp [hsize]

/-- The three questions of some round were answered one after the other and right, at positions that
differ, after less than three wrong rounds. -/
def Answered (data : Mem) (inputs : List ChallengeInput) : Prop :=
  ∃ before x y z after failCount pos, inputs = before ++ x :: y :: z :: after ∧
    (challengeRun data before).Yields (.ask1 failCount pos) ∧ failCount < 3 ∧
    pos.Placed (pwLen data) ∧ (x.pool = true ∧ x.typed = passwordChar data pos.pos1) ∧
    (y.pool = true ∧ y.typed = passwordChar data pos.pos2) ∧
    z.pool = true ∧ z.typed = passwordChar data pos.pos3

/-- What the state of the loop says about the inputs that have led to it. -/
def ChallengeState.Heard (data : Mem) (inputs : List ChallengeInput) :
    ChallengeState → Prop
  | .first _ => True
  | .second failCount _ => failCount < 3
  | .third failCount _ _ => failCount < 3
  | .ask1 failCount _ => failCount < 3
  | .ask2 failCount pos pass1 => failCount < 3 ∧ ∃ before x, inputs = before ++ [x] ∧
      (challengeRun data before).Yields (.ask1 failCount pos) ∧ x.pool = true ∧ x.typed = pass1
  | .ask3 failCount pos pass1 pass2 => failCount < 3 ∧ ∃ before x y, inputs = before ++ [x, y] ∧
      (challengeRun data before).Yields (.ask1 failCount pos) ∧
      (x.pool = true ∧ x.typed = pass1) ∧ y.pool = true ∧ y.typed = pass2
  | .passed => Answered data inputs
  | .returned _ => True

lemma pwLen_pos_of_run {positions : Positions}
    (h : (challengeRun data inputs).Yields (.ask1 failCount positions)) : 0 < pwLen data := by
  cases inputs with
  | nil => cases yields_pure.mp h
  | cons i inputs => exact pwLen_pos_of_cons h

lemma askCharacter_yields : (askCharacter i pos next).Yields s ↔
    i.pool = false ∧ s = .returned .outOfResources ∨ i.pool = true ∧ next.Yields s := by
  unfold askCharacter
  cases i.pool
  · simp [eq_comm]
  · simp

lemma compareCharacter_yields : (compareCharacter data failCount pos pass next).Yields s ↔
    pass ≠ passwordChar data pos ∧ s = .first (failCount + 1) ∨
      pass = passwordChar data pos ∧ next.Yields s := by
  unfold compareCharacter
  by_cases h : pass = passwordChar data pos
  · simp [h]
  · simp [h, eq_comm]

lemma challengeRun_snoc : (challengeRun data (inputs ++ [i])).Yields t ↔
    ∃ s, (challengeRun data inputs).Yields s ∧ (challengeStep data s i).Yields t := by
  simp [challengeRun, foldlM_append]

lemma challengeStep_heard (hu : (challengeRun data inputs).Yields s) (h : s.Heard data inputs)
    (hstep : (challengeStep data s i).Yields t) : t.Heard data (inputs ++ [i]) := by
  cases s with
  | first failCount =>
    rw [challengeStep] at hstep
    split_ifs at hstep with hcount
    · obtain ⟨pos1, -, ht⟩ := yields_bind.mp hstep
      rw [← yields_pure.mp ht]
      exact hcount
    · rw [← yields_pure.mp hstep]
      trivial
  | second failCount pos1 =>
    obtain ⟨pos2, -, ht⟩ := yields_bind.mp hstep
    split_ifs at ht <;> rw [← yields_pure.mp ht] <;> exact h
  | third failCount pos1 pos2 =>
    obtain ⟨pos3, -, ht⟩ := yields_bind.mp hstep
    split_ifs at ht <;> rw [← yields_pure.mp ht] <;> exact h
  | ask1 failCount pos =>
    rcases askCharacter_yields.mp hstep with ⟨-, rfl⟩ | ⟨hpool, ht⟩
    · trivial
    · rw [← yields_pure.mp ht]
      exact ⟨h, inputs, i, rfl, hu, hpool, rfl⟩
  | ask2 failCount pos pass1 =>
    rcases askCharacter_yields.mp hstep with ⟨-, rfl⟩ | ⟨hpool, ht⟩
    · trivial
    · obtain ⟨hcount, before, x, rfl, hask, hx⟩ := h
      rw [← yields_pure.mp ht]
      exact ⟨hcount, before, x, i, by simp, hask, hx, hpool, rfl⟩
  | ask3 failCount pos pass1 pass2 =>
    rcases askCharacter_yields.mp hstep with ⟨-, rfl⟩ | ⟨hpool, ht⟩
    · trivial
    obtain ⟨hcount, before, x, y, rfl, hask, ⟨hxpool, rfl⟩, hypool, rfl⟩ := h
    rcases compareCharacter_yields.mp ht with ⟨-, rfl⟩ | ⟨hx, ht⟩
    · trivial
    rcases compareCharacter_yields.mp ht with ⟨-, rfl⟩ | ⟨hy, ht⟩
    · trivial
    rcases compareCharacter_yields.mp ht with ⟨-, rfl⟩ | ⟨hz, ht⟩
    · trivial
    rw [← yields_pure.mp ht]
    exact ⟨before, x, y, i, [], failCount, pos, by simp, hask, hcount,
      placed_of_challengeRun (pwLen_pos_of_run hask) hask, ⟨hxpool, hx⟩, ⟨hypool, hy⟩, hpool, hz⟩
  | passed =>
    rw [← yields_pure.mp hstep]
    obtain ⟨before, x, y, z, after, failCount, pos, rfl, hanswered⟩ := h
    exact ⟨before, x, y, z, after ++ [i], failCount, pos, by simp, hanswered⟩
  | returned status =>
    rw [← yields_pure.mp hstep]
    trivial

lemma challengeRun_heard (hs : (challengeRun data inputs).Yields s) : s.Heard data inputs := by
  induction inputs using List.reverseRecOn generalizing s with
  | nil =>
    rw [← yields_pure.mp hs]
    trivial
  | append_singleton inputs i ih =>
    obtain ⟨u, hu, hstep⟩ := challengeRun_snoc.mp hs
    exact challengeStep_heard hu (ih hu) hstep

lemma passed_of_answered (h : Answered data inputs) :
    (challengeRun data inputs).Yields .passed := by
  obtain ⟨before, x, y, z, after, failCount, pos, rfl, hask, -, -, hx, hy, hz⟩ := h
  have hstays : (after.foldlM (challengeStep data) .passed).Yields .passed := by
    induction after with
    | nil => exact yields_pure.mpr rfl
    | cons i after ih => exact yields_bind.mpr ⟨.passed, yields_pure.mpr rfl, ih⟩
  rw [challengeRun_append hask]
  simpa [challengeStep, askCharacter, compareCharacter, hx, hy, hz] using hstays

/-- A prompt changes or deletes a variable iff the request has its size and the three questions of one
of the first three rounds were answered right. -/
theorem StatePrompt.writes_iff_answered :
    (∃ r, (p.run data size inputs e).Yields (some r) ∧ r.writes ≠ []) ↔
      size = stateRequestSize ∧ Answered data inputs := by
  unfold StatePrompt.run
  by_cases hsize : size = stateRequestSize
  · rw [if_neg (not_not.mpr hsize), and_iff_right hsize]
    simp only [yields_bind]
    constructor
    · rintro ⟨r, ⟨s, hs, hr⟩, hw⟩
      split at hr
      · exact challengeRun_heard hs
      all_goals rw [yields_pure] at hr
      · exact absurd (Option.some.inj hr ▸ rfl) hw
      · exact absurd (Option.some.inj hr ▸ rfl) hw
      · cases hr
    · intro hanswered
      refine ⟨p.finish data e, ⟨.passed, passed_of_answered hanswered, yields_pure.mpr rfl⟩, ?_⟩
      unfold StatePrompt.finish
      dsimp only
      split_ifs <;> simp
  · rw [if_pos hsize]
    refine iff_of_false ?_ fun h => hsize h.1
    rintro ⟨r, hr, hw⟩
    rw [yields_pure, Option.some.injEq] at hr
    exact hw (hr ▸ rfl)

end

def emptyRequest (len : UInt8) : List UInt8 := [0, 0, 0, 0, len, 0, 0, 0] ++ List.replicate 32 0

/-- Without a password the first draw divides by zero, with two characters no third position
differs, and with a length of 32 `Password` is read behind its end. -/
theorem challenge_unsound :
    let request := fun n => Mem.ofBytes (emptyRequest n)
    let wide := challengeRun (request 32)
      [drawing 31, drawing 0, drawing 1, drawing 0, drawing 0, drawing 0]
    ((emptyRequest 0).length = stateRequestSize ∧
      (challengeRun (request 0) [drawing 7]).out = .error .divideError ∧
      ¬ ChallengeSound (request 0)) ∧
    ((emptyRequest 2).length = stateRequestSize ∧
      (challengeRun (request 2) [drawing 0, drawing 1]).out = .ok (.third 0 0 1) ∧
      (∀ pos, pos % pwLen (request 2) = 0 ∨ pos % pwLen (request 2) = 1) ∧
      ¬ ChallengeSound (request 2)) ∧
    ((emptyRequest 32).length = stateRequestSize ∧ wide.Emits (.ask 31) ∧ wide.Emits (.index 31) ∧
      ¬ ChallengeSound (request 32)) := by
  have h0 : pwLen (.ofBytes (emptyRequest 0)) = 0 := by decide +kernel
  have h2 : pwLen (.ofBytes (emptyRequest 2)) = 2 := by decide +kernel
  have h32 : pwLen (.ofBytes (emptyRequest 32)) = 32 := by decide +kernel
  refine ⟨⟨by decide, rfl, ?_⟩, ⟨by decide, rfl, ?_, ?_⟩, by decide, ?_, ?_, ?_⟩
  · intro h
    exact absurd h.three_le (by rw [h0]; decide)
  · intro pos
    rw [h2]
    omega
  · intro h
    exact absurd h.three_le (by rw [h2]; decide)
  · decide +kernel
  · decide +kernel
  · intro h
    exact absurd h.le_sbPasswordLen (by rw [h32]; decide)

end Shim.Mok
