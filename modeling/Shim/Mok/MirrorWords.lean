import Shim.Mok.MirrorSafety

/-!
# The positions of the mirroring loop are words

In `mirrorRound` a position is a number, in `mirror_mok_db` a word. A list may end in front of its own
first signature, and then the sum that is stored to `pos` can wrap. The loop ends all the same, as
this happens only before the first variable is written, and twice at most.

* `MirrorCall.round_yields_iff` — a round in which nothing wraps is one of `mirrorRound`.
* `MirrorCall.mirrorLoop_progress` — the loop ends, and its position grows unless the signatures of the
  first list that is not skipped reach the end of the address space.
-/

namespace Shim.Mok

open Lib Verify MirrorState Run

structure MirrorCall where
  env : MirrorEnv
  name : String
  attrs : ℕ
  db : SigDb
  onlyFirst : Bool
  object : db.size < 2 ^ 63
  word : ∀ k, (getMaxVarSz env k).2 < 2 ^ 64

def MirrorState.wrap (s : MirrorState) : MirrorState :=
  { s with
    eslEndPos := s.eslEndPos % 2 ^ 64
    pos := s.pos % 2 ^ 64 }

namespace MirrorCall

variable (c : MirrorCall) (s : MirrorState)

def enter : MirrorState := (s.enter c.db).wrap

def sigSize : ℕ := c.db.signatureSize ((c.enter s).esl.getD 0)

def howmany : ℕ :=
  howMany (withoutName (getMaxVarSz c.env s.queries).2 (c.env.namen c.name c.onlyFirst s.i))
    (c.sigSize s) (subW 64 (c.enter s).eslEndPos (c.enter s).pos)

def round : Run MirrorAccess Empty (MirrorState ⊕ MirrorExit) :=
  if subW 64 c.db.size s.pos < minsz then return .inr (.leave s)
  else
    let t := c.enter s
    if c.db.size ≤ t.pos ∨ c.db.signatureListSize (t.esl.getD 0) = 0 ∨ c.sigSize s = 0 then
      return .inr (.leave t)
    else
      let max := getMaxVarSz c.env s.queries
      let t := { t with queries := s.queries + 1, status := max.1 }
      if isError max.1 then return .inr (.ret t)
      else Sum.map MirrorState.wrap id <$>
        mirrorPiece c.env c.name c.attrs c.db c.onlyFirst (c.howmany s) t

def next : ℕ :=
  if c.howmany s = 0 then (s.enter c.db).eslEndPos
  else (s.enter c.db).pos + c.howmany s * c.sigSize s

def Progress : Prop :=
  (∃ n e, (Run.loop c.round n .start).Yields (some e)) ∧
    ∀ s s', Run.Reaches c.round .start s → Run.Continues c.round s s' → s.pos < s'.pos

/-- The name that counts towards the size of the first variable. -/
def firstName : String := c.env.namen c.name c.onlyFirst 0

/-- The call for the numbered variables skips the lists before `j`, of which nothing fits, and then
signatures of list `j`, which are in the variable itself. -/
structure PassesFirst (j : ℕ) : Prop where
  numbered : c.onlyFirst = false
  skips : ∀ i < j, Skips c.env c.firstName c.db i
  entered : Entered c.env c.db j
  some : firstPiece c.env c.firstName c.db j ≠ 0

/-- The position behind these signatures. -/
def firstEnd (j : ℕ) : ℕ :=
  listStart c.db j + sizeofSignatureList +
    firstPiece c.env c.firstName c.db j * c.db.signatureSize (listStart c.db j)

end MirrorCall

/-! ## A round -/

variable {c : MirrorCall} {s s' : MirrorState}

structure MirrorState.Words (s : MirrorState) : Prop where
  pos : s.pos < 2 ^ 64
  eslEndPos : s.eslEndPos < 2 ^ 64
  start : s.esl = none → s.eslEndPos = 0

lemma MirrorState.Words.enter (h : s.Words) (db : SigDb) :
    s.eslEndPos ≤ s.pos ∧ (s.enter db).eslEndPos = s.pos + db.signatureListSize s.pos ∧
        (s.enter db).pos = s.pos + 28 ∧ (s.enter db).esl = some s.pos ∨
      s.pos < s.eslEndPos ∧ s.enter db = s := by
  unfold MirrorState.enter
  by_cases hend : s.eslEndPos ≤ s.pos
  · rw [if_pos (.inr hend)]
    exact .inl ⟨hend, rfl, rfl, rfl⟩
  · rw [if_neg (not_or.mpr ⟨fun hnone => hend (by rw [h.start hnone]; exact Nat.zero_le _), hend⟩)]
    exact .inr ⟨not_le.mp hend, rfl⟩

/-- The signatures fit into the variable, with a header. -/
theorem howMany_fits {room sigSize left : ℕ} (h : howMany room sigSize left ≠ 0) :
    howMany room sigSize left * sigSize + sizeofSignatureList ≤ room := by
  unfold howMany at h ⊢
  split_ifs at h ⊢ with hroom
  · have hdiv := Nat.div_mul_le_self (room - sizeofSignatureList) sigSize
    have hmul := Nat.mul_le_mul_right sigSize
      (min_le_left ((room - sizeofSignatureList) / sigSize) (left / sigSize))
    omega
  · exact absurd rfl h

lemma withoutName_le (maxVarSz : ℕ) (namen : String) : withoutName maxVarSz namen ≤ maxVarSz := by
  unfold withoutName
  split_ifs <;> omega

namespace MirrorCall

lemma enter_i (c : MirrorCall) (s : MirrorState) : (c.enter s).i = s.i := by
  unfold enter MirrorState.wrap MirrorState.enter
  split_ifs <;> rfl

/-- What a round does that goes on. -/
structure Moves (c : MirrorCall) (s s' : MirrorState) : Prop where
  room : minsz ≤ subW 64 c.db.size s.pos
  inside : (c.enter s).pos < c.db.size
  list : c.db.signatureListSize ((s.enter c.db).esl.getD 0) ≠ 0
  entry : c.sigSize s ≠ 0
  query : isError (getMaxVarSz c.env s.queries).1 = false
  eslEndPos : s'.eslEndPos = (c.enter s).eslEndPos
  esl : s'.esl = (s.enter c.db).esl
  pos : s'.pos = c.next s % 2 ^ 64
  queries : s'.queries = s.queries + 1
  turn : c.howmany s = 0 ∧ s'.i = s.i ∨ (c.howmany s ≠ 0 ∧ c.onlyFirst = false) ∧ s'.i = s.i + 1 ∧
    (s.i = 0 ∨ c.howmany s * c.sigSize s < 2 ^ 32)

lemma moves_of_continues (h : Run.Continues c.round s s') : c.Moves s s' := by
  unfold Run.Continues round at h
  dsimp only at h
  split_ifs at h with hend hstop hfail
  · cases yields_pure.mp h
  · cases yields_pure.mp h
  · cases yields_pure.mp h
  obtain ⟨t | e, ht, hmap⟩ := yields_map.mp h
  · obtain rfl := Sum.inl.inj hmap
    obtain ⟨hendPos, hesl, hqueries, hmoves⟩ := mirrorPiece_moves ht
    refine ⟨not_lt.mp hend, not_le.mp fun hle => hstop (.inl hle),
      fun hzero => hstop (.inr (.inl hzero)), fun hzero => hstop (.inr (.inr hzero)),
      Bool.eq_false_iff.mpr hfail, ?_, hesl, ?_, hqueries, ?_⟩
    · simp [MirrorState.wrap, hendPos, enter]
    · unfold next
      rcases hmoves with ⟨hzero, hpos, -⟩ | ⟨⟨hmany, -⟩, hpos, -⟩
      · simp [MirrorState.wrap, hzero, hpos, enter]
      · simp only [MirrorState.wrap, hpos, if_neg hmany, enter]
        exact Nat.mod_add_mod ..
    · rcases hmoves with ⟨hzero, -, hi⟩ | ⟨hmany, -, hi, hsmall⟩
      · exact .inl ⟨hzero, hi.trans (c.enter_i s)⟩
      · refine .inr ⟨hmany, hi.trans (congrArg (· + 1) (c.enter_i s)), hsmall.imp_left ?_⟩
        exact (c.enter_i s).symm.trans
  · cases hmap

/-- A round in which the begin and the end of the list do not wrap is one of `mirrorRound`, up to the
new position. -/
theorem round_yields_iff {r : MirrorState ⊕ MirrorExit} (hpos : (s.enter c.db).pos < 2 ^ 64)
    (hend : (s.enter c.db).eslEndPos < 2 ^ 64) : (c.round s).Yields r ↔
      ∃ r', (mirrorRound c.env c.name c.attrs c.db c.onlyFirst s).Yields r' ∧
        Sum.map MirrorState.wrap id r' = r := by
  have henter : c.enter s = s.enter c.db := by
    unfold enter MirrorState.wrap
    rw [Nat.mod_eq_of_lt hpos, Nat.mod_eq_of_lt hend]
  have hqueries : (s.enter c.db).queries = s.queries := by
    unfold MirrorState.enter
    split_ifs <;> rfl
  have hi : (s.enter c.db).i = s.i := by
    rw [← henter, c.enter_i]
  simp only [mirrorRound_yields, round, henter, sigSize, howmany, hqueries, hi]
  by_cases hstop : subW 64 c.db.size s.pos < minsz
  · simp [hstop]
  by_cases hout : c.db.size ≤ (s.enter c.db).pos
  · simp [hstop, hout]
  by_cases hsizes : c.db.signatureListSize ((s.enter c.db).esl.getD 0) = 0 ∨
      c.db.signatureSize ((s.enter c.db).esl.getD 0) = 0
  · simp [hstop, hout, hsizes]
  by_cases hfail : isError (getMaxVarSz c.env s.queries).1 = true
  · simp [hstop, hout, hsizes, hfail]
  · simp only [hstop, hout, hsizes, hfail, if_false, false_or, Bool.false_eq_true]
    exact yields_map

lemma Words.round (h : s.Words) (hround : Run.Continues c.round s s') : s'.Words := by
  have hmoves := moves_of_continues hround
  refine ⟨?_, ?_, fun hnone => ?_⟩
  · rw [hmoves.pos]
    exact Nat.mod_lt _ (by decide)
  · rw [hmoves.eslEndPos]
    exact Nat.mod_lt _ (by decide)
  · rw [hmoves.esl] at hnone
    rcases h.enter c.db with ⟨-, -, -, hnew⟩ | ⟨-, hsame⟩
    · rw [hnew] at hnone
      cases hnone
    rw [hmoves.eslEndPos]
    unfold enter MirrorState.wrap
    rw [hsame] at hnone ⊢
    simp only [h.start hnone, Nat.zero_mod]

/-- The sum is larger than the position, by less than a word. -/
theorem next_bounds (h : s.Words) (hround : Run.Continues c.round s s') :
    s.pos < c.next s ∧ c.next s < s.pos + 2 ^ 64 := by
  have hmoves := moves_of_continues hround
  have hle := s.enter_pos c.db
  have hahead := enter_eslEndPos hmoves.list
  have hword := c.word s.queries
  have hlt := c.db.mem.u32_lt (s.pos + 16)
  unfold next
  split_ifs with hzero
  · refine ⟨hahead, ?_⟩
    have hwords := h.eslEndPos
    rcases h.enter c.db with ⟨-, hnew, -⟩ | ⟨-, hsame⟩
    · rw [hnew]
      unfold SigDb.signatureListSize
      omega
    · rw [hsame]
      omega
  · have hadj := Nat.mul_pos (Nat.pos_of_ne_zero hzero) (Nat.pos_of_ne_zero hmoves.entry)
    have hfit : c.howmany s * c.sigSize s + 28 ≤ _ := (howMany_fits hzero).trans (withoutName_le ..)
    have hpos : (s.enter c.db).pos ≤ s.pos + 28 := by
      rcases h.enter c.db with ⟨-, -, hnew, -⟩ | ⟨-, hsame⟩
      · exact hnew.le
      · rw [hsame]
        exact Nat.le_add_right _ _
    omega

/-! ## The loop -/

/-- How far the end of the list, or the position, is from the end of the address space, if it is
behind all that can be reached from the buffer. -/
def high (s : MirrorState) : ℕ :=
  if 2 ^ 63 + 2 ^ 32 ≤ s.eslEndPos then 2 ^ 64 - s.eslEndPos
  else if 2 ^ 63 + 2 ^ 32 ≤ s.pos then 2 ^ 64 - s.pos
  else 0

def rank (s : MirrorState) : ℕ :=
  (if s.i = 0 then 2 ^ 130 else 0) + high s * 2 ^ 65 + (2 ^ 64 - s.pos)

/-- Unless the first signatures are skipped, the position grows, or the end of the list comes nearer to
the end of the address space, or gets behind it. -/
theorem high_round (h : s.Words) (hround : Run.Continues c.round s s')
    (hskip : s'.i = s.i ∨ s.i ≠ 0) :
    high s' ≤ high s ∧ (high s' = high s → s.pos < s'.pos) := by
  obtain ⟨-, hin, hlist, -, -, hendPos, -, hpos, -, hmoves⟩ := moves_of_continues hround
  have hahead := enter_eslEndPos hlist
  have hobject := c.object
  have hbounds := next_bounds h hround
  have hlt := c.db.mem.u32_lt (s.pos + 16)
  have hwords := h.pos
  have hwords' := h.eslEndPos
  unfold enter MirrorState.wrap at hin hendPos
  unfold next at hpos hbounds
  generalize c.howmany s * c.sigSize s = adj at *
  unfold high
  rcases h.enter c.db with ⟨hend, hnew, hnewPos, -⟩ | ⟨hend, hsame⟩
  · unfold SigDb.signatureListSize at hnew
    simp only [hnew, hnewPos] at hin hahead hendPos hpos hbounds
    split_ifs at hpos hbounds
    all_goals split_ifs <;> omega
  · simp only [hsame] at hin hendPos hpos hbounds
    split_ifs at hpos hbounds
    all_goals split_ifs <;> omega

lemma rank_round (h : s.Words) (hround : Run.Continues c.round s s') : rank s' < rank s := by
  have hpos := h.pos
  unfold rank
  by_cases hfirst : s.i = 0 ∧ s'.i ≠ s.i
  · have hhigh : high s' ≤ 2 ^ 64 := by
      unfold high
      split_ifs <;> omega
    rw [if_pos hfirst.1, if_neg (by omega)]
    omega
  · obtain ⟨hle, heq⟩ := high_round h hround (by omega)
    have hturn := (moves_of_continues hround).turn
    split_ifs <;> omega

lemma mirrorLoop_returns (h : s.Words) : ∃ n e, (Run.loop c.round n s).Yields (some e) := by
  induction hn : rank s using Nat.strong_induction_on generalizing s with
  | _ k ih =>
    have hround := (c.round s).yields_value
    cases hvalue : (c.round s).value with
    | inl s' =>
      rw [hvalue] at hround
      obtain ⟨n, e, he⟩ := ih _ (hn ▸ rank_round h hround) (Words.round h hround) rfl
      exact ⟨n + 1, e, loop_yields_succ.mpr (.inr ⟨s', hround, he⟩)⟩
    | inr e =>
      rw [hvalue] at hround
      exact ⟨1, e, loop_yields_succ.mpr (.inl hround)⟩

/-! ## The position -/

section

variable {j : ℕ}

/-- Before a variable is written the loop is at the begin of a list. -/
structure AtFirst (c : MirrorCall) (j : ℕ) (s : MirrorState) : Prop where
  list : AtList c.db j s
  first : s.i = 0
  skips : ∀ i < j, Skips c.env c.firstName c.db i

lemma AtFirst.start : c.AtFirst 0 .start :=
  ⟨atList_start, rfl, fun i hi => absurd hi (Nat.not_lt_zero i)⟩

section

variable (h : c.AtFirst j s)
include h

lemma AtFirst.enter :
    listStart c.db j < 2 ^ 63 + 2 ^ 32 ∧ c.enter s = s.enter c.db ∧
      (s.enter c.db).pos = listStart c.db j + 28 ∧
      (s.enter c.db).eslEndPos = listStart c.db (j + 1) ∧
      (s.enter c.db).esl = some (listStart c.db j) ∧ listStart c.db (j + 1) < 2 ^ 63 + 2 ^ 33 := by
  have hstart := listStart_lt h.skips
  have hobject := c.object
  have hlist : c.db.signatureListSize (listStart c.db j) < 2 ^ 32 := Mem.u32_lt _ _
  have hnext : listStart c.db (j + 1) =
      listStart c.db j + c.db.signatureListSize (listStart c.db j) := rfl
  have henter : s.enter c.db = _ := h.list.fresh.enter_eq
  rw [h.list.pos] at henter
  unfold MirrorCall.enter MirrorState.wrap
  rw [henter]
  refine ⟨by omega, ?_, rfl, rfl, rfl, by omega⟩
  simp only [sizeofSignatureList]
  rw [Nat.mod_eq_of_lt (by omega), Nat.mod_eq_of_lt (by omega)]

lemma AtFirst.howmany :
    c.sigSize s = c.db.signatureSize (listStart c.db j) ∧
      c.howmany s = firstPiece c.env c.firstName c.db j := by
  obtain ⟨-, henter, hpos, hend, hesl, -⟩ := h.enter
  have hsig : c.sigSize s = c.db.signatureSize (listStart c.db j) := by
    rw [sigSize, henter, hesl, Option.getD_some]
  refine ⟨hsig, ?_⟩
  rw [MirrorCall.howmany, hsig, henter, hpos, hend, h.list.queries, h.first]
  rfl

lemma AtFirst.next :
    c.next s = if firstPiece c.env c.firstName c.db j = 0 then listStart c.db (j + 1)
      else c.firstEnd j := by
  obtain ⟨-, -, hpos, hend, -⟩ := h.enter
  rw [MirrorCall.next, h.howmany.1, h.howmany.2, hpos, hend]
  rfl

lemma AtFirst.entered (hmoves : c.Moves s s') : Entered c.env c.db j := by
  obtain ⟨-, henter, hpos, -, hesl, -⟩ := h.enter
  have hroom := hmoves.room
  have hin := hmoves.inside
  have hobject := c.object
  rw [henter, hpos] at hin
  rw [h.list.pos, subW_of_le (by omega) (by omega)] at hroom
  refine ⟨by omega, ?_, ?_, ?_⟩
  · rw [← Option.getD_some (a := listStart c.db j) (b := 0), ← hesl]
    exact hmoves.list
  · rw [← h.howmany.1]
    exact hmoves.entry
  · rw [← h.list.queries]
    exact hmoves.query

/-- A round from the begin of a list skips the list, or passes its first signatures. -/
theorem AtFirst.moves (hmoves : c.Moves s s') :
    c.AtFirst (j + 1) s' ∨ c.PassesFirst j ∧ s'.i = 1 ∧ s'.pos = c.firstEnd j % 2 ^ 64 ∧
      s'.eslEndPos = listStart c.db (j + 1) := by
  obtain ⟨-, henter, -, hend, -, hlt⟩ := h.enter
  have hentered := h.entered hmoves
  have hpos := hmoves.pos
  have hendPos := hmoves.eslEndPos
  rw [h.next] at hpos
  rw [henter, hend] at hendPos
  rcases hmoves.turn with ⟨hzero, hi⟩ | ⟨⟨hmany, hnumbered⟩, hi, -⟩
  · rw [h.howmany.2] at hzero
    rw [if_pos hzero, Nat.mod_eq_of_lt (by omega)] at hpos
    refine .inl ⟨⟨.inr ?_, hpos, ?_⟩, hi.trans h.first, fun i hi => ?_⟩
    · rw [hpos, hendPos]
    · rw [hmoves.queries, h.list.queries]
    · rcases Nat.lt_succ_iff_lt_or_eq.mp hi with hlt | rfl
      · exact h.skips i hlt
      · exact ⟨hentered, hzero⟩
  · rw [h.howmany.2] at hmany
    rw [if_neg hmany] at hpos
    exact .inr ⟨⟨hnumbered, h.skips, hentered, hmany⟩, by rw [hi, h.first], hpos, hendPos⟩

end

lemma PassesFirst.firstEnd_lt (h : c.PassesFirst j)
    (hlist : sizeofSignatureList ≤ c.db.signatureListSize (listStart c.db j)) :
    c.firstEnd j + 28 < 2 ^ 64 := by
  have hroom := h.entered.room
  have hobject := c.object
  have hlt : c.db.signatureListSize (listStart c.db j) < 2 ^ 32 := Mem.u32_lt _ _
  have hsl : sizeofSignatureList = 28 := rfl
  have hnext : listStart c.db (j + 1) =
      listStart c.db j + c.db.signatureListSize (listStart c.db j) := rfl
  have hpiece := firstPiece_bytes_le c.env c.firstName (by omega) hlist
  unfold firstEnd
  omega

/-- Behind the first signatures: no sum wraps any more. -/
structure Settled (s : MirrorState) : Prop where
  behind : s.i ≠ 0
  pos : s.pos + 28 < 2 ^ 64
  eslEndPos : s.eslEndPos + 28 < 2 ^ 64

lemma Settled.moves (h : Settled s) (hwords : s.Words) (hmoves : c.Moves s s') :
    c.next s < 2 ^ 64 ∧ Settled s' := by
  obtain ⟨-, hin, -, -, -, hendPos, -, hpos, -, hturn⟩ := hmoves
  have hobject := c.object
  have hfirst := h.behind
  have hposlt := h.pos
  have hendlt := h.eslEndPos
  have hlist : c.db.signatureListSize s.pos < 2 ^ 32 := Mem.u32_lt _ _
  unfold enter MirrorState.wrap at hin hendPos
  unfold next at hpos ⊢
  generalize c.howmany s * c.sigSize s = adj at *
  rcases hwords.enter c.db with ⟨-, hnew, hnewPos, -⟩ | ⟨-, hsame⟩
  · simp only [hnew, hnewPos] at hin hendPos hpos ⊢
    refine ⟨?_, ?_, ?_, ?_⟩
    all_goals split_ifs at hpos ⊢ <;> omega
  · simp only [hsame] at hin hendPos hpos ⊢
    refine ⟨?_, ?_, ?_, ?_⟩
    all_goals split_ifs at hpos ⊢ <;> omega

lemma words_start : MirrorState.Words .start := ⟨by decide, by decide, fun _ => rfl⟩

lemma words_of_reaches (h : Run.Reaches c.round .start s) : s.Words := by
  induction h with
  | refl => exact words_start
  | tail _ hround ih => exact Words.round ih hround

lemma atFirst_or_settled (hends : ∀ j, c.PassesFirst j → c.firstEnd j + 28 < 2 ^ 64)
    (h : Run.Reaches c.round .start s) : (∃ j, c.AtFirst j s) ∨ Settled s := by
  induction h with
  | refl => exact .inl ⟨0, AtFirst.start⟩
  | tail hreach hround ih =>
    have hmoves := moves_of_continues hround
    rcases ih with ⟨j, hat⟩ | hsettled
    · rcases hat.moves hmoves with hnext | ⟨hpasses, hi, hpos, hend⟩
      · exact .inl ⟨j + 1, hnext⟩
      · have hlt := hends j hpasses
        obtain ⟨-, -, -, -, -, hbound⟩ := hat.enter
        exact .inr ⟨by omega, by omega, by omega⟩
    · exact .inr (hsettled.moves (words_of_reaches hreach) hmoves).2

lemma progress_of_next (h : ∀ s s', Run.Reaches c.round .start s → Run.Continues c.round s s' →
    c.next s < 2 ^ 64) : c.Progress := by
  refine ⟨mirrorLoop_returns words_start, fun s s' hreach hround => ?_⟩
  have hpos := (moves_of_continues hround).pos
  have hbounds := next_bounds (words_of_reaches hreach) hround
  have hnext := h s s' hreach hround
  omega

/-- A list that is entered is skipped, or its first signatures are passed: the round goes on. -/
theorem AtFirst.exists_continues (h : c.AtFirst j s) (hentered : Entered c.env c.db j)
    (hturn : firstPiece c.env c.firstName c.db j = 0 ∨ c.onlyFirst = false) :
    ∃ s', Run.Continues c.round s s' := by
  obtain ⟨-, henter, hpos, -, hesl, -⟩ := h.enter
  have hobject := c.object
  have hroom := hentered.room
  have hmin := minsz_eq
  have hlong : ¬ subW 64 c.db.size s.pos < minsz := by
    rw [h.list.pos, subW_of_le (by omega) (by omega)]
    omega
  have hstop : ¬ (c.db.size ≤ (c.enter s).pos ∨
      c.db.signatureListSize ((c.enter s).esl.getD 0) = 0 ∨ c.sigSize s = 0) := by
    rw [h.howmany.1, henter, hpos, hesl]
    rintro (hout | hlist | hsig)
    · omega
    · exact hentered.list hlist
    · exact hentered.entry hsig
  have hquery : ¬ isError (getMaxVarSz c.env s.queries).1 = true := by
    rw [h.list.queries, hentered.query]
    exact Bool.false_ne_true
  unfold Run.Continues round
  dsimp only
  rw [if_neg hlong, if_neg hstop, if_neg hquery, h.howmany.2]
  simp only [yields_map, mirrorPiece]
  by_cases hzero : firstPiece c.env c.firstName c.db j = 0
  · rw [if_pos hzero]
    exact ⟨_, _, yields_pure.mpr rfl, rfl⟩
  · rw [if_neg hzero, if_pos ⟨hturn.resolve_left hzero, (c.enter_i s).trans h.first⟩]
    exact ⟨_, _, yields_pure.mpr rfl, rfl⟩

lemma exists_atFirst (hskips : ∀ i < j, Skips c.env c.firstName c.db i) :
    ∃ s, Run.Reaches c.round .start s ∧ c.AtFirst j s := by
  induction j with
  | zero => exact ⟨.start, .refl, AtFirst.start⟩
  | succ j ih =>
    obtain ⟨s, hreach, hat⟩ := ih fun i hi => hskips i (Nat.lt_succ_of_lt hi)
    obtain ⟨hentered, hzero⟩ := hskips j (Nat.lt_succ_self j)
    obtain ⟨s', hround⟩ := hat.exists_continues hentered (.inl hzero)
    rcases hat.moves (moves_of_continues hround) with hnext | ⟨hpasses, -⟩
    · exact ⟨s', hreach.tail hround, hnext⟩
    · exact absurd hzero hpasses.some

end

/-- The loop ends. Its position grows in each round that goes on if the signatures that the call for
the numbered variables passes first end, with the header of another list, in the address space: so
always if their list is not smaller than its own header, and in the call for the variable itself. It
does not if they end behind it; in between the bytes in front of the database decide. -/
theorem mirrorLoop_progress (c : MirrorCall) :
    (∃ n e, (Run.loop c.round n .start).Yields (some e)) ∧
      ((∀ j, c.PassesFirst j → c.firstEnd j + 28 < 2 ^ 64) → c.Progress) ∧
      (c.Progress → ∀ j, c.PassesFirst j → c.firstEnd j < 2 ^ 64) ∧
      ((∀ j, c.PassesFirst j →
        sizeofSignatureList ≤ c.db.signatureListSize (listStart c.db j)) → c.Progress) := by
  have henough (hends : ∀ j, c.PassesFirst j → c.firstEnd j + 28 < 2 ^ 64) : c.Progress := by
    refine progress_of_next fun s s' hreach hround => ?_
    have hmoves := moves_of_continues hround
    rcases atFirst_or_settled hends hreach with ⟨j, hat⟩ | hsettled
    · obtain ⟨-, -, -, -, -, hbound⟩ := hat.enter
      rw [hat.next]
      split_ifs with hzero
      · omega
      rcases hmoves.turn with ⟨hnone, -⟩ | ⟨⟨-, hnumbered⟩, -⟩
      · exact absurd (hat.howmany.2 ▸ hnone) hzero
      · have := hends j ⟨hnumbered, hat.skips, hat.entered hmoves, hzero⟩
        omega
    · exact (hsettled.moves (words_of_reaches hreach) hmoves).1
  refine ⟨mirrorLoop_returns words_start, henough, fun h j hpasses => ?_,
    fun h => henough fun j hpasses => hpasses.firstEnd_lt (h j hpasses)⟩
  obtain ⟨s, hreach, hat⟩ := exists_atFirst hpasses.skips
  obtain ⟨s', hround⟩ := hat.exists_continues hpasses.entered (.inr hpasses.numbered)
  have hgrows := h.2 s s' hreach hround
  have hpos := (moves_of_continues hround).pos
  have hbounds := next_bounds (words_of_reaches hreach) hround
  have hlt := (words_of_reaches hreach).pos
  rw [hat.next, if_neg hpasses.some] at hpos hbounds
  omega

def shortList : MirrorCall where
  env :=
    { fixedSizeEnv with
      noQuery := false
      queryVariableInfo := fun k => .ok (if k = 2 then (2 ^ 64 - 1, 2 ^ 64 - 1) else (30, 30)) }
  name := "MokListRT"
  attrs := 6
  db := ⟨.ofBytes (List.replicate 16 0 ++ [100, 0, 0, 0, 0, 0, 0, 0, 48] ++ List.replicate 91 0 ++
    [17, 0, 0, 0, 0, 0, 0, 0, 1]), 200⟩
  onlyFirst := false
  object := by decide
  word k := by
    by_cases hk : k = 2
    · simp [getMaxVarSz, hk]
    · simp [getMaxVarSz, hk]

/-- The position falls from 100 to 77. -/
theorem mirrorLoop_goes_back : ¬ shortList.Progress := by
  intro h
  let s : MirrorState := ⟨some 0, 100, 100, 0, 2, .success, false, []⟩
  have hfirst : Run.Continues shortList.round .start s := rfl
  have hback : (shortList.round s).value.elim pos (fun _ => 100) = 77 := by decide +kernel
  have hround := (shortList.round s).yields_value
  cases hvalue : (shortList.round s).value with
  | inl s' =>
    rw [hvalue] at hback hround
    exact absurd (h.2 s s' (.single hfirst) hround) (by rw [show s'.pos = 77 from hback]; decide)
  | inr e =>
    rw [hvalue] at hback
    cases hback

end MirrorCall

end Shim.Mok
