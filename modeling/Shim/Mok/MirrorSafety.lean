import Shim.Lib.Layout
import Shim.Mok.MirrorLossless

/-!
# Memory that mirroring a key database touches

`mirror_mok_db` reads the sizes of the lists from the database itself, and prints the names of the
numbered variables into a buffer. Neither the list sizes nor the length of that buffer are checked
against what there is.
-/

namespace Shim.Mok

open Lib Verify Run MirrorState

/-! ## What is in range -/

def namesz (name : String) : ℕ := name.length * 2 + 34

def MirrorAccess.InRange (name : String) (db : SigDb) : MirrorAccess → Prop
  | .read off len => off + len ≤ db.size
  | .printName chars => chars * 2 ≤ namesz name
  | .endName index => (index + 1) * 2 ≤ namesz name

instance (name : String) (db : SigDb) (e : MirrorAccess) : Decidable (e.InRange name db) := by
  cases e <;> exact inferInstanceAs (Decidable (_ ≤ _))

lemma fillEsl_fits {type : Guid} {sigSize howmany needed : ℕ} {data : List UInt8}
    {stores : List Write} (htype : type.length = 16) (hdata : data.length = howmany * sigSize)
    (h : fillEsl type sigSize howmany data = .ok (needed, stores)) :
    ∀ w ∈ stores, w.stop ≤ needed := by
  rw [fillEsl_eq] at h
  split_ifs at h
  cases h
  exact (eslStores_fill htype hdata).1

lemma oneSignature_fits {owner : Guid} (howner : owner.length = 16) (data : List UInt8) :
    ∀ w ∈ (oneSignature (some owner) data).2, w.stop ≤ (oneSignature (some owner) data).1 := by
  simp [oneSignature, Write.stop, howner, sizeofSignatureData, sizeofGuid]

/-- A call reads inside the database and writes inside the buffers of the numbered name, of the
lists and of the signature it creates. -/
structure MirrorSafe (env : MirrorEnv) (name : String) (attrs : ℕ) (db : SigDb) (onlyFirst : Bool) :
    Prop where
  accesses : ∀ e, (mirrorMokDb env name attrs db onlyFirst).Emits e → e.InRange name db
  lists : ∀ (type : Guid) (sigSize howmany : ℕ) (data : List UInt8) (needed : ℕ)
    (stores : List Write), type.length = 16 → data.length = howmany * sigSize →
      fillEsl type sigSize howmany data = .ok (needed, stores) →
      ∀ w ∈ stores, w.stop ≤ needed
  signature : ∀ (owner : Guid) (data : List UInt8), owner.length = 16 →
    ∀ w ∈ (oneSignature (some owner) data).2, w.stop ≤ (oneSignature (some owner) data).1

lemma mirrorSafe_iff {env : MirrorEnv} {name : String} {attrs : ℕ} {db : SigDb}
    {onlyFirst : Bool} :
    MirrorSafe env name attrs db onlyFirst ↔
      ∀ e, (mirrorMokDb env name attrs db onlyFirst).Emits e → e.InRange name db :=
  ⟨MirrorSafe.accesses, fun h => ⟨h, fun _ _ _ _ _ _ => fillEsl_fits,
    fun _ data howner => oneSignature_fits howner data⟩⟩

def listStart (db : SigDb) : ℕ → ℕ
  | 0 => 0
  | j + 1 => listStart db j + db.signatureListSize (listStart db j)

def Splits (env : MirrorEnv) (db : SigDb) : Prop :=
  isError (getMaxVarSz env 0).1 = false ∧ (getMaxVarSz env 0).2 < db.size

/-- The signatures of a list that go into the variable itself if the lists before it are skipped.
The difference wraps if the list is smaller than its fields. -/
def firstPiece (env : MirrorEnv) (name : String) (db : SigDb) (j : ℕ) : ℕ :=
  howMany (withoutName (getMaxVarSz env (j + 1)).2 name) (db.signatureSize (listStart db j))
    (subW 64 (listStart db (j + 1)) (listStart db j + sizeofSignatureList))

structure Entered (env : MirrorEnv) (db : SigDb) (j : ℕ) : Prop where
  room : listStart db j + minsz ≤ db.size
  list : db.signatureListSize (listStart db j) ≠ 0
  entry : db.signatureSize (listStart db j) ≠ 0
  query : isError (getMaxVarSz env (j + 1)).1 = false

def Skips (env : MirrorEnv) (name : String) (db : SigDb) (j : ℕ) : Prop :=
  Entered env db j ∧ firstPiece env name db j = 0

structure Copies (env : MirrorEnv) (name : String) (db : SigDb) (j : ℕ) : Prop where
  entered : Entered env db j
  some : firstPiece env name db j ≠ 0
  most : firstPiece env name db j ≤
    (2 ^ 32 - 1 - sizeofSignatureList) / db.signatureSize (listStart db j)
  alloc : env.allocEsl name = true

def FirstFits (env : MirrorEnv) (name : String) (db : SigDb) : Prop :=
  ∀ j, (∀ i < j, Skips env name db i) → listStart db j ≤ db.size ∧ (Copies env name db j →
      listStart db j + sizeofSignatureList +
        firstPiece env name db j * db.signatureSize (listStart db j) ≤ db.size)

structure Numbers (env : MirrorEnv) (db : SigDb) : Prop where
  alloc : env.allocName = true
  room : minsz ≤ db.size
  list : db.signatureListSize 0 ≠ 0
  entry : db.signatureSize 0 ≠ 0

def Mirrorable (env : MirrorEnv) (name : String) (db : SigDb) (onlyFirst : Bool) : Prop :=
  Splits env db → if onlyFirst then FirstFits env name db else ¬ Numbers env db

/-! ## What a round touches -/

section

variable {env : MirrorEnv} {name : String} {attrs : ℕ} {db : SigDb} {onlyFirst : Bool}
  {s s' : MirrorState} {e : MirrorAccess} {howmany j : ℕ}

def MirrorState.Fresh (s : MirrorState) : Prop := s.esl = none ∨ s.eslEndPos ≤ s.pos

lemma MirrorState.Fresh.enter_eq (h : s.Fresh) : s.enter db = { s with
      esl := some s.pos
      eslEndPos := s.pos + db.signatureListSize s.pos
      pos := s.pos + sizeofSignatureList } :=
  if_pos h

lemma mirrorOneEsl_emits {namen : String} {esl esd : ℕ} :
    (mirrorOneEsl env namen attrs db esl esd howmany).Emits e ↔
      EslSizes howmany (db.signatureSize esl) ∧ env.allocEsl namen = true ∧
        (e = .read esl 16 ∨ e = .read esd (howmany * db.signatureSize esl)) := by
  rw [mirrorOneEsl_eq]
  by_cases hsizes : EslSizes howmany (db.signatureSize esl)
  · rw [if_pos hsizes, and_iff_right hsizes]
    cases halloc : env.allocEsl namen with
    | false => exact iff_of_false emits_pure fun h => Bool.false_ne_true h.1
    | true => simp
  · rw [if_neg hsizes]
    exact iff_of_false emits_pure fun h => hsizes h.1

lemma mirrorPiece_emits : (mirrorPiece env name attrs db true howmany s).Emits e ↔
      howmany ≠ 0 ∧ (mirrorOneEsl env name attrs db (s.esl.getD 0) s.pos howmany).Emits e := by
  unfold mirrorPiece
  by_cases hzero : howmany = 0
  · simp [hzero]
  have hskip : ¬ (true = false ∧ s.i = 0) := fun h => Bool.noConfusion h.1
  rw [if_neg hzero, if_neg hskip, emits_bind, and_iff_right hzero]
  refine or_iff_left ?_
  rintro ⟨r, -, hr⟩
  split at hr
  · exact emits_pure hr
  · exact emits_pure hr

lemma mirrorRound_emits (h : s.Fresh) : (mirrorRound env name attrs db onlyFirst s).Emits e ↔
      minsz ≤ subW 64 db.size s.pos ∧ (e = .read (s.pos + 16) 4 ∨
          s.pos + sizeofSignatureList < db.size ∧ db.signatureListSize s.pos ≠ 0 ∧
            (e = .read (s.pos + 24) 4 ∨ db.signatureSize s.pos ≠ 0 ∧ (onlyFirst = false ∧
                    (e = .printName ((env.namen name onlyFirst s.i).length + 1) ∨
                      e = .endName (name.length + 18 - 1)) ∨
                  isError (getMaxVarSz env s.queries).1 = false ∧
                    (mirrorPiece env name attrs db onlyFirst
                      (howMany (withoutName (getMaxVarSz env s.queries).2
                          (env.namen name onlyFirst s.i)) (db.signatureSize s.pos)
                        (subW 64 (s.pos + db.signatureListSize s.pos)
                          (s.pos + sizeofSignatureList)))
                      { s.enter db with
                        queries := s.queries + 1
                        status := (getMaxVarSz env s.queries).1 }).Emits e))) := by
  have hfresh : s.esl = none ∨ s.eslEndPos ≤ s.pos := h
  unfold mirrorRound
  by_cases hend : subW 64 db.size s.pos < minsz
  · simp [hend]
  have hlong := not_lt.mp hend
  by_cases hout : db.size ≤ s.pos + sizeofSignatureList
  · simp [hend, h.enter_eq, hout, hfresh, hlong]
  have hin := not_le.mp hout
  by_cases hlist : db.signatureListSize s.pos = 0
  · simp [hend, h.enter_eq, hout, hfresh, hlong, hlist]
  by_cases hsig : db.signatureSize s.pos = 0
  · simp [hend, h.enter_eq, hout, hin, hfresh, hlong, hlist, hsig]
  by_cases hquery : isError (getMaxVarSz env s.queries).1 = true
  · simp [hend, h.enter_eq, hout, hin, hfresh, hlong, hlist, hsig, hquery, and_or_left]
  · simp [hend, h.enter_eq, hout, hin, hfresh, hlong, hlist, hsig, hquery, and_or_left, or_assoc]

lemma mirrorPiece_continues_iff :
    (mirrorPiece env name attrs db true howmany s).Yields (.inl s') ↔
      howmany = 0 ∧ { s with pos := s.eslEndPos } = s' := by
  unfold mirrorPiece
  by_cases hzero : howmany = 0
  · simp [hzero]
  have hskip : ¬ (true = false ∧ s.i = 0) := fun h => Bool.noConfusion h.1
  rw [if_neg hzero, if_neg hskip, yields_bind]
  refine iff_of_false ?_ fun h => hzero h.1
  rintro ⟨r, -, hr⟩
  split at hr
  · cases yields_pure.mp hr
  · cases yields_pure.mp hr

def MirrorState.past (env : MirrorEnv) (db : SigDb) (s : MirrorState) : MirrorState :=
  { s.enter db with
    queries := s.queries + 1
    status := (getMaxVarSz env s.queries).1
    pos := s.pos + db.signatureListSize s.pos }

lemma mirrorRound_continues_iff (h : s.Fresh) :
    Run.Continues (mirrorRound env name attrs db true) s s' ↔
      (minsz ≤ subW 64 db.size s.pos ∧ s.pos + sizeofSignatureList < db.size ∧
        db.signatureListSize s.pos ≠ 0 ∧ db.signatureSize s.pos ≠ 0 ∧
        isError (getMaxVarSz env s.queries).1 = false ∧
        howMany (withoutName (getMaxVarSz env s.queries).2 name) (db.signatureSize s.pos)
          (subW 64 (s.pos + db.signatureListSize s.pos) (s.pos + sizeofSignatureList)) = 0) ∧
      s.past env db = s' := by
  unfold Run.Continues past
  rw [mirrorRound_yields, h.enter_eq]
  by_cases hend : subW 64 db.size s.pos < minsz
  · simp [hend]
  have hlong := not_lt.mp hend
  by_cases hout : db.size ≤ s.pos + sizeofSignatureList
  · simp [hend, hout]
  have hin := not_le.mp hout
  by_cases hlist : db.signatureListSize s.pos = 0
  · simp [hend, hout, hlist]
  by_cases hsig : db.signatureSize s.pos = 0
  · simp [hend, hout, hsig]
  by_cases hquery : isError (getMaxVarSz env s.queries).1 = true
  · simp [hend, hout, hlist, hsig, hquery]
  · simp [hend, hout, hlong, hin, hlist, hsig, hquery, mirrorPiece_continues_iff, MirrorEnv.namen]

lemma sizes_of_continues (h : s.Fresh)
    (hs : Run.Continues (mirrorRound env name attrs db onlyFirst) s s') :
    minsz ≤ subW 64 db.size s.pos ∧ db.signatureListSize s.pos ≠ 0 ∧
      db.signatureSize s.pos ≠ 0 := by
  unfold Run.Continues at hs
  rw [mirrorRound_yields, h.enter_eq] at hs
  split_ifs at hs with hend hout hsizes
  obtain ⟨hlist, hsig⟩ := not_or.mp hsizes
  exact ⟨not_lt.mp hend, hlist, hsig⟩

structure AtList (db : SigDb) (j : ℕ) (s : MirrorState) : Prop where
  fresh : s.Fresh
  pos : s.pos = listStart db j
  queries : s.queries = j + 1

lemma atList_start : AtList db 0 .start := ⟨.inl rfl, rfl, rfl⟩

lemma AtList.continues (h : AtList db j s) (hsize : db.size < 2 ^ 64)
    (hs : Run.Continues (mirrorRound env name attrs db true) s s') :
    Skips env name db j ∧ AtList db (j + 1) s' := by
  obtain ⟨⟨hlong, hin, hlist, hsig, hquery, hnone⟩, rfl⟩ := (mirrorRound_continues_iff h.fresh).mp hs
  have hpos : s.pos ≤ db.size := by omega
  rw [subW_of_le hsize hpos] at hlong
  rw [h.pos] at hlong hlist hsig hnone hpos
  rw [h.queries] at hquery hnone
  refine ⟨⟨⟨by omega, hlist, hsig, hquery⟩, hnone⟩, .inr ?_, ?_, ?_⟩
  · unfold past
    rw [h.fresh.enter_eq]
  · show s.pos + db.signatureListSize s.pos = _
    rw [h.pos]
    rfl
  · show s.queries + 1 = _
    rw [h.queries]

lemma AtList.exists_continues (attrs : ℕ) (h : AtList db j s) (hsize : db.size < 2 ^ 64)
    (hskip : Skips env name db j) :
    ∃ s', Run.Continues (mirrorRound env name attrs db true) s s' ∧ AtList db (j + 1) s' := by
  obtain ⟨hentered, hnone⟩ := hskip
  have hroom := hentered.room
  have hmin := minsz_eq
  have hsl : sizeofSignatureList = 28 := rfl
  have hs : Run.Continues (mirrorRound env name attrs db true) s (s.past env db) := by
    refine (mirrorRound_continues_iff h.fresh).mpr ⟨⟨?_, ?_, ?_, ?_, ?_, ?_⟩, rfl⟩
    · rw [h.pos, subW_of_le hsize (by omega)]
      omega
    · rw [h.pos]
      omega
    · rw [h.pos]
      exact hentered.list
    · rw [h.pos]
      exact hentered.entry
    · rw [h.queries]
      exact hentered.query
    · rw [h.queries, h.pos]
      exact hnone
  exact ⟨_, hs, (h.continues hsize hs).2⟩

lemma reaches_atList (hsize : db.size < 2 ^ 64)
    (hs : Run.Reaches (mirrorRound env name attrs db true) .start s) :
    ∃ j, AtList db j s ∧ ∀ i < j, Skips env name db i := by
  induction hs with
  | refl => exact ⟨0, atList_start, fun i hi => absurd hi (Nat.not_lt_zero i)⟩
  | tail _ hstep ih =>
    obtain ⟨j, hat, hskips⟩ := ih
    obtain ⟨hskip, hat'⟩ := hat.continues hsize hstep
    refine ⟨j + 1, hat', fun i hi => ?_⟩
    rcases Nat.lt_succ_iff_lt_or_eq.mp hi with hlt | rfl
    · exact hskips i hlt
    · exact hskip

lemma exists_reaches_atList (attrs : ℕ) (hsize : db.size < 2 ^ 64)
    (hskips : ∀ i < j, Skips env name db i) :
    ∃ s, Run.Reaches (mirrorRound env name attrs db true) .start s ∧ AtList db j s := by
  induction j with
  | zero => exact ⟨.start, .refl, atList_start⟩
  | succ j ih =>
    obtain ⟨s, hreach, hat⟩ := ih fun i hi => hskips i (Nat.lt_succ_of_lt hi)
    obtain ⟨s', hstep, hat'⟩ := hat.exists_continues attrs hsize (hskips j (Nat.lt_succ_self j))
    exact ⟨s', hreach.tail hstep, hat'⟩

lemma listStart_lt (hskips : ∀ i < j, Skips env name db i) :
    listStart db j < db.size + 2 ^ 32 := by
  cases j with
  | zero => exact Nat.lt_of_lt_of_le (Nat.two_pow_pos 32) (Nat.le_add_left _ _)
  | succ j =>
    have hroom := (hskips j (Nat.lt_succ_self j)).1.room
    have hlist : db.signatureListSize (listStart db j) < 2 ^ 32 := Mem.u32_lt _ _
    show listStart db j + db.signatureListSize (listStart db j) < db.size + 2 ^ 32
    omega

lemma AtList.emits_iff (env : MirrorEnv) (name : String) (attrs : ℕ) (e : MirrorAccess)
    (h : AtList db j s) (hsize : db.size < 2 ^ 64) (hle : listStart db j ≤ db.size) :
    (mirrorRound env name attrs db true s).Emits e ↔ listStart db j + minsz ≤ db.size ∧
          (e = .read (listStart db j + 16) 4 ∨
            db.signatureListSize (listStart db j) ≠ 0 ∧ e = .read (listStart db j + 24) 4) ∨
        Copies env name db j ∧ (e = .read (listStart db j) 16 ∨
            e = .read (listStart db j + sizeofSignatureList)
              (firstPiece env name db j * db.signatureSize (listStart db j))) := by
  have hmin := minsz_eq
  have hsl : sizeofSignatureList = 28 := rfl
  have hpiece : firstPiece env name db j =
      howMany (withoutName (getMaxVarSz env (j + 1)).2 name) (db.signatureSize (listStart db j))
        (subW 64 (listStart db j + db.signatureListSize (listStart db j))
          (listStart db j + sizeofSignatureList)) := rfl
  rw [mirrorRound_emits h.fresh, mirrorPiece_emits, mirrorOneEsl_emits, h.fresh.enter_eq, h.pos,
    h.queries, subW_of_le hsize hle]
  dsimp only [Option.getD_some, MirrorEnv.namen]
  rw [if_pos rfl, ← hpiece]
  constructor
  · rintro ⟨hlong, rfl | ⟨hin, hlist, rfl | ⟨hsig, ⟨hfirst, -⟩ | ⟨hquery, hsome, hmost, halloc, he⟩⟩⟩⟩
    · exact .inl ⟨by omega, .inl rfl⟩
    · exact .inl ⟨by omega, .inr ⟨hlist, rfl⟩⟩
    · cases hfirst
    · exact .inr ⟨⟨⟨by omega, hlist, hsig, hquery⟩, hsome, hmost.2.2, halloc⟩, he⟩
  · rintro (⟨hroom, rfl | ⟨hlist, rfl⟩⟩ | ⟨⟨⟨hroom, hlist, hsig, hquery⟩, hsome, hmost, halloc⟩, he⟩)
    · exact ⟨by omega, .inl rfl⟩
    · exact ⟨by omega, .inr ⟨by omega, hlist, .inl rfl⟩⟩
    · exact ⟨by omega, .inr ⟨by omega, hlist, .inr ⟨hsig, .inr
        ⟨hquery, hsome, ⟨hsome, hsig, hmost⟩, halloc, he⟩⟩⟩⟩

/-- A round of the call for the first variable stays in range iff its list begins in the database and
has in it what is copied. -/
theorem AtList.inRange_iff (h : AtList db j s) (hsize : db.size + 2 ^ 32 ≤ 2 ^ 64)
    (hstart : listStart db j < db.size + 2 ^ 32) :
    (∀ e, (mirrorRound env name attrs db true s).Emits e → e.InRange name db) ↔
      listStart db j ≤ db.size ∧ (Copies env name db j → listStart db j + sizeofSignatureList +
            firstPiece env name db j * db.signatureSize (listStart db j) ≤ db.size) := by
  have hmin := minsz_eq
  rcases le_or_gt (listStart db j) db.size with hle | hgt
  · have hemits := fun e => h.emits_iff env name attrs e (by omega) hle
    rw [and_iff_right hle]
    constructor
    · intro hall hcopies
      exact hall _ ((hemits _).mpr (.inr ⟨hcopies, .inr rfl⟩))
    · intro hcopies e he
      rcases (hemits e).mp he with ⟨hroom, rfl | ⟨-, rfl⟩⟩ | ⟨hc, rfl | rfl⟩
      · show listStart db j + 16 + 4 ≤ db.size
        omega
      · show listStart db j + 24 + 4 ≤ db.size
        omega
      · have hroom := hc.entered.room
        show listStart db j + 16 ≤ db.size
        omega
      · exact hcopies hc
  · -- the difference of the size and the position has wrapped, so the list is read all the same
    refine iff_of_false (fun hall => ?_) (fun hpair => absurd hpair.1 (not_le.mpr hgt))
    have hlong : minsz ≤ subW 64 db.size s.pos := by
      rw [h.pos, subW_of_lt (by omega) hgt]
      omega
    have hread : s.pos + 16 + 4 ≤ db.size :=
      hall (.read (s.pos + 16) 4) ((mirrorRound_emits h.fresh).mpr ⟨hlong, .inl rfl⟩)
    rw [h.pos] at hread
    omega

end

/-! ## The whole call -/

section

variable {env : MirrorEnv} {name : String} {attrs : ℕ} {db : SigDb} {onlyFirst : Bool}
  {e : MirrorAccess}

lemma mirrorMokDb_emits : (mirrorMokDb env name attrs db onlyFirst).Emits e ↔
      Splits env db ∧ (onlyFirst = false → env.allocName = true) ∧
        (Run.loop (mirrorRound env name attrs db onlyFirst) (db.size + 1) .start).Emits e := by
  unfold mirrorMokDb Splits
  dsimp only
  by_cases hfail : isError (getMaxVarSz env 0).1 = true ∧ (getMaxVarSz env 0).1 ≠ .unsupported
  · rw [if_pos hfail, hfail.1]
    exact iff_of_false emits_pure fun h => Bool.noConfusion h.1.1
  rw [if_neg hfail]
  by_cases hwhole : db.size ≤ (getMaxVarSz env 0).2 ∨ (getMaxVarSz env 0).1 = .unsupported
  · rw [if_pos hwhole]
    refine iff_of_false (by split <;> exact emits_pure) ?_
    rintro ⟨⟨hok, hlarge⟩, -⟩
    rcases hwhole with hle | hunsupported
    · omega
    · rw [hunsupported] at hok
      cases hok
  obtain ⟨hlarge, hsupported⟩ := not_or.mp hwhole
  have hok : isError (getMaxVarSz env 0).1 = false :=
    Bool.eq_false_of_not_eq_true fun h => hfail ⟨h, hsupported⟩
  have hsplits : isError (getMaxVarSz env 0).1 = false ∧ (getMaxVarSz env 0).2 < db.size :=
    ⟨hok, not_le.mp hlarge⟩
  rw [if_neg hwhole, and_iff_right hsplits]
  by_cases halloc : onlyFirst = false ∧ env.allocName = false
  · rw [if_pos halloc]
    refine iff_of_false emits_pure fun h => ?_
    rw [h.1 halloc.1] at halloc
    cases halloc.2
  have hname : onlyFirst = false → env.allocName = true := fun h =>
    Bool.eq_true_of_not_eq_false fun h' => halloc ⟨h, h'⟩
  rw [if_neg halloc, and_iff_right hname, emits_bind]
  refine or_iff_left ?_
  rintro ⟨r, -, hr⟩
  split at hr
  · exact emits_pure hr
  · exact emits_pure hr
  · exact emits_pure hr

lemma mirrorLoop_emits :
    (Run.loop (mirrorRound env name attrs db onlyFirst) (db.size + 1) .start).Emits e ↔
      ∃ s, Run.Reaches (mirrorRound env name attrs db onlyFirst) .start s ∧
        (mirrorRound env name attrs db onlyFirst s).Emits e :=
  loop_emits mirrorRound_variant (Nat.lt_succ_of_le (Nat.sub_le _ _))

lemma firstFits_iff (attrs : ℕ) (hsize : db.size + 2 ^ 32 ≤ 2 ^ 64) :
    (∀ e, (Run.loop (mirrorRound env name attrs db true) (db.size + 1) .start).Emits e →
      e.InRange name db) ↔ FirstFits env name db := by
  have hlt : db.size < 2 ^ 64 := by omega
  constructor
  · intro h j hskips
    obtain ⟨s, hreach, hat⟩ := exists_reaches_atList attrs hlt hskips
    exact (hat.inRange_iff hsize (listStart_lt hskips)).mp fun e he =>
      h e (mirrorLoop_emits.mpr ⟨s, hreach, he⟩)
  · intro h e he
    obtain ⟨s, hreach, he⟩ := mirrorLoop_emits.mp he
    obtain ⟨j, hat, hskips⟩ := reaches_atList hlt hreach
    exact (hat.inRange_iff hsize (listStart_lt hskips)).mpr (h j hskips) e he

/-- The end of a numbered name is the character `StrLen(name) + 17` of a buffer of as many. -/
theorem not_numbers_iff (name : String) (attrs : ℕ) (hsize : db.size < 2 ^ 64)
    (halloc : env.allocName = true) :
    (∀ e, (Run.loop (mirrorRound env name attrs db false) (db.size + 1) .start).Emits e →
      e.InRange name db) ↔ ¬ Numbers env db := by
  have hmin := minsz_eq
  have hsl : sizeofSignatureList = 28 := rfl
  have hfresh : MirrorState.start.Fresh := .inl rfl
  have hleft : subW 64 db.size MirrorState.start.pos = db.size := subW_of_le hsize (Nat.zero_le _)
  constructor
  · intro hall hnumbers
    have hroom := hnumbers.room
    have hlong : minsz ≤ subW 64 db.size MirrorState.start.pos := by
      rw [hleft]
      exact hroom
    have hin : MirrorState.start.pos + sizeofSignatureList < db.size := by
      show 0 + sizeofSignatureList < db.size
      omega
    have hend : (name.length + 18 - 1 + 1) * 2 ≤ name.length * 2 + 34 :=
      hall (.endName (name.length + 18 - 1)) (mirrorLoop_emits.mpr ⟨.start, .refl,
        (mirrorRound_emits hfresh).mpr ⟨hlong, .inr ⟨hin, hnumbers.list,
          .inr ⟨hnumbers.entry, .inl ⟨rfl, .inr rfl⟩⟩⟩⟩⟩)
    omega
  · intro hnot e he
    -- the first round is the only one, and it reads the fields of the first list at most
    obtain ⟨s, hreach, he⟩ := mirrorLoop_emits.mp he
    rcases hreach.cases_head with rfl | ⟨s', hstep, -⟩
    · obtain ⟨hlong, he⟩ := (mirrorRound_emits hfresh).mp he
      rw [hleft] at hlong
      rcases he with rfl | ⟨-, hlist, rfl | ⟨hsig, -⟩⟩
      · show 0 + 16 + 4 ≤ db.size
        omega
      · show 0 + 24 + 4 ≤ db.size
        omega
      · exact absurd ⟨halloc, hlong, hlist, hsig⟩ hnot
    · obtain ⟨hlong, hlist, hsig⟩ := sizes_of_continues hfresh hstep
      rw [hleft] at hlong
      exact absurd ⟨halloc, hlong, hlist, hsig⟩ hnot

/-- A call stays in range iff the database is not split; or the lists that it skips, and what it
copies, end in the database; or, for the numbered variables, it does not get to a name. -/
theorem mirrorMokDb_safe_iff (env : MirrorEnv) (name : String) (attrs : ℕ) (db : SigDb)
    (onlyFirst : Bool) (hsize : db.size + 2 ^ 32 ≤ 2 ^ 64) :
    MirrorSafe env name attrs db onlyFirst ↔ Mirrorable env name db onlyFirst := by
  rw [mirrorSafe_iff]
  unfold Mirrorable
  by_cases hsplits : Splits env db
  · rw [imp_iff_right hsplits]
    cases onlyFirst with
    | true =>
      rw [if_pos rfl, ← firstFits_iff attrs hsize]
      refine forall_congr' fun e => ?_
      rw [mirrorMokDb_emits, and_iff_right hsplits]
      exact imp_congr_left (and_iff_right fun h => by cases h)
    | false =>
      rw [if_neg Bool.false_ne_true]
      by_cases halloc : env.allocName = true
      · rw [← not_numbers_iff name attrs (by omega) halloc]
        refine forall_congr' fun e => ?_
        rw [mirrorMokDb_emits, and_iff_right hsplits]
        exact imp_congr_left (and_iff_right fun _ => halloc)
      · refine iff_of_true (fun e he => ?_) fun h => halloc h.alloc
        exact absurd ((mirrorMokDb_emits.mp he).2.1 rfl) halloc
  · refine iff_of_true (fun e he => ?_) fun h => absurd h hsplits
    exact absurd (mirrorMokDb_emits.mp he).1 hsplits

/-- A list that is not smaller than its own header holds its signatures. -/
theorem firstPiece_bytes_le (env : MirrorEnv) (name : String) {j : ℕ}
    (hlt : listStart db (j + 1) < 2 ^ 64)
    (hlist : sizeofSignatureList ≤ db.signatureListSize (listStart db j)) :
    firstPiece env name db j * db.signatureSize (listStart db j) ≤
      db.signatureListSize (listStart db j) - sizeofSignatureList := by
  have hnext : listStart db (j + 1) = listStart db j + db.signatureListSize (listStart db j) := rfl
  have hleft : subW 64 (listStart db (j + 1)) (listStart db j + sizeofSignatureList) =
      db.signatureListSize (listStart db j) - sizeofSignatureList := by
    rw [subW_of_le hlt (by omega)]
    omega
  refine le_trans (Nat.mul_le_mul_right _ ?_) (Nat.div_mul_le_self _ _)
  unfold firstPiece howMany
  rw [hleft]
  split_ifs
  · exact min_le_right _ _
  · exact Nat.zero_le _

lemma holdsFrom_listStart {ls : List SignatureList} (h : db.Holds ls) {j : ℕ}
    (hskips : ∀ i < j, Skips env name db i) : ∃ rest, db.HoldsFrom (listStart db j) rest := by
  induction j with
  | zero => exact ⟨ls, h⟩
  | succ j ih =>
    obtain ⟨rest, hrest⟩ := ih fun i hi => hskips i (Nat.lt_succ_of_lt hi)
    have hroom := (hskips j (Nat.lt_succ_self j)).1.room
    have hmin := minsz_eq
    cases rest with
    | nil =>
      have hend : listStart db j = db.size := hrest
      omega
    | cons l rest =>
      refine ⟨rest, ?_⟩
      show db.HoldsFrom (listStart db j + db.signatureListSize (listStart db j)) rest
      rw [hrest.1.size]
      exact hrest.2

lemma firstFits_of_holds (env : MirrorEnv) (name : String) {ls : List SignatureList}
    (h : db.Holds ls) (hsize : db.size < 2 ^ 64) : FirstFits env name db := by
  intro j hskips
  obtain ⟨rest, hrest⟩ := holdsFrom_listStart h hskips
  have hend := hrest.size_eq
  refine ⟨by omega, fun hcopies => ?_⟩
  have hroom := hcopies.entered.room
  have hmin := minsz_eq
  have hsl : sizeofSignatureList = 28 := rfl
  cases rest with
  | nil =>
    have hnone : listStart db j = db.size := hrest
    omega
  | cons l rest =>
    have hbehind := hrest.2.size_eq
    have hl : l.size = 28 + l.header.length + l.entries.length * l.entrySize := rfl
    have hnext : listStart db (j + 1) = listStart db j + l.size := by
      show listStart db j + db.signatureListSize (listStart db j) = _
      rw [hrest.1.size]
    have hlist := hrest.1.size
    have hlt : listStart db (j + 1) < 2 ^ 64 := by omega
    have hbytes := firstPiece_bytes_le env name hlt (by omega)
    omega

def overlongDb : SigDb :=
  ⟨Mem.ofBytes (certSha256Guid ++ u32Bytes 3000 ++ u32Bytes 0 ++ u32Bytes 2000), 2000⟩

/-- With thirty hashes the name ends at character 26 of a buffer of 26. The list of `overlongDb` is
skipped, and the next one is looked for behind the database. -/
theorem mirrorMokDb_out_of_range :
    ((mirrorMokDb fixedSizeEnv "MokListRT" 6 (sha256Db 30 (by decide)) false).Emits (.endName 26) ∧
      namesz "MokListRT" = 26 * 2) ∧
    (mirrorMokDb fixedSizeEnv "MokListRT" 6 overlongDb true).Emits (.read 3016 4) ∧
      overlongDb.size = 2000 := by
  refine ⟨⟨?_, rfl⟩, ?_, rfl⟩
  · unfold Run.Emits
    decide +kernel
  · unfold Run.Emits
    decide +kernel

theorem mirrorMokDb_safe_sha256 : (sha256Db 30 (by decide)).size + 2 ^ 32 ≤ 2 ^ 64 ∧
      MirrorSafe fixedSizeEnv "MokListRT" 6 (sha256Db 30 (by decide)) true := by
  have hsize : (sha256Db 30 (by decide)).size + 2 ^ 32 ≤ 2 ^ 64 := by decide +kernel
  refine ⟨hsize, (mirrorMokDb_safe_iff _ _ 6 _ true hsize).mpr ?_⟩
  exact fun _ => firstFits_of_holds _ _ (split_sha256Db (by decide) (by decide)).holds (by omega)

end

end Shim.Mok
