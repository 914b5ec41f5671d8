import Shim.Mok.KeyFormat

/-!
# Mirroring a key database

A key database that is larger than a variable may be is split: `mirror_mok_db` puts as many
signatures of its first list as fit into the variable itself (`only_first`), and in a second call the
rest into numbered variables. The second call computes the number for the first one again.
-/

namespace Shim.Mok

open Lib Verify Run
open Sbat (Variable)

/-- The firmware, the allocator and `SPrint`. `none` is a `SetVariable` that works. A call writes a
variable at most once, so the name finds its answer. -/
structure MirrorEnv where
  /-- `EFI_MAJOR_VERSION(RT) < 2 || is_apple_firmware_vendor()`. -/
  noQuery : Bool
  /-- `QueryVariableInfo`, the `k`-th time: the remaining storage and the largest variable. -/
  queryVariableInfo : ℕ → Except Failure (ℕ × ℕ)
  allocName : Bool
  allocEsl : String → Bool
  allocDummy : Bool
  setVariable : String → Option Failure
  /-- `SPrint` of a name and a number into a buffer of a size. -/
  sprint : (name : String) → (size i : ℕ) → String

def getMaxVarSz (env : MirrorEnv) (k : ℕ) : EfiStatus × ℕ :=
  if env.noQuery then (.success, 1024)
  else
    match env.queryVariableInfo k with
    | .error status => (status, 0)
    | .ok (remainingSz, maxVarSz) =>
      (.success, if maxVarSz < remainingSz then maxVarSz else remainingSz)

/-- A range of the database is read; `SPrint` writes characters of the name, the end included; the
last character of the name's buffer is written. -/
inductive MirrorAccess where
  | read (off len : ℕ)
  | printName (chars : ℕ)
  | endName (index : ℕ)
  deriving DecidableEq

def MirrorEnv.set (env : MirrorEnv) (namen : String) (v : Variable) :
    EfiStatus × List (String × Variable) :=
  match env.setVariable namen with
  | some status => (status, [])
  | none => (.success, [(namen, v)])

def mirrorOneEsl (env : MirrorEnv) (namen : String) (attrs : ℕ) (db : SigDb) (esl esd howmany : ℕ) :
    Run MirrorAccess Empty (EfiStatus × List (String × Variable)) :=
  let sigSize := db.signatureSize esl
  match variableCreateEsl (db.signatureType esl) sigSize howmany
      (db.mem.slice esd (howmany * sigSize)) with
  | .error status => return (status, [])
  | .ok var =>
    if env.allocEsl namen = false then return (.outOfResources, [])
    else do
      .emit (.read esl 16)
      .emit (.read esd (howmany * sigSize))
      return env.set namen ⟨var, attrs⟩

/-! ## The loop -/

def minsz : ℕ := sizeofSignatureList + sizeofSignatureData + 20

lemma minsz_eq : minsz = 65 := rfl

structure MirrorState where
  esl : Option ℕ
  eslEndPos : ℕ
  pos : ℕ
  i : ℕ
  /-- How often the firmware has been asked for the maximal size. -/
  queries : ℕ
  status : EfiStatus
  didOne : Bool
  writes : List (String × Variable)

inductive MirrorExit where
  /-- The condition of the loop, or `break`. -/
  | leave (s : MirrorState)
  | ret (s : MirrorState)

def MirrorState.enter (db : SigDb) (s : MirrorState) : MirrorState :=
  if s.esl = none ∨ s.eslEndPos ≤ s.pos then
    { s with
      esl := some s.pos
      eslEndPos := s.pos + db.signatureListSize s.pos
      pos := s.pos + sizeofSignatureList }
  else s

def withoutName (maxVarSz : ℕ) (namen : String) : ℕ :=
  if (namen.length + 1) * 2 < maxVarSz then maxVarSz - (namen.length + 1) * 2 else 0

def howMany (maxVarSz sigSize left : ℕ) : ℕ :=
  if sizeofSignatureList < maxVarSz then
    min ((maxVarSz - sizeofSignatureList) / sigSize) (left / sigSize)
  else 0

def MirrorEnv.namen (env : MirrorEnv) (name : String) (onlyFirst : Bool) (i : ℕ) : String :=
  if onlyFirst then name else env.sprint name (name.length + 18) i

section

variable (env : MirrorEnv) (name : String) (attrs : ℕ) (db : SigDb) (onlyFirst : Bool)

def mirrorPiece (howmany : ℕ) (s : MirrorState) :
    Run MirrorAccess Empty (MirrorState ⊕ MirrorExit) :=
  let esl := s.esl.getD 0
  let adj := howmany * db.signatureSize esl
  if howmany = 0 then return .inl { s with pos := s.eslEndPos }
  else if onlyFirst = false ∧ s.i = 0 then return .inl { s with pos := s.pos + adj, i := s.i + 1 }
  else do
    let r ← mirrorOneEsl env (env.namen name onlyFirst s.i) attrs db esl s.pos howmany
    let s := { s with status := r.1, writes := s.writes ++ r.2 }
    if isError r.1 then return .inr (.leave s)
    else
      let s := { s with pos := s.pos + adj, didOne := true }
      if onlyFirst then return .inr (.leave s) else return .inl { s with i := s.i + 1 }

def mirrorRound (s : MirrorState) : Run MirrorAccess Empty (MirrorState ⊕ MirrorExit) :=
  if subW 64 db.size s.pos < minsz then return .inr (.leave s)
  else do
    .emitIf (s.esl = none ∨ s.eslEndPos ≤ s.pos) (.read (s.pos + 16) 4)
    let s := s.enter db
    let esl := s.esl.getD 0
    if db.size ≤ s.pos then return .inr (.leave s)
    else
      .emit (.read (esl + 16) 4)
      if db.signatureListSize esl = 0 then return .inr (.leave s)
      else
        .emit (.read (esl + 24) 4)
        if db.signatureSize esl = 0 then return .inr (.leave s)
        else
          let namen := env.namen name onlyFirst s.i
          .emitIf (onlyFirst = false) (.printName (namen.length + 1))
          .emitIf (onlyFirst = false) (.endName (name.length + 18 - 1))
          let max := getMaxVarSz env s.queries
          let s := { s with queries := s.queries + 1, status := max.1 }
          if isError max.1 then return .inr (.ret s)
          else
            mirrorPiece env name attrs db onlyFirst
              (howMany (withoutName max.2 namen) (db.signatureSize esl)
                (subW 64 s.eslEndPos s.pos)) s

def MirrorState.start : MirrorState := ⟨none, 0, 0, 0, 1, .success, false, []⟩

def mirrorEnd (s : MirrorState) : EfiStatus × List (String × Variable) :=
  if isError s.status then (s.status, s.writes)
  else if onlyFirst = true ∧ s.didOne = false then
    match dummyEntry with
    | .error status => (status, s.writes)
    | .ok var =>
      if env.allocDummy = false then (.outOfResources, s.writes)
      else
        let r := env.set name ⟨var, variableBootserviceAccess ||| variableRuntimeAccess⟩
        (r.1, s.writes ++ r.2)
  else (s.status, s.writes)

/-- The status, and the variables that are written. A round that goes on moves forward, so `size +
1` rounds are enough. -/
def mirrorMokDb : Run MirrorAccess Empty (EfiStatus × List (String × Variable)) :=
  let max := getMaxVarSz env 0
  if isError max.1 ∧ max.1 ≠ .unsupported then return (max.1, [])
  else if db.size ≤ max.2 ∨ max.1 = .unsupported then
    if onlyFirst then return env.set name ⟨db.mem.slice 0 db.size, attrs⟩ else return (.success, [])
  else if onlyFirst = false ∧ env.allocName = false then return (.outOfResources, [])
  else do
    match ← Run.loop (mirrorRound env name attrs db onlyFirst) (db.size + 1) .start with
    | some (.leave s) => return mirrorEnd env name onlyFirst s
    | some (.ret s) => return (s.status, s.writes)
    | none => return (.success, [])

end

/-! ## The loop ends -/

section

variable {env : MirrorEnv} {name : String} {attrs : ℕ} {db : SigDb} {onlyFirst : Bool}
  {s s' : MirrorState} {howmany : ℕ}

lemma MirrorState.enter_pos (db : SigDb) (s : MirrorState) : s.pos ≤ (s.enter db).pos := by
  unfold MirrorState.enter
  split_ifs
  · exact Nat.le_add_right _ _
  · exact le_refl _

lemma MirrorState.enter_eslEndPos (hsize : db.signatureListSize ((s.enter db).esl.getD 0) ≠ 0) :
    s.pos < (s.enter db).eslEndPos := by
  unfold MirrorState.enter at hsize ⊢
  split_ifs at hsize ⊢ with hnew
  · dsimp only [Option.getD_some] at hsize ⊢
    omega
  · exact not_le.mp fun hle => hnew (.inr hle)

/-- What `fill_esl` asks of the sizes. -/
def EslSizes (howmany sigSize : ℕ) : Prop :=
  howmany ≠ 0 ∧ sigSize ≠ 0 ∧ howmany ≤ (2 ^ 32 - 1 - sizeofSignatureList) / sigSize

instance (howmany sigSize : ℕ) : Decidable (EslSizes howmany sigSize) :=
  inferInstanceAs (Decidable (_ ∧ _))

section

variable {type : Guid} {sigSize : ℕ} {data : List UInt8}

lemma EslSizes.lt (h : EslSizes howmany sigSize) :
    sizeofSignatureList + howmany * sigSize < 2 ^ 32 ∧ sigSize < 2 ^ 32 := by
  obtain ⟨hhow, hsig, hmany⟩ := h
  have hsize : sizeofSignatureList = 28 := rfl
  have hmul := (Nat.le_div_iff_mul_le (Nat.pos_of_ne_zero hsig)).mp hmany
  have hle := Nat.le_mul_of_pos_left sigSize (Nat.pos_of_ne_zero hhow)
  omega

lemma fillEsl_eq : fillEsl type sigSize howmany data = if EslSizes howmany sigSize then
      .ok (sizeofSignatureList + howmany * sigSize,
        eslStores type sigSize (sizeofSignatureList + howmany * sigSize) data)
    else .error .invalidParameter := by
  by_cases hsizes : EslSizes howmany sigSize
  · rw [if_pos hsizes, fillEsl, reject_of_not (not_or.mpr ⟨hsizes.1, hsizes.2.1⟩),
      reject_of_not (not_lt.mpr hsizes.2.2)]
    rfl
  rw [if_neg hsizes, fillEsl]
  by_cases hzero : howmany = 0 ∨ sigSize = 0
  · rw [reject, if_pos hzero]
    rfl
  have hmany : (2 ^ 32 - 1 - sizeofSignatureList) / sigSize < howmany := by
    by_contra hmany
    exact hsizes ⟨fun h => hzero (.inl h), fun h => hzero (.inr h), not_lt.mp hmany⟩
  rw [reject_of_not hzero, reject, if_pos hmany]
  rfl

/-- The stores are inside the list, and make it whatever was in its memory. -/
theorem eslStores_fill (htype : type.length = 16) (hdata : data.length = howmany * sigSize) :
    let needed := sizeofSignatureList + howmany * sigSize
    (∀ w ∈ eslStores type sigSize needed data, w.stop ≤ needed) ∧
      ∀ m : Mem, (m.writes (eslStores type sigSize needed data)).slice 0 needed =
        type ++ (u32Bytes needed ++ (u32Bytes 0 ++ (u32Bytes sigSize ++ data))) := by
  intro needed
  -- the stores in the order in which they lie
  let laid : List Write := [⟨0, type⟩, ⟨16, u32Bytes needed⟩, ⟨20, u32Bytes 0⟩,
    ⟨24, u32Bytes sigSize⟩, ⟨sizeofSignatureList, data⟩]
  have htiles : Tiles 0 needed laid := by
    simp [laid, needed, Tiles, Write.stop, htype, hdata, sizeofSignatureList]
  have hperm : (eslStores type sigSize needed data).Perm laid := by
    refine List.perm_iff_count.mpr fun w => ?_
    simp only [laid, eslStores, List.count_cons]
    omega
  refine ⟨fun w hw => (htiles.bounds (hperm.subset hw)).2, fun m => ?_⟩
  have hback : ReadsBack (m.writes (eslStores type sigSize needed data)) laid :=
    (ReadsBack.of_writes m (Write.pairwise_apart_of_perm hperm htiles.pairwise_apart)).subset
      hperm.symm.subset
  have hslice := hback.slice_eq htiles
  rw [Nat.sub_zero] at hslice
  rw [hslice]
  simp [laid]

lemma variableCreateEsl_eq (htype : type.length = 16) (hdata : data.length = howmany * sigSize) :
    variableCreateEsl type sigSize howmany data = if EslSizes howmany sigSize then
      .ok (type ++ (u32Bytes (sizeofSignatureList + howmany * sigSize) ++ (u32Bytes 0 ++
        (u32Bytes sigSize ++ data))))
    else .error .invalidParameter := by
  unfold variableCreateEsl
  rw [fillEsl_eq]
  by_cases hsizes : EslSizes howmany sigSize
  · rw [if_pos hsizes, if_pos hsizes]
    exact congrArg Except.ok ((eslStores_fill htype hdata).2 zeroPool)
  · rw [if_neg hsizes, if_neg hsizes]
    rfl

end

lemma mirrorOneEsl_eq {namen : String} {esl esd : ℕ} :
    mirrorOneEsl env namen attrs db esl esd howmany =
      if EslSizes howmany (db.signatureSize esl) then
        if env.allocEsl namen = false then pure (.outOfResources, [])
        else do
          Run.emit (.read esl 16)
          Run.emit (.read esd (howmany * db.signatureSize esl))
          pure (env.set namen ⟨db.signatureType esl ++
            (u32Bytes (sizeofSignatureList + howmany * db.signatureSize esl) ++ (u32Bytes 0 ++
              (u32Bytes (db.signatureSize esl) ++
                db.mem.slice esd (howmany * db.signatureSize esl)))), attrs⟩)
      else pure (.invalidParameter, []) := by
  unfold mirrorOneEsl
  dsimp only
  have htype : (db.signatureType esl).length = 16 := Mem.length_slice _ _ _
  rw [variableCreateEsl_eq htype (Mem.length_slice _ _ _)]
  by_cases hsizes : EslSizes howmany (db.signatureSize esl)
  · rw [if_pos hsizes, if_pos hsizes]
  · rw [if_neg hsizes, if_neg hsizes]

/-- A variable has been written, so its list is not larger than a list can be. -/
theorem mirrorOneEsl_size {namen : String} {esl esd : ℕ} {r : EfiStatus × List (String × Variable)}
    (h : (mirrorOneEsl env namen attrs db esl esd howmany).Yields r) (hok : isError r.1 ≠ true) :
    howmany * db.signatureSize esl < 2 ^ 32 := by
  by_cases hsizes : EslSizes howmany (db.signatureSize esl)
  · have := hsizes.lt.1
    omega
  · rw [mirrorOneEsl_eq, if_neg hsizes, yields_pure] at h
    exact absurd (h ▸ rfl) hok

/-- A round that goes on is at the end of the list, or behind the signatures for the variable. -/
theorem mirrorPiece_moves (h : (mirrorPiece env name attrs db onlyFirst howmany s).Yields (.inl s')) :
    s'.eslEndPos = s.eslEndPos ∧ s'.esl = s.esl ∧ s'.queries = s.queries ∧
      (howmany = 0 ∧ s'.pos = s.eslEndPos ∧ s'.i = s.i ∨
        (howmany ≠ 0 ∧ onlyFirst = false) ∧
          s'.pos = s.pos + howmany * db.signatureSize (s.esl.getD 0) ∧ s'.i = s.i + 1 ∧
          (s.i = 0 ∨ howmany * db.signatureSize (s.esl.getD 0) < 2 ^ 32)) := by
  unfold mirrorPiece at h
  dsimp only at h
  by_cases hnone : howmany = 0
  · rw [if_pos hnone, yields_pure] at h
    cases h
    exact ⟨rfl, rfl, rfl, .inl ⟨hnone, rfl, rfl⟩⟩
  rw [if_neg hnone] at h
  by_cases hskip : onlyFirst = false ∧ s.i = 0
  · rw [if_pos hskip, yields_pure] at h
    cases h
    exact ⟨rfl, rfl, rfl, .inr ⟨⟨hnone, hskip.1⟩, rfl, rfl, .inl hskip.2⟩⟩
  rw [if_neg hskip, yields_bind] at h
  obtain ⟨r, hr, h⟩ := h
  by_cases hfail : isError r.1 = true
  · rw [if_pos hfail, yields_pure] at h
    cases h
  rw [if_neg hfail] at h
  by_cases hfirst : onlyFirst = true
  · rw [if_pos hfirst, yields_pure] at h
    cases h
  rw [if_neg hfirst, yields_pure] at h
  cases h
  refine ⟨rfl, rfl, rfl, .inr ⟨⟨hnone, ?_⟩, rfl, rfl, .inr (mirrorOneEsl_size hr hfail)⟩⟩
  exact Bool.eq_false_iff.mpr hfirst

lemma mirrorRound_yields {r : MirrorState ⊕ MirrorExit} :
    (mirrorRound env name attrs db onlyFirst s).Yields r ↔
      if subW 64 db.size s.pos < minsz then .inr (.leave s) = r
      else if db.size ≤ (s.enter db).pos then .inr (.leave (s.enter db)) = r
      else if db.signatureListSize ((s.enter db).esl.getD 0) = 0 ∨
          db.signatureSize ((s.enter db).esl.getD 0) = 0 then .inr (.leave (s.enter db)) = r
      else
        let max := getMaxVarSz env (s.enter db).queries
        let t := { s.enter db with queries := (s.enter db).queries + 1, status := max.1 }
        if isError max.1 then .inr (.ret t) = r
        else (mirrorPiece env name attrs db onlyFirst
          (howMany (withoutName max.2 (env.namen name onlyFirst t.i))
            (db.signatureSize (t.esl.getD 0)) (subW 64 t.eslEndPos t.pos)) t).Yields r := by
  unfold mirrorRound
  by_cases hend : subW 64 db.size s.pos < minsz
  · simp [hend]
  by_cases hout : db.size ≤ (s.enter db).pos
  · simp [hend, hout]
  by_cases hlist : db.signatureListSize ((s.enter db).esl.getD 0) = 0
  · simp [hend, hout, hlist]
  by_cases hsize : db.signatureSize ((s.enter db).esl.getD 0) = 0
  · simp [hend, hout, hlist, hsize]
  by_cases hfail : isError (getMaxVarSz env (s.enter db).queries).1 = true
  · simp [hend, hout, hlist, hsize, hfail]
  · simp [hend, hout, hlist, hsize, hfail]

lemma mirrorRound_continues (h : Run.Continues (mirrorRound env name attrs db onlyFirst) s s') :
    s.pos < db.size ∧ s.pos < s'.pos := by
  unfold Run.Continues at h
  rw [mirrorRound_yields] at h
  split_ifs at h with hend hout hsizes
  have hle := s.enter_pos db
  obtain ⟨hlist, hsize⟩ := not_or.mp hsizes
  have hahead := MirrorState.enter_eslEndPos hlist
  refine ⟨lt_of_le_of_lt hle (not_le.mp hout), ?_⟩
  dsimp only at h
  by_cases hfail : isError (getMaxVarSz env (s.enter db).queries).1 = true
  · rw [if_pos hfail] at h
    cases h
  rw [if_neg hfail] at h
  rcases (mirrorPiece_moves h).2.2.2 with ⟨-, hpos, -⟩ | ⟨⟨hmany, -⟩, hpos, -⟩
  · rw [hpos]
    exact hahead
  · have hadj := Nat.mul_pos (Nat.pos_of_ne_zero hmany) (Nat.pos_of_ne_zero hsize)
    rw [hpos]
    exact lt_of_le_of_lt hle (Nat.lt_add_of_pos_right hadj)

lemma mirrorRound_variant :
    Run.Variant (mirrorRound env name attrs db onlyFirst) fun s => db.size - s.pos := by
  intro s s' h
  have := mirrorRound_continues h
  exact .inr (by dsimp only; omega)

lemma mirrorMokDb_returns (s : MirrorState) :
    ∃ e, (Run.loop (mirrorRound env name attrs db onlyFirst) (db.size + 1) s).Yields (some e) := by
  rw [loop_returns_iff mirrorRound_variant (by omega)]
  intro s' _
  refine ⟨⟨_, yields_value _⟩, fun h => ?_⟩
  exact lt_irrefl _ (mirrorRound_continues h).2

end

end Shim.Mok
