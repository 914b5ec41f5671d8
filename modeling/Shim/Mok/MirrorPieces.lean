import Shim.Mok.MirrorDb

/-!
# The pieces of a key database

A database that is too large is cut into pieces: each list into as many signatures as fit in the
variable whose turn it is. `mirror_mok_db` writes these pieces, except that the first variable is
filled by the first call, and that the loop ends when less than `minsz` bytes are left.
-/

namespace Shim.Verify

open Lib List

lemma SignatureList.cut_length (l : SignatureList) (k c : ℕ) :
    ∀ e ∈ (l.entries.drop k).take c, e.length = l.entrySize := fun e he =>
  l.length_entry e (mem_of_mem_drop (mem_of_mem_take he))

lemma SignatureList.cut_size_lt (l : SignatureList) (k c : ℕ) :
    28 + ([] : List UInt8).length + ((l.entries.drop k).take c).length * l.entrySize < 2 ^ 32 := by
  have hle : ((l.entries.drop k).take c).length ≤ l.entries.length := by
    rw [length_take, length_drop]
    omega
  have hmul := Nat.mul_le_mul_right l.entrySize hle
  have hlt := l.size_lt
  rw [length_nil]
  omega

def SignatureList.cut (l : SignatureList) (k c : ℕ) : SignatureList :=
  ⟨l.type, [], l.entrySize, (l.entries.drop k).take c, l.entrySize_ge, l.entrySize_lt,
    l.cut_length k c, l.cut_size_lt k c⟩

structure SignatureList.Plain (l : SignatureList) : Prop where
  header : l.header = []
  entries : l.entries ≠ []

lemma SignatureList.Plain.size_eq {l : SignatureList} (h : l.Plain) :
    l.size = 28 + l.entries.length * l.entrySize := by
  unfold SignatureList.size
  rw [h.header, length_nil]

lemma SigDb.HoldsFrom.size_eq {db : SigDb} {o : ℕ} {ls : List SignatureList}
    (h : db.HoldsFrom o ls) : db.size = o + (ls.map SignatureList.size).sum := by
  induction ls generalizing o with
  | nil => exact h.symm
  | cons l ls ih =>
    rw [ih h.2, map_cons, sum_cons, Nat.add_assoc]

end Shim.Verify

namespace Shim.Mok

open Lib Verify List
open Sbat (Variable)

structure Piece where
  left : ℕ
  list : SignatureList

def leftIn (l : SignatureList) (k : ℕ) : ℕ :=
  (if k = 0 then sizeofSignatureList else 0) + (l.entries.length - k) * l.entrySize

/-- The pieces of one list from the `k`-th entry on, at most `n`; `i` numbers the variable, `cap i`
is what fits there, `after` the bytes behind the list. -/
def piecesOf (cap : ℕ → ℕ → ℕ) (l : SignatureList) (after : ℕ) : ℕ → ℕ → ℕ → List Piece
  | 0, _, _ => []
  | n + 1, i, k =>
    if l.entries.length ≤ k then []
    else
      let c := min (cap i l.entrySize) (l.entries.length - k)
      ⟨leftIn l k + after, l.cut k c⟩ :: piecesOf cap l after n (i + 1) (k + c)

def bytesOf (ls : List SignatureList) : ℕ := (ls.map SignatureList.size).sum

def pieces (cap : ℕ → ℕ → ℕ) : ℕ → List SignatureList → List Piece
  | _, [] => []
  | i, l :: ls =>
    piecesOf cap l (bytesOf ls) l.entries.length i 0 ++
      pieces cap (i + (piecesOf cap l (bytesOf ls) l.entries.length i 0).length) ls

def roomIn (maxVarSz : ℕ) (namen : String) (sigSize : ℕ) : ℕ :=
  (withoutName maxVarSz namen - sizeofSignatureList) / sigSize

def numberedRoom (maxVarSz : ℕ) (name : String) (i sigSize : ℕ) : ℕ :=
  roomIn maxVarSz (numberedName name (some i)) sigSize

section

variable {l : SignatureList} {k c n i after : ℕ} {cap : ℕ → ℕ → ℕ} {ls : List SignatureList}

lemma howMany_eq (maxVarSz sigSize left : ℕ) : howMany maxVarSz sigSize left =
      min ((maxVarSz - sizeofSignatureList) / sigSize) (left / sigSize) := by
  unfold howMany
  by_cases hroom : sizeofSignatureList < maxVarSz
  · rw [if_pos hroom]
  · rw [if_neg hroom, Nat.sub_eq_zero_of_le (not_lt.mp hroom), Nat.zero_div, Nat.zero_min]

lemma length_cut (hc : c ≤ l.entries.length - k) : (l.cut k c).entries.length = c := by
  show ((l.entries.drop k).take c).length = c
  rw [length_take, length_drop]
  exact Nat.min_eq_left hc

lemma length_piecesOf_le (cap : ℕ → ℕ → ℕ) (l : SignatureList) (after n i k : ℕ) :
    (piecesOf cap l after n i k).length ≤ n := by
  induction n generalizing i k with
  | zero => exact le_refl _
  | succ n ih =>
    rw [piecesOf]
    split_ifs
    · exact Nat.zero_le _
    · exact Nat.succ_le_succ (ih _ _)

lemma length_pieces_le :
    (pieces cap i ls).length ≤ (ls.flatMap SignatureList.signatures).length := by
  induction ls generalizing i with
  | nil => exact le_refl _
  | cons l ls ih =>
    rw [pieces, flatMap_cons, length_append, length_append]
    refine Nat.add_le_add ?_ ih
    rw [SignatureList.length_signatures]
    exact length_piecesOf_le _ _ _ _ _ _

lemma signatures_piecesOf (hn : l.entries.length - k ≤ n)
    (hcap : ∀ j < i + n, 1 ≤ cap j l.entrySize) :
    (piecesOf cap l after n i k).flatMap (fun p => p.list.signatures) =
      (l.entries.drop k).map fun e => (l.type, e) := by
  induction n generalizing i k with
  | zero =>
    rw [piecesOf, flatMap_nil, drop_of_length_le (by omega), map_nil]
  | succ n ih =>
    rw [piecesOf]
    by_cases hend : l.entries.length ≤ k
    · rw [if_pos hend, flatMap_nil, drop_of_length_le hend, map_nil]
    have hone := hcap i (by omega)
    rw [if_neg hend]
    dsimp only
    generalize hc : min (cap i l.entrySize) (l.entries.length - k) = c
    rw [flatMap_cons, ih (by omega) fun j hj => hcap j (by omega)]
    show ((l.entries.drop k).take c).map (fun e => (l.type, e)) ++ _ = _
    rw [← map_append, ← drop_drop, take_append_drop]

lemma signatures_pieces (hcap : ∀ l ∈ ls, ∀ j < i + (ls.flatMap SignatureList.signatures).length,
      1 ≤ cap j l.entrySize) :
    (pieces cap i ls).flatMap (fun p => p.list.signatures) =
      ls.flatMap SignatureList.signatures := by
  induction ls generalizing i with
  | nil => rfl
  | cons l ls ih =>
    obtain ⟨hl, hls⟩ := forall_mem_cons.mp hcap
    rw [flatMap_cons, length_append, l.length_signatures] at hl hls
    have hfew := length_piecesOf_le cap l (bytesOf ls) l.entries.length i 0
    rw [pieces, flatMap_append, flatMap_cons,
      signatures_piecesOf (le_of_eq (Nat.sub_zero _)) fun j hj => hl j (by omega),
      ih fun w hw j hj => hls w hw j (by omega), drop_zero]
    rfl

end

/-! ## The loop at a piece -/

structure Packable (cap : ℕ → ℕ → ℕ) (N : ℕ) (l : SignatureList) : Prop where
  plain : l.Plain
  fits : ∀ i < N, 1 ≤ cap i l.entrySize

structure Placed (cap : ℕ → ℕ → ℕ) (N : ℕ) (db : SigDb) (s : MirrorState) (o : ℕ)
    (l : SignatureList) (k : ℕ) (rest : List SignatureList) : Prop where
  list : db.HoldsList o l
  holds : db.HoldsFrom (o + l.size) rest
  packable : ∀ w ∈ l :: rest, Packable cap N w
  lt : k < l.entries.length
  place : k = 0 ∧ s.pos = o ∧ (s.esl = none ∨ s.eslEndPos ≤ s.pos) ∨
    s.esl = some o ∧ s.eslEndPos = o + l.size ∧
      s.pos = o + sizeofSignatureList + k * l.entrySize ∧ 0 < k

def MirrorState.inList (s : MirrorState) (o : ℕ) (l : SignatureList) (k : ℕ) : MirrorState :=
  { s with
    esl := some o
    eslEndPos := o + l.size
    pos := o + sizeofSignatureList + k * l.entrySize
    queries := s.queries + 1
    status := .success }

section

variable {cap : ℕ → ℕ → ℕ} {N : ℕ} {env : MirrorEnv} {name : String} {attrs : ℕ} {db : SigDb}
  {onlyFirst : Bool} {s : MirrorState} {o k c maxVarSz : ℕ} {l : SignatureList}
  {rest : List SignatureList}

section

variable (h : Placed cap N db s o l k rest)
include h

lemma Placed.head : Packable cap N l := h.packable l mem_cons_self

lemma Placed.size_eq :
    l.size = sizeofSignatureList + k * l.entrySize + (l.entries.length - k) * l.entrySize := by
  unfold sizeofSignatureList
  rw [h.head.plain.size_eq, Nat.add_assoc, ← Nat.add_mul, Nat.add_sub_cancel' h.lt.le]

lemma Placed.left_eq (hlt : db.size < 2 ^ 64) :
    subW 64 db.size s.pos = leftIn l k + bytesOf rest := by
  have hend : db.size = o + l.size + bytesOf rest := h.holds.size_eq
  have hsize := h.size_eq
  unfold leftIn
  rcases h.place with ⟨rfl, hpos, -⟩ | ⟨-, -, hpos, hk⟩
  · rw [subW_of_le hlt (by omega), if_pos rfl]
    omega
  · rw [subW_of_le hlt (by omega), if_neg hk.ne']
    omega

lemma Placed.enter_eq : s.enter db = { s with
      esl := some o
      eslEndPos := o + l.size
      pos := o + sizeofSignatureList + k * l.entrySize } := by
  unfold MirrorState.enter
  rcases h.place with ⟨rfl, hpos, hnew⟩ | ⟨hesl, hend, hpos, -⟩
  · rw [if_pos hnew, hpos, h.list.size, Nat.zero_mul, Nat.add_zero]
  have hinside : ¬ (s.esl = none ∨ s.eslEndPos ≤ s.pos) := by
    have hsize := h.size_eq
    have hpos' : 0 < (l.entries.length - k) * l.entrySize :=
      Nat.mul_pos (Nat.sub_pos_of_lt h.lt) l.entrySize_pos
    rw [hesl, hend, hpos]
    rintro (hnone | hle)
    · cases hnone
    · omega
  rw [if_neg hinside, ← hesl, ← hend, ← hpos]

lemma Placed.round_short (hlt : db.size < 2 ^ 64)
    (hshort : leftIn l k + bytesOf rest < minsz) :
    (mirrorRound env name attrs db onlyFirst s).Yields (.inr (.leave s)) := by
  rw [mirrorRound_yields, h.left_eq hlt, if_pos hshort]

lemma Placed.round (hlt : db.size < 2 ^ 64)
    (hlong : minsz ≤ leftIn l k + bytesOf rest)
    (hmax : getMaxVarSz env s.queries = (.success, maxVarSz)) {r : MirrorState ⊕ MirrorExit} :
    (mirrorRound env name attrs db onlyFirst s).Yields r ↔ (mirrorPiece env name attrs db onlyFirst
        (min (roomIn maxVarSz (env.namen name onlyFirst s.i) l.entrySize) (l.entries.length - k))
        (s.inList o l k)).Yields r := by
  have hsize := h.size_eq
  have hend : db.size = o + l.size + bytesOf rest := h.holds.size_eq
  have hpos := l.entrySize_pos
  have hleft : 0 < (l.entries.length - k) * l.entrySize :=
    Nat.mul_pos (Nat.sub_pos_of_lt h.lt) hpos
  have hlist : l.size < 2 ^ 32 := l.size_lt
  have hremain : subW 64 (o + l.size) (o + sizeofSignatureList + k * l.entrySize) =
      (l.entries.length - k) * l.entrySize := by
    rw [subW_of_le (by omega) (by omega)]
    omega
  have hsizes : ¬ (db.signatureListSize o = 0 ∨ db.signatureSize o = 0) := by
    rw [h.list.size, h.list.entrySize]
    omega
  rw [mirrorRound_yields, h.left_eq hlt, if_neg (not_lt.mpr hlong), h.enter_eq]
  dsimp only [Option.getD_some]
  rw [if_neg (by omega), if_neg hsizes, hmax, h.list.entrySize, hremain, howMany_eq,
    Nat.mul_div_cancel _ hpos]
  rfl

end

section

variable (h : db.HoldsList o l)
include h

lemma slice_cut (hplain : l.Plain) (hc : c ≤ l.entries.length - k) :
    db.mem.slice (o + sizeofSignatureList + k * l.entrySize) (c * l.entrySize) =
      ((l.entries.drop k).take c).flatten := by
  have hentries := h.slots_eq
  rw [h.slot_zero hplain.header] at hentries
  rw [← hentries, Mem.drop_slots, Mem.take_slots _ _ _ (by simpa using hc), Mem.flatten_slots]

lemma mirrorOneEsl_cut {namen : String} (hplain : l.Plain)
    (hc : c ≤ l.entries.length - k) (hpos : 1 ≤ c) (halloc : env.allocEsl namen = true)
    (hset : env.setVariable namen = none) :
    (mirrorOneEsl env namen attrs db o (o + sizeofSignatureList + k * l.entrySize) c).Yields
      (.success, [(namen, ⟨(l.cut k c).encode, attrs⟩)]) := by
  have hsize := l.entrySize_pos
  have hlist : 28 + l.header.length + l.entries.length * l.entrySize < 2 ^ 32 := l.size_lt
  have hmul : c * l.entrySize ≤ l.entries.length * l.entrySize :=
    Nat.mul_le_mul_right _ (by omega)
  have hfits : c ≤ (2 ^ 32 - 1 - sizeofSignatureList) / l.entrySize := by
    rw [Nat.le_div_iff_mul_le hsize]
    unfold sizeofSignatureList
    omega
  have hcut : (l.cut k c).size = sizeofSignatureList + c * l.entrySize := by
    show 28 + 0 + (l.cut k c).entries.length * l.entrySize = _
    rw [length_cut hc]
    rfl
  have hbytes : l.type ++ (u32Bytes (sizeofSignatureList + c * l.entrySize) ++ (u32Bytes 0 ++
      (u32Bytes l.entrySize ++ ((l.entries.drop k).take c).flatten))) = (l.cut k c).encode := by
    unfold SignatureList.encode
    rw [hcut]
    rfl
  rw [mirrorOneEsl_eq, h.type, h.entrySize, slice_cut h hplain hc, hbytes,
    if_pos ⟨by omega, by omega, hfits⟩]
  unfold MirrorEnv.set
  simp [halloc, hset]

lemma mirrorPiece_skip (hpos : 1 ≤ c) (hi : s.i = 0) :
    (mirrorPiece env name attrs db false c (s.inList o l k)).Yields
      (.inl { s.inList o l (k + c) with i := s.i + 1 }) := by
  unfold mirrorPiece MirrorState.inList
  dsimp only [Option.getD_some]
  rw [if_neg (by omega), if_pos ⟨rfl, hi⟩, Run.yields_pure, h.entrySize, Nat.add_mul, Nat.add_assoc]

lemma mirrorPiece_write (hplain : l.Plain) (hpos : 1 ≤ c)
    (hc : c ≤ l.entries.length - k) (hi : s.i ≠ 0)
    (halloc : env.allocEsl (env.namen name false s.i) = true)
    (hset : env.setVariable (env.namen name false s.i) = none) :
    (mirrorPiece env name attrs db false c (s.inList o l k)).Yields
      (.inl { s.inList o l (k + c) with
        i := s.i + 1
        didOne := true
        writes := s.writes ++ [(env.namen name false s.i, ⟨(l.cut k c).encode, attrs⟩)] }) := by
  unfold mirrorPiece MirrorState.inList
  dsimp only [Option.getD_some]
  rw [if_neg (by omega), if_neg fun hskip => hi hskip.2, Run.yields_bind]
  refine ⟨_, mirrorOneEsl_cut h hplain hc hpos halloc hset, ?_⟩
  simp only [isError, ne_eq, not_true_eq_false, decide_false, Bool.false_eq_true, if_false,
    Run.yields_pure, h.entrySize, Nat.add_mul, Nat.add_assoc]

lemma mirrorPiece_first (hplain : l.Plain) (hpos : 1 ≤ c)
    (hc : c ≤ l.entries.length - k) (halloc : env.allocEsl name = true)
    (hset : env.setVariable name = none) :
    (mirrorPiece env name attrs db true c (s.inList o l k)).Yields
      (.inr (.leave { s.inList o l (k + c) with
        didOne := true
        writes := s.writes ++ [(name, ⟨(l.cut k c).encode, attrs⟩)] })) := by
  have hname : env.namen name true s.i = name := if_pos rfl
  unfold mirrorPiece MirrorState.inList
  dsimp only [Option.getD_some]
  rw [if_neg (by omega), if_neg (by simp), hname, Run.yields_bind]
  refine ⟨_, mirrorOneEsl_cut h hplain hc hpos halloc hset, ?_⟩
  simp only [isError, ne_eq, not_true_eq_false, decide_false, Bool.false_eq_true, if_false, if_true,
    Run.yields_pure, h.entrySize, Nat.add_mul, Nat.add_assoc]

end

end

/-! ## The runs -/

def Before (cap : ℕ → ℕ → ℕ) (N : ℕ) (db : SigDb) (s : MirrorState) (ps : List Piece) : Prop :=
  s.pos = db.size ∧ ps = [] ∨
    ∃ o l k rest n, Placed cap N db s o l k rest ∧ l.entries.length - k ≤ n ∧
      ps = piecesOf cap l (bytesOf rest) n s.i k ++
        pieces cap (s.i + (piecesOf cap l (bytesOf rest) n s.i k).length) rest

structure MirrorEnv.Works (env : MirrorEnv) (name : String) (maxVarSz N : ℕ) : Prop where
  max : ∀ k, getMaxVarSz env k = (.success, maxVarSz)
  allocName : env.allocName = true
  allocEsl : ∀ x, env.allocEsl x = true
  allocDummy : env.allocDummy = true
  set : ∀ x, env.setVariable x = none
  sprint : ∀ i < N, env.sprint name (name.length + 18) i = numberedName name (some i)

def written (name : String) (attrs : ℕ) : ℕ → List Piece → List (String × Variable)
  | _, [] => []
  | 0, _ :: ps => written name attrs 1 ps
  | i + 1, p :: ps =>
    (numberedName name (some (i + 1)), ⟨p.list.encode, attrs⟩) :: written name attrs (i + 2) ps

def reached (ps : List Piece) : List Piece := ps.takeWhile fun p => minsz ≤ p.left

lemma reached_of_short {p : Piece} {ps : List Piece} (h : p.left < minsz) :
    reached (p :: ps) = [] :=
  takeWhile_cons_of_neg (by simpa using h)

lemma reached_of_long {p : Piece} {ps : List Piece} (h : minsz ≤ p.left) :
    reached (p :: ps) = p :: reached ps :=
  takeWhile_cons_of_pos (by simpa using h)

section

variable {cap : ℕ → ℕ → ℕ} {N : ℕ} {env : MirrorEnv} {name : String} {attrs : ℕ} {db : SigDb}
  {s s' : MirrorState} {maxVarSz : ℕ} {ls : List SignatureList} {ps : List Piece}

lemma before_of_holds (h : db.HoldsFrom s.pos ls) (hls : ∀ l ∈ ls, Packable cap N l)
    (hnew : s.esl = none ∨ s.eslEndPos ≤ s.pos) : Before cap N db s (pieces cap s.i ls) := by
  cases ls with
  | nil => exact .inl ⟨h, rfl⟩
  | cons l rest =>
    refine .inr ⟨s.pos, l, 0, rest, l.entries.length, ⟨h.1, h.2, hls, ?_, ?_⟩, ?_, rfl⟩
    · exact length_pos_iff.mpr (hls l mem_cons_self).plain.entries
    · exact .inl ⟨rfl, rfl, hnew⟩
    · exact Nat.sub_le _ _

lemma Before.pos_eq (h : Before cap N db s []) : s.pos = db.size := by
  rcases h with hend | ⟨o, l, k, rest, n, hplaced, hn, hps⟩
  · exact hend.1
  have hlt := hplaced.lt
  obtain ⟨n, rfl⟩ : ∃ n', n = n' + 1 := ⟨n - 1, by omega⟩
  rw [piecesOf, if_neg (not_le.mpr hlt)] at hps
  cases hps

lemma Before.cases (h : Before cap N db s ps) (hi : s.i < N) : s.pos = db.size ∧ ps = [] ∨
      ∃ o l k rest ps', Placed cap N db s o l k rest ∧ ps = ⟨leftIn l k + bytesOf rest,
          l.cut k (min (cap s.i l.entrySize) (l.entries.length - k))⟩ :: ps' ∧
        ∀ s' : MirrorState, s'.esl = some o → s'.eslEndPos = o + l.size →
          s'.pos = o + sizeofSignatureList +
            (k + min (cap s.i l.entrySize) (l.entries.length - k)) * l.entrySize →
          s'.i = s.i + 1 → Before cap N db s' ps' := by
  rcases h with hend | ⟨o, l, k, rest, n, hplaced, hn, hps⟩
  · exact .inl hend
  refine .inr ?_
  have hlt := hplaced.lt
  have hone := hplaced.head.fits s.i hi
  obtain ⟨n, rfl⟩ : ∃ n', n = n' + 1 := ⟨n - 1, by omega⟩
  rw [piecesOf, if_neg (not_le.mpr hlt)] at hps
  dsimp only at hps
  rw [length_cons, cons_append] at hps
  refine ⟨o, l, k, rest, _, hplaced, hps, fun s' hesl hend hpos hi' => ?_⟩
  generalize hc : min (cap s.i l.entrySize) (l.entries.length - k) = c at hpos
  have hsum : s.i + ((piecesOf cap l (bytesOf rest) n (s.i + 1) (k + c)).length + 1) =
      s'.i + (piecesOf cap l (bytesOf rest) n (s.i + 1) (k + c)).length := by omega
  rw [hsum, ← hi']
  by_cases hmore : k + c < l.entries.length
  · exact .inr ⟨o, l, k + c, rest, n, ⟨hplaced.list, hplaced.holds, hplaced.packable, hmore,
      .inr ⟨hesl, hend, hpos, by omega⟩⟩, by omega, rfl⟩
  -- the list is done, and the next one begins where it ends
  have hdone : piecesOf cap l (bytesOf rest) n s'.i (k + c) = [] := by
    cases n with
    | zero => rfl
    | succ n => rw [piecesOf, if_pos (not_lt.mp hmore)]
  have hall : k + c = l.entries.length := by omega
  have hnext : s'.pos = o + l.size := by
    rw [hpos, hall, hplaced.head.plain.size_eq, Nat.add_assoc]
    rfl
  rw [hdone, nil_append, length_nil, Nat.add_zero]
  refine before_of_holds ?_ (fun w hw => hplaced.packable w (mem_cons_of_mem _ hw)) ?_
  · rw [hnext]
    exact hplaced.holds
  · exact .inr (by rw [hend, hnext])

lemma written_cons (i : ℕ) (p : Piece) (ps : List Piece) :
    written name attrs i (p :: ps) = written name attrs i [p] ++ written name attrs (i + 1) ps := by
  cases i <;> rfl

lemma Before.round_short {p : Piece} (h : Before cap N db s (p :: ps)) (hlt : db.size < 2 ^ 64)
    (hi : s.i < N) (hshort : p.left < minsz) :
    (mirrorRound env name attrs db false s).Yields (.inr (.leave s)) := by
  rcases h.cases hi with ⟨-, hnil⟩ | ⟨o, l, k, rest, ps', hplaced, hps, -⟩
  · cases hnil
  · obtain ⟨rfl, -⟩ := List.cons.inj hps
    exact hplaced.round_short hlt hshort

lemma Before.round {p : Piece} (h : Before cap N db s (p :: ps))
    (hcap : cap = numberedRoom maxVarSz name) (hworks : env.Works name maxVarSz N)
    (hlt : db.size < 2 ^ 64) (hi : s.i < N) (hlong : minsz ≤ p.left) :
    ∃ s₁, Run.Continues (mirrorRound env name attrs db false) s s₁ ∧ Before cap N db s₁ ps ∧
      s₁.status = .success ∧ s₁.i = s.i + 1 ∧
      s₁.writes = s.writes ++ written name attrs s.i [p] := by
  rcases h.cases hi with ⟨-, hnil⟩ | ⟨o, l, k, rest, ps', hplaced, hps, hnext⟩
  · cases hnil
  obtain ⟨rfl, rfl⟩ := List.cons.inj hps
  have hname : env.namen name false s.i = numberedName name (some s.i) := hworks.sprint s.i hi
  have hroom : roomIn maxVarSz (env.namen name false s.i) l.entrySize = cap s.i l.entrySize := by
    rw [hname, hcap]
    rfl
  have hround : ∀ s₁, (mirrorPiece env name attrs db false
      (min (cap s.i l.entrySize) (l.entries.length - k)) (s.inList o l k)).Yields (.inl s₁) →
      Run.Continues (mirrorRound env name attrs db false) s s₁ := by
    intro s₁ hpiece
    rw [← hroom] at hpiece
    exact (hplaced.round hlt hlong (hworks.max s.queries)).mpr hpiece
  have hone : 1 ≤ min (cap s.i l.entrySize) (l.entries.length - k) :=
    Nat.le_min.mpr ⟨hplaced.head.fits s.i hi, Nat.sub_pos_of_lt hplaced.lt⟩
  by_cases hzero : s.i = 0
  · refine ⟨_, hround _ (mirrorPiece_skip hplaced.list hone hzero), hnext _ rfl rfl rfl rfl, rfl, rfl,
      ?_⟩
    rw [hzero]
    exact (append_nil _).symm
  · refine ⟨_, hround _ (mirrorPiece_write hplaced.list hplaced.head.plain hone (Nat.min_le_right _ _)
      hzero (hworks.allocEsl _) (hworks.set _)), hnext _ rfl rfl rfl rfl, rfl, rfl, ?_⟩
    obtain ⟨i, hs⟩ : ∃ i, s.i = i + 1 := Nat.exists_eq_succ_of_ne_zero hzero
    rw [hname, hs]
    rfl

lemma Before.run (h : Before cap N db s ps) (hcap : cap = numberedRoom maxVarSz name)
    (hworks : env.Works name maxVarSz N) (hlt : db.size < 2 ^ 64) (hstatus : s.status = .success)
    (hi : s.i + ps.length ≤ N) :
    ∃ s' s'', Run.Reaches (mirrorRound env name attrs db false) s s' ∧
      (mirrorRound env name attrs db false s').Yields (.inr (.leave s'')) ∧
      s''.status = .success ∧ s''.writes = s.writes ++ written name attrs s.i (reached ps) := by
  induction ps generalizing s with
  | nil =>
    refine ⟨s, s, .refl, ?_, hstatus, (append_nil _).symm⟩
    rw [mirrorRound_yields, h.pos_eq, subW_of_le hlt (le_refl _), Nat.sub_self, if_pos (by decide)]
  | cons p ps ih =>
    rw [length_cons] at hi
    by_cases hshort : p.left < minsz
    · rw [reached_of_short hshort]
      exact ⟨s, s, .refl, h.round_short hlt (by omega) hshort, hstatus, (append_nil _).symm⟩
    obtain ⟨s₁, hround, hbefore, hstatus₁, hi₁, hwrites₁⟩ :=
      h.round hcap hworks hlt (by omega) (not_lt.mp hshort)
    obtain ⟨s', s'', hreach, hleave, hok, hwrites⟩ := ih hbefore hstatus₁ (by omega)
    refine ⟨s', s'', .head hround hreach, hleave, hok, ?_⟩
    rw [hwrites, hwrites₁, hi₁, reached_of_long (not_lt.mp hshort),
      written_cons s.i p (reached ps), append_assoc]

lemma mirrorMokDb_of_leave {onlyFirst : Bool}
    (hreach : Run.Reaches (mirrorRound env name attrs db onlyFirst) .start s)
    (hleave : (mirrorRound env name attrs db onlyFirst s).Yields (.inr (.leave s')))
    (hworks : env.Works name maxVarSz N) (hbig : maxVarSz < db.size) :
    (mirrorMokDb env name attrs db onlyFirst).value = mirrorEnd env name onlyFirst s' := by
  have hloop : (Run.loop (mirrorRound env name attrs db onlyFirst) (db.size + 1) .start).Yields
      (some (.leave s')) :=
    (Run.loop_yields mirrorRound_variant (by omega)).mpr ⟨s, hreach, hleave⟩
  have hyields : (mirrorMokDb env name attrs db onlyFirst).Yields
      (mirrorEnd env name onlyFirst s') := by
    unfold mirrorMokDb
    dsimp only
    rw [hworks.max 0, if_neg (by simp [isError]), if_neg (by simpa using hbig),
      if_neg (by simp [hworks.allocName]), Run.yields_bind]
    exact ⟨_, hloop, Run.yields_pure.mpr rfl⟩
  exact (Run.yields_value _).unique hyields

lemma mirrorRest_eq (h : db.Holds ls) (hls : ∀ l ∈ ls, Packable (numberedRoom maxVarSz name) N l)
    (hworks : env.Works name maxVarSz N) (hlt : db.size < 2 ^ 64) (hbig : maxVarSz < db.size)
    (hN : (pieces (numberedRoom maxVarSz name) 0 ls).length ≤ N) :
    (mirrorMokDb env name attrs db false).value =
      (.success, written name attrs 0 (reached (pieces (numberedRoom maxVarSz name) 0 ls))) := by
  have hbefore : Before (numberedRoom maxVarSz name) N db .start
      (pieces (numberedRoom maxVarSz name) 0 ls) := before_of_holds h hls (.inl rfl)
  obtain ⟨s', s'', hreach, hleave, hok, hwrites⟩ :=
    hbefore.run rfl hworks hlt rfl (by rw [MirrorState.start, Nat.zero_add]; exact hN)
  rw [mirrorMokDb_of_leave hreach hleave hworks hbig]
  unfold mirrorEnd
  rw [hok, hwrites, if_neg (by simp [isError]), if_neg (by simp)]
  rfl

/-- The list with the hash that nothing has. -/
def dummyList : SignatureList :=
  .plain certSha256Guid 48 [shimLockGuid ++ List.replicate 32 0] (by decide)

lemma dummyEntry_dummyList : dummyEntry = .ok dummyList.encode := by decide +kernel

lemma roomIn_le {namen namen' : String} (hlen : namen.length ≤ namen'.length) (sigSize : ℕ) :
    roomIn maxVarSz namen' sigSize ≤ roomIn maxVarSz namen sigSize := by
  unfold roomIn withoutName
  refine Nat.div_le_div_right (Nat.sub_le_sub_right ?_ _)
  split_ifs <;> omega

lemma length_numberedName (name : String) (i : ℕ) :
    name.length ≤ (numberedName name (some i)).length := by
  show name.length ≤ (name ++ toString i).length
  rw [String.length_append]
  exact Nat.le_add_right _ _

lemma size_of_holds_cons {l : SignatureList} (h : db.Holds (l :: ls)) (hplain : l.Plain) :
    db.size = leftIn l 0 + bytesOf ls := by
  have hsize := SigDb.HoldsFrom.size_eq h
  rw [map_cons, sum_cons, hplain.size_eq, Nat.zero_add] at hsize
  exact hsize

/-- As much of the first list as fits; with less than `minsz` bytes in the database, the dummy
entry. -/
theorem mirrorFirst_eq {l : SignatureList} (h : db.Holds (l :: ls))
    (hls : ∀ w ∈ l :: ls, Packable (numberedRoom maxVarSz name) N w) (hN : 0 < N)
    (hworks : env.Works name maxVarSz N) (hlt : db.size < 2 ^ 64) (hbig : maxVarSz < db.size) :
    (mirrorMokDb env name attrs db true).value = (.success, [(name, if minsz ≤ db.size then
          ⟨(l.cut 0 (min (roomIn maxVarSz name l.entrySize) l.entries.length)).encode, attrs⟩
        else ⟨dummyList.encode, variableBootserviceAccess ||| variableRuntimeAccess⟩)]) := by
  have hplain := (hls l mem_cons_self).plain
  have hsize := size_of_holds_cons h hplain
  have hplaced : Placed (numberedRoom maxVarSz name) N db .start 0 l 0 ls := by
    refine ⟨h.1, h.2, hls, length_pos_iff.mpr hplain.entries, .inl ⟨rfl, rfl, .inl rfl⟩⟩
  have hcall : ∀ s, (mirrorRound env name attrs db true .start).Yields (.inr (.leave s)) →
      (mirrorMokDb env name attrs db true).value = mirrorEnd env name true s := by
    intro s hs
    exact mirrorMokDb_of_leave .refl hs hworks hbig
  by_cases hshort : db.size < minsz
  · rw [hcall _ (hplaced.round_short hlt (hsize ▸ hshort)), if_neg (not_le.mpr hshort)]
    unfold mirrorEnd
    rw [if_neg (by simp [MirrorState.start, isError]), if_pos ⟨rfl, rfl⟩, dummyEntry_dummyList]
    dsimp only
    rw [if_neg (by rw [hworks.allocDummy]; decide), MirrorEnv.set, hworks.set name]
    rfl
  · have hroom : 1 ≤ roomIn maxVarSz name l.entrySize :=
      le_trans ((hls l mem_cons_self).fits 0 hN) (roomIn_le (length_numberedName name 0) _)
    have hone : 1 ≤ min (roomIn maxVarSz name l.entrySize) l.entries.length :=
      Nat.le_min.mpr ⟨hroom, length_pos_iff.mpr hplain.entries⟩
    have hround : (mirrorRound env name attrs db true .start).Yields (.inr (.leave _)) :=
      (hplaced.round hlt (hsize ▸ not_lt.mp hshort) (hworks.max 1)).mpr
        (mirrorPiece_first h.1 hplain hone (Nat.min_le_right _ _) (hworks.allocEsl name)
          (hworks.set name))
    rw [hcall _ hround, if_pos (not_lt.mp hshort)]
    rfl

end

end Shim.Mok
