import Mathlib.Data.List.TakeWhile
import Shim.Mok.MirrorPieces

/-!
# Mirroring without loss

After the two calls of `mirror_mok_db` the variables should have the signatures of the database, in
order and each of them once. That depends on the sizes: the second call computes what the first one
has written with a longer name, and the last piece must not be too short for the loop.
-/

namespace Shim.Mok

open Lib Verify List Function SignatureList
open Sbat (Variable)

/-! ## The variables -/

def applyNamed (guid : VendorGuid) (writes : List (String × Variable)) (vars : VarStore) : VarStore :=
  writes.foldl (fun vars w => Function.update vars ⟨w.1, guid⟩ (some w.2)) vars

def storedSignatures : Option Variable → List (Guid × List UInt8)
  | none => []
  | some v => (SigDb.mk (Mem.ofBytes v.data) v.data.length).signatures

def mirrorBoth (env env' : MirrorEnv) (name : String) (attrs : ℕ) (db : SigDb) :
    List (String × Variable) :=
  (mirrorMokDb env name attrs db true).value.2 ++ (mirrorMokDb env' name attrs db false).value.2

/-- The numbered variables that are set have the numbers `1, …, k`, and the signatures in the
variable itself and in them are those of the database, in order. -/
def Lossless (name : String) (guid : VendorGuid) (db : SigDb) (writes : List (String × Variable))
    (vars : VarStore) : Prop :=
  ∃ k, (∀ j, numberedName name (some j) ∈ writes.map Prod.fst ↔ 1 ≤ j ∧ j ≤ k) ∧
    storedSignatures (applyNamed guid writes vars ⟨name, guid⟩) ++
      (range' 1 k).flatMap (fun j =>
        storedSignatures (applyNamed guid writes vars ⟨numberedName name (some j), guid⟩)) =
    db.signatures

section

variable {name : String} {guid : VendorGuid} {attrs i j : ℕ} {vars : VarStore} {ps : List Piece}

lemma numberedName_inj (h : numberedName name (some i) = numberedName name (some j)) : i = j := by
  have hlist : (name ++ toString i).toList = (name ++ toString j).toList := congrArg String.toList h
  rw [String.toList_append, String.toList_append, append_cancel_left_eq,
    Nat.toString_eq_ofList_toDigits, Nat.toString_eq_ofList_toDigits, String.toList_ofList,
    String.toList_ofList] at hlist
  rw [← Nat.ofDigitChars_ten_toDigits (n := i), hlist, Nat.ofDigitChars_ten_toDigits]

lemma numberedName_ne_self (name : String) (i : ℕ) : numberedName name (some i) ≠ name := by
  intro h
  have hlist : (name ++ toString i).toList = name.toList := congrArg String.toList h
  rw [String.toList_append, append_right_eq_self, Nat.toString_eq_ofList_toDigits,
    String.toList_ofList] at hlist
  exact Nat.toDigits_ne_nil hlist

lemma applyNamed_cons (w : String × Variable) (ws : List (String × Variable)) :
    applyNamed guid (w :: ws) vars =
      applyNamed guid ws (Function.update vars ⟨w.1, guid⟩ (some w.2)) := rfl

lemma applyNamed_of_notMem {namen : String} {ws : List (String × Variable)}
    (h : namen ∉ ws.map Prod.fst) : applyNamed guid ws vars ⟨namen, guid⟩ = vars ⟨namen, guid⟩ := by
  induction ws generalizing vars with
  | nil => rfl
  | cons w ws ih =>
    rw [map_cons, mem_cons, not_or] at h
    rw [applyNamed_cons, ih h.2]
    exact update_of_ne (fun heq => h.1 (congrArg VarName.name heq)) _ _

lemma mem_names_written {namen : String} (hi : 1 ≤ i) :
    namen ∈ (written name attrs i ps).map Prod.fst ↔
      ∃ j, i ≤ j ∧ j < i + ps.length ∧ namen = numberedName name (some j) := by
  obtain ⟨i, rfl⟩ : ∃ i', i = i' + 1 := ⟨i - 1, by omega⟩
  induction ps generalizing i with
  | nil =>
    rw [written, map_nil, length_nil]
    refine ⟨fun h => absurd h not_mem_nil, ?_⟩
    rintro ⟨j, hle, hlt, -⟩
    omega
  | cons p ps ih =>
    rw [written, map_cons, mem_cons, ih (i + 1) (by omega), length_cons]
    constructor
    · rintro (rfl | ⟨j, hle, hlt, rfl⟩)
      · exact ⟨i + 1, le_refl _, by omega, rfl⟩
      · exact ⟨j, by omega, by omega, rfl⟩
    · rintro ⟨j, hle, hlt, rfl⟩
      by_cases hj : j = i + 1
      · exact .inl (by rw [hj])
      · exact .inr ⟨j, by omega, by omega, rfl⟩

lemma numberedName_mem_written (hi : 1 ≤ i) :
    numberedName name (some j) ∈ (written name attrs i ps).map Prod.fst ↔
      i ≤ j ∧ j < i + ps.length := by
  rw [mem_names_written hi]
  constructor
  · rintro ⟨j', hle, hlt, heq⟩
    rw [numberedName_inj heq]
    exact ⟨hle, hlt⟩
  · rintro ⟨hle, hlt⟩
    exact ⟨j, hle, hlt, rfl⟩

lemma name_notMem_written (hi : 1 ≤ i) : name ∉ (written name attrs i ps).map Prod.fst := by
  rw [mem_names_written hi]
  rintro ⟨j, -, -, heq⟩
  exact numberedName_ne_self name j heq.symm

lemma storedSignatures_encode {l : SignatureList} (htype : l.type.length = 16) :
    storedSignatures (some ⟨l.encode, attrs⟩) = l.signatures := by
  have hholds : (SigDb.mk (Mem.ofBytes (encodeLists [l])) (encodeLists [l]).length).Holds [l] :=
    holds_encodeLists (by simpa using htype)
  have hone : encodeLists [l] = l.encode := flatMap_singleton _ _
  rw [hone] at hholds
  exact (SigDb.signatures_of_holds hholds).trans (flatMap_singleton _ _)

lemma storedSignatures_written (hi : 1 ≤ i) (htype : ∀ p ∈ ps, p.list.type.length = 16) :
    (range' i ps.length).flatMap (fun j => storedSignatures
      (applyNamed guid (written name attrs i ps) vars ⟨numberedName name (some j), guid⟩)) =
      ps.flatMap fun p => p.list.signatures := by
  obtain ⟨i, rfl⟩ : ∃ i', i = i' + 1 := ⟨i - 1, by omega⟩
  induction ps generalizing i vars with
  | nil => rfl
  | cons p ps ih =>
    obtain ⟨hp, hps⟩ := forall_mem_cons.mp htype
    rw [length_cons, range'_succ, flatMap_cons, flatMap_cons, written]
    -- the later writes have larger numbers
    have hfirst : numberedName name (some (i + 1)) ∉
        (written name attrs (i + 2) ps).map Prod.fst := by
      rw [numberedName_mem_written (by omega)]
      omega
    rw [applyNamed_cons, applyNamed_of_notMem hfirst, update_self,
      storedSignatures_encode hp]
    exact congrArg _ (ih hps (i + 1) (by omega))

lemma lossless_iff {db : SigDb} {v : Variable} (htype : ∀ p ∈ ps, p.list.type.length = 16) :
    Lossless name guid db ((name, v) :: written name attrs 1 ps) vars ↔
      storedSignatures (some v) ++ ps.flatMap (fun p => p.list.signatures) = db.signatures := by
  have hnames : ∀ j, numberedName name (some j) ∈
      ((name, v) :: written name attrs 1 ps).map Prod.fst ↔ 1 ≤ j ∧ j ≤ ps.length := by
    intro j
    rw [map_cons, mem_cons, numberedName_mem_written (le_refl 1)]
    refine ⟨?_, fun h => .inr (by omega)⟩
    rintro (heq | h)
    · exact absurd heq (numberedName_ne_self name j)
    · omega
  have hself : applyNamed guid ((name, v) :: written name attrs 1 ps) vars ⟨name, guid⟩ = some v := by
    rw [applyNamed_cons, applyNamed_of_notMem (name_notMem_written (le_refl 1))]
    exact update_self _ _ _
  unfold Lossless
  rw [hself]
  constructor
  · rintro ⟨k, hk, hsignatures⟩
    have hupper := (hnames k).mp.comp (hk k).mpr
    have hlower := (hk ps.length).mp.comp (hnames ps.length).mpr
    obtain rfl : k = ps.length := by
      rcases Nat.lt_trichotomy k ps.length with hlt | heq | hlt
      · have := hlower ⟨by omega, le_refl _⟩
        omega
      · exact heq
      · have := hupper ⟨by omega, le_refl _⟩
        omega
    rwa [applyNamed_cons, storedSignatures_written (le_refl 1) htype] at hsignatures
  · intro hsignatures
    refine ⟨ps.length, hnames, ?_⟩
    rwa [applyNamed_cons, storedSignatures_written (le_refl 1) htype]

end

/-! ## The pieces have the signatures -/

def Repeats {α : Type*} (x : ℕ) (xs : List α) : Prop := xs.drop x = xs.take (xs.length - x)

lemma repeats_zero {α : Type*} (xs : List α) : Repeats 0 xs := by
  rw [Repeats, drop_zero, Nat.sub_zero, take_length]

/-- That is everything iff as many elements are there twice as are missing, and they repeat. -/
theorem take_append_eq_iff {α : Type*} {xs mid last : List α} {a b : ℕ} (hab : a ≤ b)
    (hb : b ≤ xs.length) (hbehind : xs.drop a = mid ++ last) :
    xs.take b ++ mid = xs ↔ b - a = last.length ∧ Repeats (b - a) (xs.drop a) := by
  have hlen : xs.length - a = mid.length + last.length := by
    rw [← length_drop, hbehind, length_append]
  have hmid : (xs.drop a).take mid.length = mid := by rw [hbehind, take_left]
  have hdrop : (xs.drop a).drop (b - a) = xs.drop b := by
    rw [drop_drop, Nat.add_sub_cancel' hab]
  have hsplit : xs.take b ++ mid = xs ↔ xs.drop b = mid := by
    refine ⟨fun h => append_cancel_left ((take_append_drop b xs).trans h.symm), ?_⟩
    rintro rfl
    exact take_append_drop b xs
  have hsame : b - a = last.length → (xs.drop a).length - (b - a) = mid.length := by
    intro hcount
    rw [length_drop]
    omega
  rw [hsplit, Repeats, hdrop]
  constructor
  · intro h
    have hcount : b - a = last.length := by
      have := congrArg List.length h
      rw [length_drop] at this
      omega
    rw [hsame hcount, hmid]
    exact ⟨hcount, h⟩
  · rintro ⟨hcount, h⟩
    rwa [hsame hcount, hmid] at h

section

variable {cap : ℕ → ℕ → ℕ} {l : SignatureList} {ls : List SignatureList} {p : Piece}
  {after n i k : ℕ}

lemma mem_piecesOf (hp : p ∈ piecesOf cap l after n i k)
    (hcap : ∀ j < i + n, 1 ≤ cap j l.entrySize) :
    p.list.type = l.type ∧ p.list.signatures ≠ [] := by
  induction n generalizing i k with
  | zero => exact absurd hp not_mem_nil
  | succ n ih =>
    rw [piecesOf] at hp
    by_cases hend : l.entries.length ≤ k
    · rw [if_pos hend] at hp
      exact absurd hp not_mem_nil
    rw [if_neg hend] at hp
    rcases mem_cons.mp hp with rfl | hp
    · have hone := hcap i (by omega)
      refine ⟨rfl, length_pos_iff.mp ?_⟩
      rw [length_signatures, length_cut (Nat.min_le_right _ _)]
      omega
    · exact ih hp fun j hj => hcap j (by omega)

lemma mem_pieces (hp : p ∈ pieces cap i ls)
    (hcap : ∀ l ∈ ls, ∀ j < i + (ls.flatMap signatures).length,
      1 ≤ cap j l.entrySize) :
    (∃ l ∈ ls, p.list.type = l.type) ∧ p.list.signatures ≠ [] := by
  induction ls generalizing i with
  | nil => exact absurd hp not_mem_nil
  | cons l ls ih =>
    obtain ⟨hl, hls⟩ := forall_mem_cons.mp hcap
    rw [flatMap_cons, length_append, l.length_signatures] at hl hls
    have hfew := length_piecesOf_le cap l (bytesOf ls) l.entries.length i 0
    rw [pieces] at hp
    rcases mem_append.mp hp with hp | hp
    · obtain ⟨htype, hne⟩ := mem_piecesOf hp fun j hj => hl j (by omega)
      exact ⟨⟨l, mem_cons_self, htype⟩, hne⟩
    · obtain ⟨⟨w, hw, htype⟩, hne⟩ := ih hp fun w hw j hj => hls w hw j (by omega)
      exact ⟨⟨w, mem_cons_of_mem _ hw, htype⟩, hne⟩

lemma pieces_cons (hplain : l.Plain) : ∃ ps, pieces cap 0 (l :: ls) = ⟨leftIn l 0 + bytesOf ls,
      l.cut 0 (min (cap 0 l.entrySize) l.entries.length)⟩ :: ps := by
  obtain ⟨n, hn⟩ : ∃ n, l.entries.length = n + 1 :=
    Nat.exists_eq_succ_of_ne_zero fun h => hplain.entries (length_eq_zero_iff.mp h)
  rw [pieces, hn, piecesOf, hn, if_neg (by omega)]
  exact ⟨_, rfl⟩

end

def unreached (ps : List Piece) : List Piece := ps.dropWhile fun p => minsz ≤ p.left

lemma reached_append_unreached (ps : List Piece) : reached ps ++ unreached ps = ps :=
  takeWhile_append_dropWhile

lemma unreached_of_short {p : Piece} {ps : List Piece} (h : p.left < minsz) :
    unreached (p :: ps) = p :: ps :=
  dropWhile_cons_of_neg (by simpa using h)

lemma unreached_of_long {p : Piece} {ps : List Piece} (h : minsz ≤ p.left) :
    unreached (p :: ps) = unreached ps :=
  dropWhile_cons_of_pos (by simpa using h)

lemma unreached_eq_nil {ps : List Piece} : unreached ps = [] ↔ ∀ p ∈ ps, minsz ≤ p.left := by
  rw [unreached, dropWhile_eq_nil_iff]
  simp only [decide_eq_true_eq]

/-- A well-formed database that is larger than the maximal size `maxVarSz` of a variable; each of its
signatures fits in a numbered variable. -/
structure Split (name : String) (maxVarSz : ℕ) (db : SigDb) (ls : List SignatureList) : Prop where
  holds : db.Holds ls
  plain : ∀ l ∈ ls, l.Plain
  lt : db.size < 2 ^ 64
  big : maxVarSz < db.size
  fits : ∀ l ∈ ls, ∀ i < db.signatures.length,
    ((numberedName name (some i)).length + 1) * 2 + sizeofSignatureList + l.entrySize ≤ maxVarSz

def firstCount (maxVarSz : ℕ) (name : String) (l : SignatureList) : ℕ :=
  min (roomIn maxVarSz name l.entrySize) l.entries.length

def skipCount (maxVarSz : ℕ) (name : String) (l : SignatureList) : ℕ :=
  min (numberedRoom maxVarSz name 0 l.entrySize) l.entries.length

def shortCount (maxVarSz : ℕ) (name : String) (ls : List SignatureList) : ℕ :=
  ((unreached (pieces (numberedRoom maxVarSz name) 0 ls)).flatMap fun p => p.list.signatures).length

def sha256List (n : ℕ) (hn : n ≤ 100) : SignatureList where
  type := certSha256Guid
  header := []
  entrySize := 48
  entries := (List.range n).map fun i => shimLockGuid ++ List.replicate 32 (UInt8.ofNat i)
  entrySize_ge := by decide
  entrySize_lt := by decide
  length_entry := by
    intro e he
    obtain ⟨i, -, rfl⟩ := mem_map.mp he
    rfl
  size_lt := by
    rw [length_map, length_range, length_nil]
    omega

def sha256Db (n : ℕ) (hn : n ≤ 100) : SigDb :=
  ⟨Mem.ofBytes (encodeLists [sha256List n hn]), (encodeLists [sha256List n hn]).length⟩

def fixedSizeEnv : MirrorEnv where
  noQuery := true
  queryVariableInfo := fun _ => .ok (0, 0)
  allocName := true
  allocEsl := fun _ => true
  allocDummy := true
  setVariable := fun _ => none
  sprint := fun name _ i => numberedName name (some i)

lemma fixedSizeEnv_works (name : String) (N : ℕ) : fixedSizeEnv.Works name 1024 N :=
  ⟨fun _ => rfl, rfl, fun _ => rfl, rfl, fun _ => rfl, fun _ _ => rfl⟩

lemma split_sha256Db {n : ℕ} (hn : n ≤ 100) (hmany : 21 ≤ n) :
    Split "MokListRT" 1024 (sha256Db n hn) [sha256List n hn] := by
  have htype : (sha256List n hn).type.length = 16 := rfl
  have hholds : (sha256Db n hn).Holds [sha256List n hn] :=
    holds_encodeLists (by simpa using htype)
  have hlen : (sha256List n hn).entries.length = n := by
    show ((List.range n).map _).length = n
    rw [length_map, length_range]
  have hsize : (sha256Db n hn).size = 28 + n * 48 := by
    show (encodeLists [sha256List n hn]).length = 28 + n * 48
    rw [encodeLists, flatMap_singleton, length_encode htype, SignatureList.size,
      hlen]
    rfl
  have hcount : (sha256Db n hn).signatures.length = n := by
    rw [SigDb.signatures_of_holds hholds, flatMap_singleton,
      length_signatures, hlen]
  have hnames : ∀ i < 100, (numberedName "MokListRT" (some i)).length ≤ 11 := by decide +kernel
  refine ⟨hholds, ?_, by omega, by omega, ?_⟩
  · intro l hl
    obtain rfl := mem_singleton.mp hl
    refine ⟨rfl, fun hnil => ?_⟩
    rw [hnil, length_nil] at hlen
    omega
  · intro l hl i hi
    obtain rfl := mem_singleton.mp hl
    have := hnames i (by omega)
    show ((numberedName "MokListRT" (some i)).length + 1) * 2 + 28 + 48 ≤ 1024
    omega

/-! ### The two calls -/

section

variable {name : String} {guid : VendorGuid} {attrs maxVarSz : ℕ} {db : SigDb} {vars : VarStore}
  {l : SignatureList} {ls : List SignatureList} {env env' : MirrorEnv}

section

variable (h : Split name maxVarSz db ls)
include h

lemma Split.signatures_eq : db.signatures = ls.flatMap signatures :=
  SigDb.signatures_of_holds h.holds

lemma Split.packable :
    ∀ l ∈ ls, Packable (numberedRoom maxVarSz name) db.signatures.length l := by
  intro l hl
  refine ⟨h.plain l hl, fun i hi => ?_⟩
  have hfits := h.fits l hl i hi
  unfold sizeofSignatureList at hfits
  have hpos := l.entrySize_pos
  unfold numberedRoom roomIn withoutName sizeofSignatureList
  rw [if_pos (by omega), Nat.le_div_iff_mul_le hpos]
  omega

lemma Split.cap_pos :
    ∀ l ∈ ls, ∀ j < 0 + (ls.flatMap signatures).length,
      1 ≤ numberedRoom maxVarSz name j l.entrySize := by
  intro l hl j hj
  rw [Nat.zero_add, ← h.signatures_eq] at hj
  exact (h.packable l hl).fits j hj

end

lemma length_type_of_holds {o : ℕ} (h : db.HoldsFrom o ls) : ∀ l ∈ ls, l.type.length = 16 := by
  induction ls generalizing o with
  | nil => exact fun l hl => absurd hl not_mem_nil
  | cons l ls ih =>
    refine forall_mem_cons.mpr ⟨?_, ih h.2⟩
    rw [← h.1.type]
    exact Mem.length_slice _ _ _

lemma Split.length_type (h : Split name maxVarSz db ls) :
    ∀ p ∈ pieces (numberedRoom maxVarSz name) 0 ls, p.list.type.length = 16 := by
  intro p hp
  obtain ⟨⟨w, hw, htype⟩, -⟩ := mem_pieces hp h.cap_pos
  rw [htype]
  exact length_type_of_holds h.holds w hw

lemma signatures_cut {c : ℕ} : (l.cut 0 c).signatures = l.signatures.take c := map_take

lemma Split.signatures_pieces (h : Split name maxVarSz db ls) :
    (pieces (numberedRoom maxVarSz name) 0 ls).flatMap (fun p => p.list.signatures) =
      db.signatures :=
  (Mok.signatures_pieces h.cap_pos).trans h.signatures_eq.symm

section

variable (h : Split name maxVarSz db (l :: ls))
include h

lemma Split.signatures_cons :
    db.signatures = l.signatures ++ ls.flatMap signatures := by
  rw [h.signatures_eq, flatMap_cons]

lemma Split.length_le : l.entries.length ≤ db.signatures.length := by
  rw [h.signatures_cons, length_append, length_signatures]
  exact Nat.le_add_right _ _

lemma Split.entries_pos : 0 < l.entries.length :=
  length_pos_iff.mpr (h.plain l mem_cons_self).entries

lemma Split.size_eq : db.size = leftIn l 0 + bytesOf ls :=
  size_of_holds_cons h.holds (h.plain l mem_cons_self)

lemma Split.skipCount_pos : 0 < skipCount maxVarSz name l := by
  have hpos := h.entries_pos
  have hfits := (h.packable l mem_cons_self).fits 0 (lt_of_lt_of_le hpos h.length_le)
  exact Nat.lt_min.mpr ⟨hfits, hpos⟩

end

lemma skipCount_le_firstCount (maxVarSz : ℕ) (name : String) (l : SignatureList) :
    skipCount maxVarSz name l ≤ firstCount maxVarSz name l :=
  min_le_min_right _ (roomIn_le (length_numberedName name 0) _)

example : skipCount 1056 "MokListRT" (sha256List 30 (by decide)) = 20 ∧
    firstCount 1056 "MokListRT" (sha256List 30 (by decide)) = 21 := by decide +kernel

lemma written_zero (ps : List Piece) : written name attrs 0 ps = written name attrs 1 ps.tail := by
  cases ps <;> rfl

section

variable (h : Split name maxVarSz db (l :: ls))
include h

lemma Split.mirrorBoth_eq (hworks : env.Works name maxVarSz db.signatures.length)
    (hworks' : env'.Works name maxVarSz db.signatures.length) :
    mirrorBoth env env' name attrs db = (name, if minsz ≤ db.size then
        ⟨(l.cut 0 (firstCount maxVarSz name l)).encode, attrs⟩
      else ⟨dummyList.encode, variableBootserviceAccess ||| variableRuntimeAccess⟩) ::
      written name attrs 1 (reached (pieces (numberedRoom maxVarSz name) 0 (l :: ls))).tail := by
  have hfew : (pieces (numberedRoom maxVarSz name) 0 (l :: ls)).length ≤ db.signatures.length := by
    rw [h.signatures_eq]
    exact length_pieces_le
  unfold mirrorBoth
  rw [mirrorFirst_eq h.holds h.packable (lt_of_lt_of_le h.entries_pos h.length_le) hworks h.lt h.big,
    mirrorRest_eq h.holds h.packable hworks' h.lt h.big hfew, written_zero]
  rfl

lemma Split.ne_dummy (hshort : db.size < minsz) : dummyList.signatures ≠ db.signatures := by
  intro heq
  obtain ⟨e, es, hentries⟩ := exists_cons_of_ne_nil (h.plain l mem_cons_self).entries
  rw [h.signatures_cons, signatures, signatures, hentries] at heq
  have he : shimLockGuid ++ List.replicate 32 0 = e := congrArg Prod.snd (List.cons.inj heq).1
  have hsize : e.length = l.entrySize := l.length_entry e (hentries ▸ mem_cons_self)
  have hall := h.size_eq
  unfold leftIn sizeofSignatureList at hall
  rw [hentries, length_cons, ← hsize, ← he, if_pos rfl, Nat.sub_zero, Nat.add_mul] at hall
  have hlen : (shimLockGuid ++ List.replicate 32 (0 : UInt8)).length = 48 := by decide
  rw [hlen] at hall
  unfold minsz sizeofSignatureList sizeofSignatureData at hshort
  omega

/-- Nothing is lost iff as many signatures are written twice as are in pieces that are too short, and
they repeat. -/
theorem Split.lossless_iff (hworks : env.Works name maxVarSz db.signatures.length)
    (hworks' : env'.Works name maxVarSz db.signatures.length) :
    Lossless name guid db (mirrorBoth env env' name attrs db) vars ↔
      firstCount maxVarSz name l - skipCount maxVarSz name l = shortCount maxVarSz name (l :: ls) ∧
        Repeats (firstCount maxVarSz name l - skipCount maxVarSz name l)
          (db.signatures.drop (skipCount maxVarSz name l)) := by
  obtain ⟨ps, hpieces⟩ : ∃ ps, pieces (numberedRoom maxVarSz name) 0 (l :: ls) =
      ⟨leftIn l 0 + bytesOf ls, l.cut 0 (skipCount maxVarSz name l)⟩ :: ps :=
    pieces_cons (h.plain l mem_cons_self)
  have hall := h.signatures_pieces
  have htypes : ∀ p ∈ (reached (pieces (numberedRoom maxVarSz name) 0 (l :: ls))).tail,
      p.list.type.length = 16 := fun p hp => h.length_type p
    ((List.takeWhile_prefix _).mem (mem_of_mem_tail hp))
  have hcount := h.length_le
  have hfirst : firstCount maxVarSz name l ≤ l.entries.length := Nat.min_le_right _ _
  have hskip := h.skipCount_pos
  have hmore := skipCount_le_firstCount maxVarSz name l
  rw [h.mirrorBoth_eq hworks hworks', Mok.lossless_iff htypes]
  unfold shortCount
  rw [hpieces] at hall ⊢
  by_cases hshort : db.size < minsz
  · -- the first call has written the dummy entry, and the second one nothing
    have hleft : leftIn l 0 + bytesOf ls < minsz := h.size_eq ▸ hshort
    rw [reached_of_short hleft, unreached_of_short hleft, hall, if_neg (not_le.mpr hshort),
      tail_nil, flatMap_nil, append_nil, storedSignatures_encode (by decide)]
    refine ⟨fun hdummy => absurd hdummy (h.ne_dummy hshort), fun hlost => ?_⟩
    omega
  have hleft : minsz ≤ leftIn l 0 + bytesOf ls := h.size_eq ▸ not_lt.mp hshort
  have hlen := l.length_signatures
  have htake : storedSignatures (some ⟨(l.cut 0 (firstCount maxVarSz name l)).encode, attrs⟩) =
      db.signatures.take (firstCount maxVarSz name l) := by
    have htype : (l.cut 0 (firstCount maxVarSz name l)).type.length = 16 :=
      length_type_of_holds h.holds l mem_cons_self
    rw [storedSignatures_encode htype, signatures_cut, h.signatures_cons,
      take_append_of_le_length (by rwa [hlen])]
  have hbehind : db.signatures.drop (skipCount maxVarSz name l) =
      (reached ps).flatMap (fun p => p.list.signatures) ++
        (unreached ps).flatMap (fun p => p.list.signatures) := by
    rw [← flatMap_append, reached_append_unreached, ← hall, flatMap_cons, signatures_cut]
    refine drop_left' ?_
    rw [length_take, hlen]
    exact Nat.min_eq_left (Nat.min_le_right _ _)
  rw [reached_of_long hleft, unreached_of_long hleft, if_pos (not_lt.mp hshort), tail_cons, htake]
  exact take_append_eq_iff hmore (hfirst.trans hcount) hbehind

end

lemma Split.shortCount_eq_zero (h : Split name maxVarSz db ls) : shortCount maxVarSz name ls = 0 ↔
      ∀ p ∈ pieces (numberedRoom maxVarSz name) 0 ls, minsz ≤ p.left := by
  unfold shortCount
  rw [length_eq_zero_iff, flatMap_eq_nil_iff, ← unreached_eq_nil]
  refine ⟨fun hnone => eq_nil_iff_forall_not_mem.mpr fun p hp => ?_, fun hnil p hp => ?_⟩
  · exact (mem_pieces ((dropWhile_suffix _).mem hp) h.cap_pos).2 (hnone p hp)
  · rw [hnil] at hp
    exact absurd hp not_mem_nil

/-- The two calls keep each signature once and in order iff the variable itself takes no more
signatures than one with the number zero and no piece is too short, or as many are there twice as
are missing, and they repeat. -/
theorem mirror_lossless_iff (env env' : MirrorEnv) (name : String) (guid : VendorGuid)
    (attrs maxVarSz : ℕ) (db : SigDb) (vars : VarStore) (l : SignatureList)
    (ls : List SignatureList) (h : Split name maxVarSz db (l :: ls))
    (hworks : env.Works name maxVarSz db.signatures.length)
    (hworks' : env'.Works name maxVarSz db.signatures.length) :
    Lossless name guid db (mirrorBoth env env' name attrs db) vars ↔
      (firstCount maxVarSz name l = skipCount maxVarSz name l ∧
        ∀ p ∈ pieces (numberedRoom maxVarSz name) 0 (l :: ls), minsz ≤ p.left) ∨
      (skipCount maxVarSz name l < firstCount maxVarSz name l ∧
        firstCount maxVarSz name l - skipCount maxVarSz name l =
          shortCount maxVarSz name (l :: ls) ∧
        Repeats (firstCount maxVarSz name l - skipCount maxVarSz name l)
          (db.signatures.drop (skipCount maxVarSz name l))) := by
  have hmore := skipCount_le_firstCount maxVarSz name l
  rw [h.lossless_iff hworks hworks', ← h.shortCount_eq_zero]
  constructor
  · rintro ⟨hcount, hrepeats⟩
    rcases hmore.eq_or_lt with heq | hlt
    · exact .inl ⟨heq.symm, by omega⟩
    · exact .inr ⟨hlt, hcount, hrepeats⟩
  · rintro (⟨heq, hnone⟩ | ⟨-, hcount, hrepeats⟩)
    · rw [heq, Nat.sub_self, hnone]
      exact ⟨rfl, repeats_zero _⟩
    · exact ⟨hcount, hrepeats⟩

theorem mirror_lossless_42 :
    Lossless "MokListRT" .shimLock (sha256Db 42 (by decide)) (mirrorBoth fixedSizeEnv fixedSizeEnv
      "MokListRT" 6 (sha256Db 42 (by decide))) (fun _ => none) :=
  (mirror_lossless_iff fixedSizeEnv fixedSizeEnv "MokListRT" .shimLock 6 1024 (sha256Db 42 (by decide))
    (fun _ => none) (sha256List 42 (by decide)) [] (split_sha256Db _ (by decide))
    (fixedSizeEnv_works _ _) (fixedSizeEnv_works _ _)).mpr
      (.inl ⟨by decide +kernel, by decide +kernel⟩)

/-- Of 41 hashes the last one is lost: a piece of 48 bytes is too short. -/
theorem mirror_loses_last_hash :
    Split "MokListRT" 1024 (sha256Db 41 (by decide)) [sha256List 41 (by decide)] ∧
      ¬ Lossless "MokListRT" .shimLock (sha256Db 41 (by decide)) (mirrorBoth fixedSizeEnv fixedSizeEnv
        "MokListRT" 6 (sha256Db 41 (by decide))) (fun _ => none) := by
  have hsplit : Split "MokListRT" 1024 (sha256Db 41 (by decide)) [sha256List 41 (by decide)] :=
    split_sha256Db _ (by decide)
  refine ⟨hsplit, fun h => ?_⟩
  have hcounts := ((hsplit.lossless_iff (fixedSizeEnv_works _ _) (fixedSizeEnv_works _ _)).mp h).1
  exact absurd hcounts (by decide +kernel)

end

end Shim.Mok
