import Shim.Mok.KeyList

/-!
# Deleting a hash

`delete_hash_in_list` searches an entry with the hash, moves what is behind it over it, and searches
on from there. The search (`match_hash`) is given the index to start with, but starts at the first
entry. So what it returns is the index of a match only as long as the matches stand at the front.
-/

namespace Shim.Mok

open Lib Verify List Mem Option MokListNode

/-! ## On lists -/

section

variable {α : Type} (p : α → Bool)

def findFrom (start : ℕ) (l : List α) : Option ℕ :=
  ((l.take (l.length - start)).findIdx? p).map (start + ·)

def sweepFrom : ℕ → List α → Option ℕ → List α
  | 0, l, _ => l
  | _ + 1, l, none => l
  | n + 1, l, some d => sweepFrom n (l.eraseIdx d) (findFrom p d (l.eraseIdx d))

def sweep (l : List α) : List α := sweepFrom p l.length l (findFrom p 0 l)

def FrontRun (l : List α) : Prop := (l.dropWhile p).countP p ≤ 1

instance (l : List α) : Decidable (FrontRun p l) := inferInstanceAs (Decidable (_ ≤ _))

variable {p} {l : List α} {start n : ℕ}

lemma findFrom_lt {d : ℕ} (h : findFrom p start l = some d) : d < l.length := by
  obtain ⟨j, hj, rfl⟩ := map_eq_some_iff.mp h
  have hlt : j < (l.take (l.length - start)).length := (findIdx?_eq_some_iff_getElem.mp hj).1
  rw [length_take] at hlt
  omega

lemma findFrom_zero : findFrom p 0 l = l.findIdx? p := by
  unfold findFrom
  rw [Nat.sub_zero, take_length]
  simp

lemma sweepFrom_none : sweepFrom p n l none = l := by
  cases n <;> rfl

lemma sweep_cons_of_match {x : α} (hx : p x = true) : sweep p (x :: l) = sweep p l := by
  unfold sweep
  rw [findFrom_zero, findIdx?_cons, if_pos hx]
  rfl

lemma sweep_of_no_match (h : l.findIdx? p = none) : sweep p l = l := by
  unfold sweep
  rw [findFrom_zero, h, sweepFrom_none]

/-- Once the index is ahead of the search, the first match is found again and again, and never
erased. -/
theorem any_sweepFrom {j : ℕ} (hstart : 0 < start) (hj : l.findIdx? p = some j) :
    (sweepFrom p n l (findFrom p start l)).any p = true := by
  obtain ⟨hlt, hmatch, hbefore⟩ := findIdx?_eq_some_iff_getElem.mp hj
  induction n generalizing l start with
  | zero => exact any_eq_true.mpr ⟨l[j], getElem_mem hlt, hmatch⟩
  | succ n ih =>
    cases hfound : findFrom p start l with
    | none => exact any_eq_true.mpr ⟨l[j], getElem_mem hlt, hmatch⟩
    | some d =>
      have hd : j < d := by
        obtain ⟨j', hj', rfl⟩ := map_eq_some_iff.mp hfound
        obtain ⟨hlt', hmatch', -⟩ := findIdx?_eq_some_iff_getElem.mp hj'
        rw [getElem_take] at hmatch'
        by_contra hle
        exact hbefore j' (by omega) hmatch'
      have hdlt := findFrom_lt hfound
      have hlt' : j < (l.eraseIdx d).length := by
        rw [length_eraseIdx_of_lt hdlt]
        omega
      have hsame : ∀ i (hi : i ≤ j), (l.eraseIdx d)[i] = l[i] := by
        intro i hi
        rw [getElem_eraseIdx, dif_pos (hi.trans_lt hd)]
      have hmatch' : p (l.eraseIdx d)[j] = true := by
        rw [hsame j (le_refl j)]
        exact hmatch
      have hbefore' : ∀ i (hi : i < j), ¬ p (l.eraseIdx d)[i] = true := by
        intro i hi
        rw [hsame i hi.le]
        exact hbefore i hi
      exact ih (by omega)
        (findIdx?_eq_some_iff_getElem.mpr ⟨hlt', hmatch', hbefore'⟩) hlt' hmatch' hbefore'

lemma eraseIdx_of_match {d : ℕ} (hd : d < l.length) (hmatch : p l[d] = true) :
    l.countP p = (l.eraseIdx d).countP p + 1 ∧
      l.filter (fun x => !p x) = (l.eraseIdx d).filter fun x => !p x := by
  have hsplit : l = l.take d ++ l[d] :: l.drop (d + 1) := by simp
  have herase : l.eraseIdx d = l.take d ++ l.drop (d + 1) := eraseIdx_eq_take_drop_succ l d
  rw [herase, countP_append, filter_append]
  constructor
  · refine (congrArg (countP p) hsplit).trans ?_
    rw [countP_append, countP_cons_of_pos hmatch]
    rfl
  · refine (congrArg (List.filter fun x => !p x) hsplit).trans ?_
    rw [filter_append, filter_cons_of_neg (by simp [hmatch])]

/-- With at most one match behind the matches at the front the loop removes the matches, and nothing
else. Otherwise it leaves a match. -/
theorem sweep_spec (p : α → Bool) (l : List α) :
    (FrontRun p l → sweep p l = l.filter fun x => !p x) ∧
      (¬ FrontRun p l → (sweep p l).any p = true) := by
  induction l with
  | nil => simp [sweep, sweepFrom, FrontRun]
  | cons x l ih =>
    by_cases hx : p x = true
    · have hdrop : FrontRun p (x :: l) ↔ FrontRun p l := by
        unfold FrontRun
        rw [dropWhile_cons_of_pos hx]
      rw [sweep_cons_of_match hx, hdrop, filter_cons_of_neg (by simp [hx])]
      exact ih
    have hfront : FrontRun p (x :: l) ↔ l.countP p ≤ 1 := by
      unfold FrontRun
      rw [dropWhile_cons_of_neg hx, countP_cons_of_neg hx]
    have hfind : (x :: l).findIdx? p = (l.findIdx? p).map (· + 1) := by
      rw [findIdx?_cons, if_neg hx]
    rw [hfront, filter_cons_of_pos (by simp [hx])]
    cases hfound : l.findIdx? p with
    | none =>
      have hnone : ∀ y ∈ l, ¬ p y = true := by
        simpa using findIdx?_eq_none_iff.mp hfound
      have hcount : l.countP p = 0 := countP_eq_zero.mpr hnone
      rw [sweep_of_no_match (by rw [hfind, hfound]; rfl), hcount]
      refine ⟨fun _ => ?_, fun hmany => absurd (Nat.zero_le 1) hmany⟩
      rw [filter_eq_self.mpr fun y hy => by simpa using hnone y hy]
    | some d =>
      obtain ⟨hd, hmatch, hbefore⟩ := findIdx?_eq_some_iff_getElem.mp hfound
      -- the first match is erased; the next search is off by its index
      have hround : sweep p (x :: l) =
          sweepFrom p l.length (x :: l.eraseIdx d) (findFrom p (d + 1) (x :: l.eraseIdx d)) := by
        unfold sweep
        rw [findFrom_zero, hfind, hfound]
        rfl
      obtain ⟨hcount, hfilter⟩ := eraseIdx_of_match hd hmatch
      rw [hround, hcount, hfilter]
      cases hnext : (x :: l.eraseIdx d).findIdx? p with
      | none =>
        have hnone : ∀ y ∈ x :: l.eraseIdx d, ¬ p y = true := by
          simpa using findIdx?_eq_none_iff.mp hnext
        obtain ⟨-, hrest⟩ := forall_mem_cons.mp hnone
        have hmissed : findFrom p (d + 1) (x :: l.eraseIdx d) = none := by
          unfold findFrom
          rw [map_eq_none_iff, findIdx?_eq_none_iff]
          intro y hy
          simpa using hnone y (mem_of_mem_take hy)
        rw [hmissed, sweepFrom_none, countP_eq_zero.mpr hrest,
          filter_eq_self.mpr fun y hy => by simpa using hrest y hy]
        exact ⟨fun _ => rfl, fun hmany => absurd (le_refl 1) hmany⟩
      | some j =>
        refine ⟨fun hone => ?_, fun _ => any_sweepFrom (Nat.succ_pos d) hnext⟩
        have hmatches : 0 < (l.eraseIdx d).countP p := by
          obtain ⟨hj, hmatch', -⟩ := findIdx?_eq_some_iff_getElem.mp hnext
          have hpos := countP_pos_iff.mpr ⟨_, getElem_mem hj, hmatch'⟩
          rwa [countP_cons_of_neg hx] at hpos
        omega

lemma sweep_eq_filter_iff : sweep p l = l.filter (fun x => !p x) ↔ FrontRun p l := by
  refine ⟨fun h => ?_, (sweep_spec p l).1⟩
  by_contra hmany
  obtain ⟨x, hx, hpx⟩ := any_eq_true.mp ((sweep_spec p l).2 hmany)
  rw [h] at hx
  simp [hpx] at hx

end

/-! ## On the buffer -/

def hasHash (hash e : List UInt8) : Bool := e.drop sizeofGuid = hash

def sigSize (hash : List UInt8) : ℕ := hash.length + sizeofGuid

def MokListNode.entries (node : MokListNode) (m : Mem) (size : ℕ) : List (List UInt8) :=
  match node.mok with
  | none => []
  | some mok => m.slots mok size (node.mokSize / size)

section

variable {m m' : Mem} {hash : List UInt8} {mok size num start d : ℕ} {node node' : MokListNode}

lemma hasHash_slice : hasHash hash (m.slice mok (sigSize hash)) = true ↔
      m.slice (mok + sizeofGuid) hash.length = hash := by
  unfold hasHash sigSize
  rw [Nat.add_comm, slice_add, drop_left' (length_slice m mok sizeofGuid),
    decide_eq_true_eq]

lemma matchHashFrom_eq : matchHashFrom m hash num start (mok + sizeofGuid) =
      ((m.slots mok (sigSize hash) num).findIdx? (hasHash hash)).map (start + ·) := by
  induction num generalizing mok start with
  | zero => rfl
  | succ num ih =>
    have hnext : mok + sizeofGuid + hash.length + sizeofGuid = mok + sigSize hash + sizeofGuid := by
      unfold sigSize
      omega
    rw [matchHashFrom, slots_succ, findIdx?_cons]
    by_cases hmatch : m.slice (mok + sizeofGuid) hash.length = hash
    · rw [if_pos hmatch, if_pos (hasHash_slice.mpr hmatch)]
      rfl
    rw [if_neg hmatch, if_neg (fun h => hmatch (hasHash_slice.mp h)), hnext, ih, Option.map_map]
    congr 1
    funext j
    simp only [Function.comp_apply]
    omega

lemma matchHash_eq :
    matchHash m hash start mok num = findFrom (hasHash hash) start (m.slots mok (sigSize hash) num) := by
  unfold matchHash findFrom
  rw [matchHashFrom_eq, length_slots, take_slots _ _ _ (Nat.sub_le num start)]

lemma slots_copy {len : ℕ} (hd : d ≤ num) (hlen : (num + 1) * size ≤ (d + 1) * size + len) :
    (m.copy (mok + d * size) m (mok + d * size + size) len).slots mok size num =
      (m.slots mok size (num + 1)).eraseIdx d := by
  have hlength : ((m.slots mok size (num + 1)).eraseIdx d).length = num := by
    rw [length_eraseIdx_of_lt (by rw [length_slots]; omega), length_slots]
    rfl
  refine ext_getElem ((length_slots _ _ _ _).trans hlength.symm) fun i hi _ => ?_
  rw [length_slots] at hi
  rw [getElem_slots, getElem_eraseIdx]
  by_cases hid : i < d
  · have hbelow : (i + 1) * size ≤ d * size := Nat.mul_le_mul_right size hid
    rw [dif_pos hid, getElem_slots, slice_eq_iff]
    intro k hk
    rw [Nat.succ_mul] at hbelow
    exact if_neg (by omega)
  have habove : d * size ≤ i * size := Nat.mul_le_mul_right size (Nat.not_lt.mp hid)
  have hend : (i + 1 + 1) * size ≤ (num + 1) * size := Nat.mul_le_mul_right size (by omega)
  rw [dif_neg hid, getElem_slots, slice_eq_iff]
  intro k hk
  rw [Nat.succ_mul, Nat.succ_mul] at hend
  rw [Nat.succ_mul d] at hlen
  have hin : mok + d * size ≤ mok + i * size + k ∧
      mok + i * size + k < mok + d * size + len := by omega
  have haddr : mok + d * size + size + (mok + i * size + k - (mok + d * size)) =
      mok + (i + 1) * size + k := by
    rw [Nat.succ_mul]
    omega
  unfold copy
  rw [if_pos hin, haddr]

def MokListNode.Holds (node : MokListNode) (x : ℕ) : Prop :=
  ∃ mok, node.mok = some mok ∧ mok ≤ x ∧ x < mok + node.mokSize

def MokListNode.Filled (node : MokListNode) (size : ℕ) : Prop :=
  size ∣ node.mokSize ∧ node.mokSize ≠ 0

def MokListNode.Within (node' node : MokListNode) : Prop :=
  node' = { node with mok := none, mokSize := 0 } ∨
    node'.mok = node.mok ∧ node'.mokSize ≤ node.mokSize

structure Shrinks (m m' : Mem) (node node' : MokListNode) : Prop where
  type : node'.type = node.type
  outside : ∀ x, ¬ node.Holds x → m' x = m x
  storage : node'.Within node

lemma Shrinks.refl (m : Mem) (node : MokListNode) : Shrinks m m node node :=
  ⟨rfl, fun _ _ => rfl, .inr ⟨rfl, le_refl _⟩⟩

lemma MokListNode.Within.holds {x : ℕ} (h : node'.Within node) (hx : node'.Holds x) :
    node.Holds x := by
  obtain ⟨mok, hmok, hle, hlt⟩ := hx
  rcases h with rfl | ⟨hsame, hsize⟩
  · cases hmok
  · exact ⟨mok, hsame ▸ hmok, hle, by omega⟩

lemma MokListNode.Within.mokSize_le (h : node'.Within node) : node'.mokSize ≤ node.mokSize := by
  rcases h with rfl | ⟨-, hsize⟩
  · exact Nat.zero_le _
  · exact hsize

lemma Shrinks.trans {m'' : Mem} {node'' : MokListNode} (h : Shrinks m m' node node')
    (h' : Shrinks m' m'' node' node'') : Shrinks m m'' node node'' := by
  refine ⟨h'.type.trans h.type, fun x hx => ?_, ?_⟩
  · rw [h'.outside x fun hx' => hx (h.storage.holds hx'), h.outside x hx]
  · rcases h'.storage with rfl | ⟨hmok', hsize'⟩
    · refine .inl ?_
      rw [h.type]
    · rcases h.storage with rfl | ⟨hmok, hsize⟩
      · refine .inl ?_
        obtain ⟨mokSize, mok, type⟩ := node''
        obtain rfl : mok = none := hmok'
        obtain rfl : mokSize = 0 := Nat.le_zero.mp hsize'
        rw [show type = node.type from h'.type]
      · exact .inr ⟨hmok'.trans hmok, hsize'.trans hsize⟩

lemma sigSize_pos : 0 < sigSize hash := by
  unfold sigSize sizeofGuid
  omega

lemma MokListNode.entries_of_mok (m : Mem) (hmok : node.mok = some mok)
    (hnum : node.mokSize / sigSize hash = num) :
    node.entries m (sigSize hash) = m.slots mok (sigSize hash) num := by
  unfold entries
  rw [hmok, ← hnum]

lemma sigSize_le_mokSize (hnum : node.mokSize / sigSize hash = num + 1) {d : ℕ}
    (hd : d < num + 1) :
    sigSize hash ≤ (d + 1) * sigSize hash ∧ (d + 1) * sigSize hash ≤ node.mokSize := by
  refine ⟨Nat.le_mul_of_pos_left _ (Nat.succ_pos d), ?_⟩
  calc (d + 1) * sigSize hash ≤ (num + 1) * sigSize hash := Nat.mul_le_mul_right _ hd
    _ ≤ node.mokSize := hnum ▸ Nat.div_mul_le_self _ _

lemma erase_round {d : ℕ} (m : Mem) (hmok : node.mok = some mok)
    (hnum : node.mokSize / sigSize hash = num + 1) (hd : d < num + 1) :
    let m₁ := m.copy (mok + d * sigSize hash) m (mok + d * sigSize hash + sigSize hash)
      (node.mokSize - (d + 1) * sigSize hash)
    m₁.slots mok (sigSize hash) num = (m.slots mok (sigSize hash) (num + 1)).eraseIdx d ∧
      Shrinks m m₁ node { node with mokSize := node.mokSize - sigSize hash } := by
  have hroom : (num + 1) * sigSize hash ≤ node.mokSize :=
    (sigSize_le_mokSize hnum (Nat.lt_succ_self num)).2
  obtain ⟨-, hbehind⟩ := sigSize_le_mokSize hnum hd
  have hsucc : (d + 1) * sigSize hash = d * sigSize hash + sigSize hash := Nat.succ_mul d _
  refine ⟨slots_copy (Nat.lt_succ_iff.mp hd) (by omega), rfl, fun x hx => ?_,
    .inr ⟨rfl, Nat.sub_le _ _⟩⟩
  refine if_neg fun hin => hx ⟨mok, hmok, ?_, ?_⟩
  · omega
  · omega

lemma deleteHashFrom_spec {del : Option ℕ} (hmok : node.mok = some mok)
    (hnum : node.mokSize / sigSize hash = num) (hsize : node.mokSize < 2 ^ 32)
    (hdel : ∀ d, del = some d → d < num) :
    let r := deleteHashFrom hash mok num m node del
    Shrinks m r.1 node r.2 ∧ r.2.entries r.1 (sigSize hash) =
        sweepFrom (hasHash hash) num (m.slots mok (sigSize hash) num) del ∧
      (node.Filled (sigSize hash) → r.2.mok = none ∨ r.2.Filled (sigSize hash)) := by
  induction num generalizing m node del with
  | zero => exact ⟨.refl m node, entries_of_mok m hmok hnum, Or.inr⟩
  | succ num ih =>
    cases del with
    | none => exact ⟨.refl m node, entries_of_mok m hmok hnum, Or.inr⟩
    | some d =>
      have hd := hdel d rfl
      have hpos : 0 < sigSize hash := sigSize_pos
      obtain ⟨hone, hbehind⟩ := sigSize_le_mokSize hnum hd
      have hnum₁ : (node.mokSize - sigSize hash) / sigSize hash = num := by
        have := Nat.div_eq_sub_div hpos (hone.trans hbehind)
        omega
      rw [deleteHashFrom]
      by_cases hlast : hash.length + sizeofGuid = node.mokSize
      · -- the only entry: the node is cleared
        rw [if_pos hlast]
        refine ⟨⟨rfl, fun _ _ => rfl, .inl rfl⟩, ?_, fun _ => .inl rfl⟩
        have hnone : num = 0 := by
          rw [← hnum₁, ← hlast, show hash.length + sizeofGuid = sigSize hash from rfl,
            Nat.sub_self, Nat.zero_div]
        subst hnone
        obtain rfl : d = 0 := by omega
        rfl
      rw [if_neg hlast]
      have hsig : hash.length + sizeofGuid = sigSize hash := rfl
      have hremain : subW 32 node.mokSize ((d + 1) * sigSize hash) =
          node.mokSize - (d + 1) * sigSize hash := subW_of_le hsize hbehind
      have hless : subW 32 node.mokSize (sigSize hash) = node.mokSize - sigSize hash :=
        subW_of_le hsize (hone.trans hbehind)
      obtain ⟨hslots, hfirst⟩ := erase_round m hmok hnum hd
      dsimp only at hslots hfirst ⊢
      rw [hsig, hremain, hless]
      generalize m.copy (mok + d * sigSize hash) m (mok + d * sigSize hash + sigSize hash)
        (node.mokSize - (d + 1) * sigSize hash) = m₁ at hslots hfirst ⊢
      have hdel₁ : ∀ d', matchHash m₁ hash d mok num = some d' → d' < num := by
        intro d' hd'
        rw [matchHash_eq] at hd'
        exact (findFrom_lt hd').trans_eq (length_slots _ _ _ _)
      have hmok₁ : MokListNode.mok { node with mokSize := node.mokSize - sigSize hash } =
        some mok := hmok
      obtain ⟨hshrinks, hswept, hfilled⟩ := ih hmok₁ hnum₁ (by dsimp only; omega) hdel₁
      refine ⟨hfirst.trans hshrinks, ?_, fun hfull => hfilled ⟨?_, ?_⟩⟩
      · rw [hswept, sweepFrom, matchHash_eq, hslots]
      · exact Nat.dvd_sub hfull.1 (dvd_refl _)
      · dsimp only
        omega

end

/-! ## Nodes that share a buffer -/

structure SoundNodes (nodes : List MokListNode) : Prop where
  size_lt : ∀ node ∈ nodes, node.mokSize < 2 ^ 32
  cleared : ∀ node ∈ nodes, node.mok = none → node.mokSize = 0
  separate : nodes.Pairwise fun a b => ∀ x, a.Holds x → ¬ b.Holds x

structure Swept (type : Guid) (hash : List UInt8) (m m' : Mem) (node node' : MokListNode) :
    Prop where
  type_eq : node'.type = node.type
  storage : node'.Within node
  entries : node.type = type → node'.entries m' (sigSize hash) =
    sweep (hasHash hash) (node.entries m (sigSize hash))
  filled : node.Filled (sigSize hash) → node'.mok = none ∨ node'.Filled (sigSize hash)
  other : node.type ≠ type → node' = node ∧ ∀ x, node.Holds x → m' x = m x

section

variable {type : Guid} {hash : List UInt8} {m m' : Mem} {size : ℕ} {node node' : MokListNode}
  {nodes : List MokListNode} {mok : MokList}

lemma entries_congr (h : ∀ x, node.Holds x → m' x = m x) :
    node.entries m' size = node.entries m size := by
  unfold entries
  cases hmok : node.mok with
  | none => rfl
  | some mok =>
    dsimp only
    apply map_congr_left
    intro i hi
    have hlt : (i + 1) * size ≤ node.mokSize := by
      refine le_trans (Nat.mul_le_mul_right size (mem_range.mp hi)) ?_
      exact Nat.div_mul_le_self _ _
    rw [Nat.succ_mul] at hlt
    rw [slice_eq_iff]
    intro k hk
    exact h _ ⟨mok, hmok, by omega, by omega⟩

lemma entries_of_lt (h : node.mokSize < size) : node.entries m size = [] := by
  unfold entries
  rw [Nat.div_eq_of_lt h]
  cases node.mok <;> rfl

lemma deleteHashInNode_spec (type : Guid) (hash : List UInt8) (m : Mem) (hsize : node.mokSize < 2 ^ 32)
    (hcleared : node.mok = none → node.mokSize = 0) :
    let r := deleteHashInNode type hash m node
    Shrinks m r.1 node r.2 ∧ Swept type hash m r.1 node r.2 := by
  have hpos : 0 < sigSize hash := sigSize_pos
  unfold deleteHashInNode
  by_cases hskip : node.type ≠ type ∨ node.mokSize < hash.length + sizeofGuid
  · dsimp only
    rw [if_pos hskip]
    refine ⟨.refl m node, rfl, .inr ⟨rfl, le_refl _⟩, fun htype => ?_, Or.inr,
      fun _ => ⟨rfl, fun _ _ => rfl⟩⟩
    have hempty : node.entries m (sigSize hash) = [] :=
      entries_of_lt (hskip.resolve_left (not_not.mpr htype))
    rw [hempty]
    rfl
  obtain ⟨htype, hroom⟩ := not_or.mp hskip
  have hlive : ∃ mok, node.mok = some mok := by
    apply ne_none_iff_exists'.mp
    intro hnone
    have := hcleared hnone
    unfold sigSize at hpos
    omega
  obtain ⟨mok, hmok⟩ := hlive
  have hdel : ∀ d, matchHash m hash 0 mok (node.mokSize / sigSize hash) = some d →
      d < node.mokSize / sigSize hash := by
    intro d hd
    rw [matchHash_eq] at hd
    exact (findFrom_lt hd).trans_eq (length_slots _ _ _ _)
  obtain ⟨hshrinks, hswept, hfilled⟩ := deleteHashFrom_spec (m := m) hmok rfl hsize hdel
  dsimp only
  rw [if_neg hskip, hmok]
  refine ⟨hshrinks, hshrinks.type, hshrinks.storage, fun _ => ?_, hfilled,
    fun hne => absurd (not_not.mp htype) hne⟩
  have hentries : node.entries m (sigSize hash) =
      m.slots mok (sigSize hash) (node.mokSize / sigSize hash) := by
    unfold entries
    rw [hmok]
  rw [hentries]
  unfold sweep
  rw [length_slots, ← matchHash_eq]
  exact hswept

lemma exists_left_of_mem {α β : Type} {R : α → β → Prop} {l : List α} {l' : List β}
    (h : List.Forall₂ R l l') {b : β} (hb : b ∈ l') : ∃ a ∈ l, R a b := by
  induction h with
  | nil => cases hb
  | cons hab _ ih =>
    rcases mem_cons.mp hb with rfl | hb
    · exact ⟨_, mem_cons_self, hab⟩
    · obtain ⟨a, ha, hr⟩ := ih hb
      exact ⟨a, mem_cons_of_mem _ ha, hr⟩

lemma Swept.congr {m₁ m₂ : Mem} (h : Swept type hash m₁ m₂ node node')
    (hbefore : ∀ x, node.Holds x → m₁ x = m x) (hafter : ∀ x, node.Holds x → m' x = m₂ x) :
    Swept type hash m m' node node' := by
  refine ⟨h.type_eq, h.storage, fun htype => ?_, h.filled, fun hne => ?_⟩
  · rw [entries_congr fun x hx => hafter x (h.storage.holds hx), ← entries_congr hbefore]
    exact h.entries htype
  · obtain ⟨hsame, hkept⟩ := h.other hne
    exact ⟨hsame, fun x hx => ((hafter x hx).trans (hkept x hx)).trans (hbefore x hx)⟩

lemma SoundNodes.of_within {nodes' : List MokListNode} (hsound : SoundNodes nodes)
    (hwithin : List.Forall₂ (fun a b : MokListNode => b.Within a) nodes nodes') :
    SoundNodes nodes' := by
  induction hwithin with
  | nil => exact hsound
  | @cons node node' nodes nodes' hnode hnodes ih =>
    obtain ⟨hsize, hsizes⟩ := forall_mem_cons.mp hsound.size_lt
    obtain ⟨hcleared, hcleareds⟩ := forall_mem_cons.mp hsound.cleared
    obtain ⟨happart, hseparate⟩ := pairwise_cons.mp hsound.separate
    obtain ⟨hsize', hcleared', hseparate'⟩ := ih ⟨hsizes, hcleareds, hseparate⟩
    refine ⟨forall_mem_cons.mpr ⟨hnode.mokSize_le.trans_lt hsize, hsize'⟩,
      forall_mem_cons.mpr ⟨fun hnone => ?_, hcleared'⟩,
      pairwise_cons.mpr ⟨fun w' hw' x hx hx' => ?_, hseparate'⟩⟩
    · rcases hnode with rfl | ⟨hsame, hle⟩
      · rfl
      · exact Nat.le_zero.mp (hcleared (hsame ▸ hnone) ▸ hle)
    · obtain ⟨w, hw, hsub⟩ := exists_left_of_mem hnodes hw'
      exact happart w hw x (hnode.holds hx) (hsub.holds hx')

lemma deleteHashNodes_swept (type : Guid) (hash : List UInt8) (m : Mem)
    (hsound : SoundNodes nodes) :
    let r := deleteHashNodes type hash m nodes
    List.Forall₂ (Swept type hash m r.mem) nodes r.nodes ∧
      ∀ x, (∀ node ∈ nodes, ¬ node.Holds x) → r.mem x = m x := by
  induction nodes generalizing m with
  | nil => exact ⟨.nil, fun _ _ => rfl⟩
  | cons node nodes ih =>
    obtain ⟨hsize, hsizes⟩ := forall_mem_cons.mp hsound.size_lt
    obtain ⟨hcleared, hcleareds⟩ := forall_mem_cons.mp hsound.cleared
    obtain ⟨happart, hseparate⟩ := pairwise_cons.mp hsound.separate
    obtain ⟨hshrinks, hswept⟩ := deleteHashInNode_spec type hash m hsize hcleared
    rw [deleteHashNodes]
    generalize deleteHashInNode type hash m node = r at hshrinks hswept ⊢
    obtain ⟨m₁, node₁⟩ := r
    dsimp only at hshrinks hswept ⊢
    obtain ⟨hrest, houtside⟩ := ih m₁ ⟨hsizes, hcleareds, hseparate⟩
    generalize deleteHashNodes type hash m₁ nodes = s at hrest houtside ⊢
    obtain ⟨m₂, nodes₂⟩ := s
    dsimp only at hrest houtside ⊢
    -- the node's storage is not touched later, and that of the others has not been touched yet
    have hlater : ∀ x, node.Holds x → m₂ x = m₁ x :=
      fun x hx => houtside x fun w hw => happart w hw x hx
    have hearlier : ∀ w ∈ nodes, ∀ x, w.Holds x → m₁ x = m x :=
      fun w hw x hx => hshrinks.outside x fun hx' => happart w hw x hx' hx
    refine ⟨.cons (hswept.congr (fun _ _ => rfl) hlater) ?_, fun x hx => ?_⟩
    · refine ((forall₂_and_left _ _).mpr ⟨hearlier, hrest⟩).imp ?_
      rintro w w' ⟨hsame, hswept'⟩
      exact hswept'.congr hsame fun _ _ => rfl
    · obtain ⟨hnode, hothers⟩ := forall_mem_cons.mp hx
      exact (houtside x hothers).trans (hshrinks.outside x hnode)

lemma deleteHashInList_spec (type : Guid) (hash : List UInt8) (hsound : SoundNodes mok.nodes) :
    let r := deleteHashInList type hash mok
    SoundNodes r.nodes ∧ List.Forall₂ (Swept type hash mok.mem r.mem) mok.nodes r.nodes := by
  obtain ⟨hswept, -⟩ := deleteHashNodes_swept type hash mok.mem hsound
  exact ⟨hsound.of_within (hswept.imp fun _ _ h => h.storage), hswept⟩

/-- What a deletion should do: a node of the type loses the entries with the hash and keeps the
others, with their owners, in order; another node stays as it is. -/
def Removes (type : Guid) (hash : List UInt8) (m m' : Mem) (node node' : MokListNode) : Prop :=
  node'.type = node.type ∧ if node.type = type then
      node'.entries m' (sigSize hash) =
        (node.entries m (sigSize hash)).filter fun e => !hasHash hash e
    else node' = node ∧ ∀ x, node.Holds x → m' x = m x

lemma Swept.removes_iff (h : Swept type hash m m' node node') :
    Removes type hash m m' node node' ↔
      (node.type = type → FrontRun (hasHash hash) (node.entries m (sigSize hash))) := by
  unfold Removes
  by_cases htype : node.type = type
  · rw [if_pos htype, h.entries htype, sweep_eq_filter_iff]
    exact ⟨fun hr _ => hr.2, fun hf => ⟨h.type_eq, hf htype⟩⟩
  · rw [if_neg htype]
    exact iff_of_true ⟨h.type_eq, h.other htype⟩ fun heq => absurd heq htype

/-- For every hash and every list of nodes: the entries with the hash are removed from the nodes of
the type, and all others stay, iff in each of these nodes all the entries with the hash but the last
stand at the front. -/
theorem deleteHashInList_removes_iff (type : Guid) (hash : List UInt8) (mok : MokList)
    (hsound : SoundNodes mok.nodes) :
    List.Forall₂ (Removes type hash mok.mem (deleteHashInList type hash mok).mem) mok.nodes
        (deleteHashInList type hash mok).nodes ↔
      ∀ node ∈ mok.nodes, node.type = type →
        FrontRun (hasHash hash) (node.entries mok.mem (sigSize hash)) := by
  obtain ⟨-, hswept⟩ := deleteHashInList_spec type hash hsound
  constructor
  · intro h
    have hfront : List.Forall₂ (fun node _ => (node.type = type →
        FrontRun (hasHash hash) (node.entries mok.mem (sigSize hash))) ∧ True) mok.nodes
        (deleteHashInList type hash mok).nodes :=
      h.mp (fun _ _ hr hs => ⟨hs.removes_iff.mp hr, trivial⟩) hswept
    exact ((forall₂_and_left _ _).mp hfront).1
  · intro h
    refine ((forall₂_and_left _ _).mpr ⟨h, hswept⟩).imp ?_
    rintro node node' ⟨hfront, hs⟩
    exact hs.removes_iff.mpr hfront

end

def hashEntry (b : UInt8) : List UInt8 := List.replicate 16 0xff ++ List.replicate 32 b

def hashNodes (bytes : List UInt8) : MokList :=
  ⟨ofBytes (bytes.flatMap hashEntry), [⟨48 * bytes.length, some 0, certSha256Guid⟩]⟩

/-- Of two entries with the hash behind another one the second stays, and the entry behind it is
lost. -/
theorem deleteHashInList_leaves_match :
    (hashNodes [1, 2, 2, 3]).nodes.map (·.entries (hashNodes [1, 2, 2, 3]).mem 48) =
        [[hashEntry 1, hashEntry 2, hashEntry 2, hashEntry 3]] ∧
      let r := deleteHashInList certSha256Guid (List.replicate 32 2) (hashNodes [1, 2, 2, 3])
      r.nodes.map (·.entries r.mem 48) = [[hashEntry 1, hashEntry 2]] := by
  decide +kernel

theorem deleteHashInList_removes_front :
    let k := hashNodes [2, 2, 1, 2, 3]
    let left := deleteHashInList certSha256Guid (List.replicate 32 2) k
    List.Forall₂ (Removes certSha256Guid (List.replicate 32 2) k.mem left.mem) k.nodes
      left.nodes := by
  have hsound : SoundNodes (hashNodes [2, 2, 1, 2, 3]).nodes :=
    ⟨by decide, by decide, pairwise_singleton _ _⟩
  exact (deleteHashInList_removes_iff _ _ _ hsound).mpr (by decide +kernel)

end Shim.Mok
