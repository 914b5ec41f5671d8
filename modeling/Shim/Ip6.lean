import Mathlib.Data.List.Induction
import Shim.Lib.CStr

/-!
# The address of an IPv6 URL

`str2ip6` reads a text address. It fills `ip` from the front up to a double colon, and then from the
end back to it. In both passes it puts a `NUL` behind a group while it reads the group.
-/

namespace Shim.Netboot

open List

def colon : UInt8 := 0x3a

def isHexDigit (c : UInt8) : Bool :=
  ¬ (c.toNat < 0x30 ∨ 0x39 < c.toNat ∧ c.toNat < 0x41 ∨ 0x46 < c.toNat ∧ c.toNat < 0x61 ∨ 0x66 < c.toNat)

def digit (c : UInt8) : ℕ :=
  if 0x30 ≤ c.toNat ∧ c.toNat ≤ 0x39 then c.toNat - 0x30
  else if 0x41 ≤ c.toNat ∧ c.toNat ≤ 0x46 then c.toNat - 0x41 + 10
  else if 0x61 ≤ c.toNat ∧ c.toNat ≤ 0x66 then c.toNat - 0x61 + 10
  else 0

def str2ns (s : List UInt8) : ℕ :=
  (s.takeWhile (· ≠ 0)).foldl (fun ret c => (ret * 16 + digit c) % 2 ^ 16) 0

/-- The second loop of `str2ip6`: one double colon at most, and digits. -/
def wellFormed (doubleColonFound : Bool) : List UInt8 → Bool
  | [] => true
  | c :: s =>
    if c = colon then
      if s.head? = some colon then if doubleColonFound then false else wellFormed true s
      else wellFormed doubleColonFound s
    else if isHexDigit c then wellFormed doubleColonFound s else false

/-- The pass from the front: what it puts into `ip[0]`, `ip[1]` and so on, the characters passed,
and what is left, from the first colon of a double one on. -/
structure Forward where
  front : List ℕ
  passed : List UInt8
  rest : List UInt8

/-- `cur` is what is between `a` and `b`; a `NUL` is put at `b`, and then the colon again. -/
def forward (cur : List UInt8) : List UInt8 → Forward
  | [] => ⟨[str2ns (cur ++ [0])], cur, []⟩
  | c :: s =>
    if c ≠ colon then forward (cur ++ [c]) s
    else if s.head? = some colon then ⟨[str2ns (cur ++ 0 :: s)], cur, c :: s⟩
    else
      let r := forward [] s
      ⟨str2ns (cur ++ 0 :: s) :: r.front, cur ++ c :: r.passed, r.rest⟩

/-- The pass from the end: `cur` is between `a` and `b`, `after` starts at `b`, `back` is what is in
`ip` down from `ip[7]`. -/
def backward (back : List ℕ) (cur after : List UInt8) : List UInt8 → List ℕ × List UInt8
  | [] => (back, cur ++ after)
  | c :: before =>
    if c ≠ colon then backward back (c :: cur) after before
    else backward (str2ns (cur ++ 0 :: after.tail) :: back) [] (c :: (cur ++ after)) before

structure Ip6Result where
  front : List ℕ
  back : List ℕ
  str : List UInt8

def str2ip6 (str : List UInt8) : Ip6Result :=
  if 7 < str.count colon ∨ wellFormed false str = false then ⟨[], [], str ++ [0]⟩
  else
    let f := forward [] str
    match f.rest with
    | [] => ⟨f.front, [], f.passed ++ [0]⟩
    | c :: s =>
      let b := backward [] [] [0] s.reverse
      ⟨f.front, b.1, f.passed ++ c :: b.2⟩

def networkBytes (groups : List ℕ) : List UInt8 :=
  groups.flatMap fun v => [UInt8.ofNat (v / 256), UInt8.ofNat v]

def Ip6Result.ip (r : Ip6Result) : List ℕ :=
  r.front ++ List.replicate (8 - r.front.length - r.back.length) 0 ++ r.back

structure Group where
  digits : List UInt8
  hex : ∀ c ∈ digits, isHexDigit c = true
  ne_nil : digits ≠ []
  length_le : digits.length ≤ 4

def hexValue (digits : List UInt8) : ℕ := digits.foldl (fun v c => v * 16 + digit c) 0

/-- An address as eight groups, or with a double colon in the place of one or more groups. -/
inductive Ip6Text where
  | full (init : List Group) (last : Group) (h : init.length = 7)
  | compressed (left right : List Group) (h : left.length + right.length ≤ 7)

def side (gs : List Group) : List (List UInt8) := if gs = [] then [[]] else gs.map Group.digits

def joined (gs : List (List UInt8)) (tail : List UInt8) : List UInt8 :=
  gs.foldr (fun g t => g ++ colon :: t) tail

namespace Ip6Text

def text : Ip6Text → List UInt8
  | full init last _ => joined (init.map Group.digits) last.digits
  | compressed left right _ => joined (side left) ((side right).flatMap (colon :: ·))

def groups : Ip6Text → List ℕ
  | full init last _ => init.map (hexValue ·.digits) ++ [hexValue last.digits]
  | compressed left right _ =>
    left.map (hexValue ·.digits) ++ List.replicate (8 - left.length - right.length) 0 ++
      right.map (hexValue ·.digits)

end Ip6Text

/-- The two passes stay inside `ip` and apart, the string is as it was, and an address is read as what
it says. -/
def Ip6Right (s : List UInt8) : Prop :=
  (str2ip6 s).front.length + (str2ip6 s).back.length ≤ 8 ∧ (str2ip6 s).str = s ++ [0] ∧
    ∀ a : Ip6Text, a.text = s → networkBytes (str2ip6 s).ip = networkBytes a.groups

lemma forward_spec (cur s : List UInt8) :
    (forward cur s).passed ++ (forward cur s).rest = cur ++ s ∧
      (forward cur s).front.length + (forward cur s).rest.tail.count colon ≤ s.count colon + 1 := by
  induction s generalizing cur with
  | nil => simp [forward]
  | cons c s ih =>
    rw [forward]
    by_cases hc : c = colon
    · subst hc
      obtain ⟨hpassed, hlength⟩ := ih []
      rw [if_neg (not_not.mpr rfl)]
      rw [count_cons_self]
      split
      · simp [Nat.add_comm]
      refine ⟨by simpa using hpassed, ?_⟩
      dsimp only
      rw [length_cons]
      omega
    · rw [if_pos hc, count_cons_of_ne hc]
      simpa using ih (cur ++ [c])

lemma backward_spec (back : List ℕ) (cur after s : List UInt8) :
    (backward back cur after s).1.length = back.length + s.count colon ∧
      (backward back cur after s).2 = s.reverse ++ cur ++ after := by
  induction s generalizing back cur after with
  | nil => simp [backward]
  | cons c s ih =>
    rw [backward]
    by_cases hc : c = colon
    · subst hc
      obtain ⟨hlength, hstr⟩ := ih (str2ns (cur ++ 0 :: after.tail) :: back) [] (colon :: (cur ++ after))
      rw [if_neg (not_not.mpr rfl), count_cons_self, hlength, length_cons]
      exact ⟨by omega, by simp [hstr]⟩
    · obtain ⟨hlength, hstr⟩ := ih back (c :: cur) after
      rw [if_pos hc, count_cons_of_ne hc]
      exact ⟨hlength, by simp [hstr]⟩

lemma str2ip6_safe (s : List UInt8) :
    (str2ip6 s).front.length + (str2ip6 s).back.length ≤ 8 ∧ (str2ip6 s).str = s ++ [0] := by
  unfold str2ip6
  split
  · simp
  rename_i hok
  obtain ⟨hcount, -⟩ := not_or.mp hok
  obtain ⟨hpassed, hfront⟩ := forward_spec [] s
  cases hrest : (forward [] s).rest with
  | nil =>
    rw [hrest] at hpassed hfront
    simp only [hrest]
    exact ⟨by simp at hfront ⊢; omega, by simpa using hpassed⟩
  | cons c t =>
    rw [hrest] at hpassed hfront
    obtain ⟨hback, hstr⟩ := backward_spec [] [] [0] t.reverse
    simp only [hrest, hback, hstr, count_reverse]
    exact ⟨by simp at hfront ⊢; omega, by simpa using congrArg (· ++ [0]) hpassed⟩

/-! ## The two passes on an address -/

def IsPiece (g : List UInt8) : Prop := ∀ c ∈ g, isHexDigit c = true

variable {g s : List UInt8} {b : Bool}

lemma IsPiece.ne (h : IsPiece g) {c : UInt8} (hc : c ∈ g) : c ≠ colon ∧ c ≠ 0 := by
  have := h c hc
  constructor <;> (rintro rfl; revert this; decide)

lemma IsPiece.head_ne (h : IsPiece g ∧ g ≠ []) (s : List UInt8) : (g ++ s).head? ≠ some colon := by
  obtain ⟨c, g, rfl⟩ := exists_cons_of_ne_nil h.2
  simpa using (h.1.ne mem_cons_self).1

lemma str2ns_cut (h : IsPiece g) (s : List UInt8) : str2ns (g ++ 0 :: s) = hexValue g % 2 ^ 16 := by
  have htake : (g ++ 0 :: s).takeWhile (· ≠ 0) = g := by
    rw [takeWhile_append_of_pos fun c hc => by simpa using (h.ne hc).2]
    simp
  rw [str2ns, htake, hexValue]
  clear h htake
  induction g using reverseRecOn with
  | nil => rfl
  | append_singleton g c ih =>
    rw [foldl_append, foldl_append, ih]
    simp only [foldl_cons, foldl_nil]
    omega

lemma hexValue_lt (g : List UInt8) : hexValue g < 16 ^ g.length := by
  unfold hexValue
  induction g using reverseRecOn with
  | nil => simp
  | append_singleton g c ih =>
    have hdigit : digit c < 16 := by
      unfold digit
      split_ifs <;> omega
    rw [foldl_append, length_append, length_singleton, pow_succ]
    simp only [foldl_cons, foldl_nil]
    omega

lemma Group.isPiece (g : Group) : IsPiece g.digits ∧ g.digits ≠ [] := ⟨g.hex, g.ne_nil⟩

lemma Group.values (gs : List Group) :
    (gs.map Group.digits).map (hexValue · % 2 ^ 16) = gs.map (hexValue ·.digits) := by
  rw [map_map]
  refine map_congr_left fun g _ => Nat.mod_eq_of_lt ((hexValue_lt _).trans_le ?_)
  exact Nat.pow_le_pow_right (by decide) g.length_le

lemma forward_append (h : IsPiece g) (cur : List UInt8) :
    forward cur (g ++ s) = forward (cur ++ g) s := by
  induction g generalizing cur with
  | nil => simp
  | cons c g ih =>
    rw [cons_append, forward, if_pos (h.ne mem_cons_self).1,
      ih (fun c hc => h c (mem_cons_of_mem _ hc))]
    simp

lemma backward_append (h : IsPiece g) (back : List ℕ) (cur after : List UInt8) :
    backward back cur after (g.reverse ++ s) = backward back (g ++ cur) after s := by
  induction g using reverseRecOn generalizing cur with
  | nil => rfl
  | append_singleton g c ih =>
    rw [reverse_append, reverse_singleton, append_assoc, singleton_append, backward,
      if_pos (h.ne (by simp)).1, ih fun c hc => h c (mem_append_left _ hc)]
    simp

lemma wellFormed_append (h : IsPiece g) : wellFormed b (g ++ s) = wellFormed b s := by
  induction g with
  | nil => rfl
  | cons c g ih =>
    obtain ⟨hc, hg⟩ := forall_mem_cons.mp h
    simp [wellFormed, (h.ne mem_cons_self).1, hc, ih hg]

lemma forward_joined {gs : List (List UInt8)} (hgs : ∀ g ∈ gs, IsPiece g ∧ g ≠ []) {tail : List UInt8}
    (htail : tail.head? ≠ some colon) :
    (forward [] (joined gs tail)).front = gs.map (hexValue · % 2 ^ 16) ++ (forward [] tail).front ∧
      (forward [] (joined gs tail)).rest = (forward [] tail).rest ∧
      wellFormed b (joined gs tail) = wellFormed b tail ∧
      (joined gs tail).head? ≠ some colon := by
  induction gs with
  | nil => exact ⟨rfl, rfl, rfl, htail⟩
  | cons g gs ih =>
    obtain ⟨⟨hg, hne⟩, hgs⟩ := forall_mem_cons.mp hgs
    obtain ⟨hfront, hrest, hwf, hhead⟩ := ih hgs
    have hcons : joined (g :: gs) tail = g ++ colon :: joined gs tail := rfl
    have hstep : forward [] (joined (g :: gs) tail) =
        ⟨hexValue g % 2 ^ 16 :: (forward [] (joined gs tail)).front,
          g ++ colon :: (forward [] (joined gs tail)).passed, (forward [] (joined gs tail)).rest⟩ := by
      rw [hcons, forward_append hg, forward]
      simp [hhead, str2ns_cut hg]
    rw [hstep]
    refine ⟨by simp [hfront], hrest, ?_, IsPiece.head_ne ⟨hg, hne⟩ _⟩
    rw [hcons, wellFormed_append hg, wellFormed, if_pos rfl, if_neg hhead, hwf]

lemma backward_flatMap {gs : List (List UInt8)} (hgs : ∀ g ∈ gs, IsPiece g) (back : List ℕ)
    (after : List UInt8) :
    (backward back [] after (gs.flatMap (colon :: ·)).reverse).1 =
      gs.map (hexValue · % 2 ^ 16) ++ back := by
  induction gs using reverseRecOn generalizing back after with
  | nil => rfl
  | append_singleton gs g ih =>
    have hg := hgs g (by simp)
    rw [flatMap_append, flatMap_singleton, reverse_append, reverse_cons,
      append_assoc, singleton_append, backward_append hg, backward]
    simp [ih fun g hg => hgs g (mem_append_left _ hg), str2ns_cut hg]

lemma exists_side (gs : List Group) :
    ∃ init last, side gs = init ++ [last] ∧ (∀ g ∈ init, IsPiece g ∧ g ≠ []) ∧ IsPiece last ∧
      (init = [] ∨ last ≠ []) := by
  rcases eq_nil_or_concat' gs with rfl | ⟨init, last, rfl⟩
  · exact ⟨[], [], rfl, by simp, by simp [IsPiece], .inl rfl⟩
  · refine ⟨init.map Group.digits, last.digits, by simp [side], ?_, last.hex, .inr last.ne_nil⟩
    simpa using fun g _ => g.isPiece

lemma side_values (gs : List Group) :
    (side gs).map (hexValue · % 2 ^ 16) = if gs = [] then [0] else gs.map (hexValue ·.digits) := by
  unfold side
  split
  · rfl
  · exact Group.values gs

lemma wellFormed_right (gs : List Group) : wellFormed true ((side gs).flatMap (colon :: ·)) = true := by
  by_cases hgs : gs = []
  · subst hgs
    rfl
  rw [side, if_neg hgs]
  clear hgs
  induction gs with
  | nil => rfl
  | cons g gs ih =>
    rw [map_cons, flatMap_cons, cons_append, wellFormed, if_pos rfl,
      if_neg (IsPiece.head_ne g.isPiece _), wellFormed_append g.hex, ih]

lemma str2ip6_of_wellFormed (hcount : s.count colon ≤ 7) (hwf : wellFormed false s = true) :
    (str2ip6 s).front = (forward [] s).front ∧ (str2ip6 s).back = match (forward [] s).rest with
      | [] => []
      | _ :: t => (backward [] [] [0] t.reverse).1 := by
  rw [str2ip6, if_neg (by simp [hwf, hcount])]
  cases hrest : (forward [] s).rest <;> simp [hrest]

lemma str2ip6_full (init : List Group) (last : Group) (h : init.length = 7)
    (hcount : (joined (init.map Group.digits) last.digits).count colon ≤ 7) :
    (str2ip6 (joined (init.map Group.digits) last.digits)).ip =
      init.map (hexValue ·.digits) ++ [hexValue last.digits] := by
  have hpieces : ∀ g ∈ init.map Group.digits, IsPiece g ∧ g ≠ [] := by simpa using fun g _ => g.isPiece
  obtain ⟨hfront, hrest, hwf, -⟩ := forward_joined (b := false) hpieces
    (by simpa using IsPiece.head_ne last.isPiece [])
  have hend : forward [] last.digits = ⟨[hexValue last.digits % 2 ^ 16], last.digits, []⟩ := by
    have := forward_append (s := []) last.hex []
    rw [append_nil] at this
    rw [this, nil_append, forward, str2ns_cut last.hex]
  have hwf' : wellFormed false last.digits = true := by
    have := wellFormed_append (s := []) (b := false) last.hex
    rwa [append_nil] at this
  obtain ⟨hfront', hback⟩ := str2ip6_of_wellFormed hcount (hwf.trans hwf')
  have hvalues := Group.values (init ++ [last])
  rw [map_append, map_append, map_singleton, map_singleton] at hvalues
  rw [hrest, hend] at hback
  rw [hfront, hend, hvalues] at hfront'
  simp [Ip6Result.ip, hfront', hback, h]

lemma str2ip6_compressed (left right : List Group) (h : left.length + right.length ≤ 7)
    (hcount : (joined (side left) ((side right).flatMap (colon :: ·))).count colon ≤ 7) :
    (str2ip6 (joined (side left) ((side right).flatMap (colon :: ·)))).ip =
      left.map (hexValue ·.digits) ++ List.replicate (8 - left.length - right.length) 0 ++
        right.map (hexValue ·.digits) := by
  obtain ⟨init, last, hleft, hinit, hlast, hor⟩ := exists_side left
  have hright : ∀ g ∈ side right, IsPiece g := by
    unfold side
    split
    · simp [IsPiece]
    · simpa using fun g _ => g.hex
  have hhead : ((side right).flatMap (colon :: ·)).head? = some colon := by
    cases right <;> rfl
  have hdown := backward_flatMap hright [] [0]
  have hwfRight := wellFormed_right right
  generalize (side right).flatMap (colon :: ·) = tail at *
  have htext : joined (side left) tail = joined init (last ++ colon :: tail) := by simp [hleft, joined]
  have hstop : forward [] (last ++ colon :: tail) = ⟨[hexValue last % 2 ^ 16], last, colon :: tail⟩ := by
    rw [forward_append hlast, forward]
    simp [hhead, str2ns_cut hlast]
  have hwf : wellFormed false (last ++ colon :: tail) = true := by
    rw [wellFormed_append hlast, wellFormed, if_pos rfl, if_pos hhead, if_neg (by decide), hwfRight]
  have hpass : (forward [] (joined init (last ++ colon :: tail))).front =
        (side left).map (hexValue · % 2 ^ 16) ∧
      (forward [] (joined init (last ++ colon :: tail))).rest = colon :: tail ∧
      wellFormed false (joined init (last ++ colon :: tail)) = true := by
    rw [hleft, map_append, map_singleton]
    rcases hor with rfl | hne
    · simp [joined, hstop, hwf]
    obtain ⟨hfront, hrest, hwf', -⟩ := forward_joined (b := false) hinit
      (IsPiece.head_ne ⟨hlast, hne⟩ (colon :: tail))
    rw [hstop] at hfront hrest
    exact ⟨hfront, hrest, hwf'.trans hwf⟩
  rw [htext] at hcount ⊢
  obtain ⟨hfront, hback⟩ := str2ip6_of_wellFormed hcount hpass.2.2
  rw [hpass.2.1] at hback
  rw [Ip6Result.ip, hfront, hback, hpass.1]
  simp only [hdown, append_nil, side_values]
  -- an empty side is one group of zeros
  by_cases hl : left = [] <;> by_cases hr : right = []
  · simp only [hl, hr]
    rfl
  · have hpos := length_pos_iff.mpr hr
    simp [hl, hr, ← replicate_succ, show 8 - 1 - right.length + 1 = 8 - right.length by omega]
  · have hpos := length_pos_iff.mpr hl
    simp [hl, hr, ← replicate_succ', show 8 - left.length - 1 + 1 = 8 - left.length by omega]
  · simp [hl, hr]

/-- For every string of at most 39 characters: everything is right, iff the string is no address with
more than seven colons, other than the address zero. -/
theorem str2ip6_right_iff (s : { s : List UInt8 // 0 ∉ s ∧ s.length ≤ 39 }) :
    Ip6Right s ↔ ∀ a : Ip6Text, a.text = s →
      s.1.count colon ≤ 7 ∨ networkBytes a.groups = List.replicate 16 0 := by
  obtain ⟨s, -⟩ := s
  have hzero : ¬ s.count colon ≤ 7 → networkBytes (str2ip6 s).ip = List.replicate 16 0 := by
    intro hcount
    rw [str2ip6, if_pos (.inl (by omega))]
    rfl
  constructor
  · rintro ⟨-, -, hread⟩ a ha
    by_cases hcount : s.count colon ≤ 7
    · exact .inl hcount
    · exact .inr ((hread a ha).symm.trans (hzero hcount))
  · intro hright
    refine ⟨(str2ip6_safe s).1, (str2ip6_safe s).2, fun a ha => ?_⟩
    by_cases hcount : s.count colon ≤ 7
    · subst ha
      cases a with
      | full init last h => exact congrArg networkBytes (str2ip6_full init last h hcount)
      | compressed left right h => exact congrArg networkBytes (str2ip6_compressed left right h hcount)
    · exact (hzero hcount).trans ((hright a ha).resolve_left hcount).symm

def digitGroup (c : UInt8) (h : isHexDigit c = true) : Group := ⟨[c], by simpa using h, by simp, by simp⟩

/-- `::2:3:4:5:6:7:8` has eight colons, and is taken for `::`. -/
theorem str2ip6_refuses_eight_colons : ¬ Ip6Right (Lib.ofText "::2:3:4:5:6:7:8") := by
  rintro ⟨-, -, hread⟩
  have := hread (.compressed [] [digitGroup 0x32 rfl, digitGroup 0x33 rfl, digitGroup 0x34 rfl,
    digitGroup 0x35 rfl, digitGroup 0x36 rfl, digitGroup 0x37 rfl, digitGroup 0x38 rfl] (by decide))
    (by decide)
  revert this
  decide

end Shim.Netboot
