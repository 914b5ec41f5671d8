import Mathlib.Tactic

/-!
# Menus on the console

`console_select` shows a list of selectors of which some lines are visible. The position is kept in a
visible row and an offset. `simple_volume_selector` has the user select one of the volumes.
-/

namespace Shim.Console

open List

inductive Key where
  | failed
  | esc
  | up
  | down
  | enter
  | other
  deriving DecidableEq

/-- The arguments of `console_select`, and the screen. The numbers are `int`s. -/
structure Menu where
  count : ℕ
  titleLines : ℕ
  rows : ℕ
  start : ℕ
  nonempty : 1 ≤ count
  tall : 14 ≤ rows
  fits : count < 2 ^ 31 ∧ titleLines < 2 ^ 31 ∧ rows < 2 ^ 31

structure MenuState where
  selector : ℤ
  selectorOffset : ℕ

def MenuState.index (st : MenuState) : ℤ := st.selector + st.selectorOffset

namespace Menu

variable (menu : Menu)

def lines : ℤ := if menu.rows - 10 < menu.count then menu.rows - 3 - menu.titleLines - 2 else menu.count

def unsigned (n : ℤ) : ℕ := (n % 2 ^ 32).toNat

def clamped : ℕ := if menu.count ≤ menu.start then menu.count - 1 else menu.start

def init : MenuState :=
  if unsigned menu.lines < menu.clamped then ⟨menu.lines, unsigned (menu.clamped - menu.lines)⟩
  else ⟨menu.clamped, 0⟩

def move (st : MenuState) : Key → MenuState
  | .up =>
    if 0 < st.selector then { st with selector := st.selector - 1 }
    else if 0 < st.selectorOffset then { st with selectorOffset := st.selectorOffset - 1 }
    else st
  | .down =>
    if st.selector < menu.lines - 1 then { st with selector := st.selector + 1 }
    else if st.selectorOffset < unsigned (menu.count - menu.lines) then
      { st with selectorOffset := st.selectorOffset + 1 }
    else st
  | _ => st

def loop : List Key → MenuState → List ℤ × Option ℤ
  | [], _ => ([], none)
  | .failed :: _, _ => ([], some (-1))
  | .esc :: _, _ => ([], some (-1))
  | .enter :: _, st => ([st.index], some (if st.selector < 0 then st.selector else st.index))
  | k :: keys, st =>
    let r := loop keys (menu.move st k)
    ((menu.move st k).index :: r.1, r.2)

def consoleSelect (keys : List Key) : List ℤ × Option ℤ :=
  let r := menu.loop keys menu.init
  (menu.init.selector :: r.1, r.2)

def IsSelector (i : ℤ) : Prop := 0 ≤ i ∧ i < menu.count

/-- Whatever the keys are, only selectors are highlighted, and one of them is returned, or -1. -/
def Valid : Prop :=
  ∀ keys, (∀ i ∈ (menu.consoleSelect keys).1, menu.IsSelector i) ∧
    ∀ i, (menu.consoleSelect keys).2 = some i → i = -1 ∨ menu.IsSelector i

variable {menu} {st : MenuState}

lemma unsigned_of_nonneg {n : ℤ} (h : 0 ≤ n) (hlt : n < 2 ^ 32) : (unsigned n : ℤ) = n := by
  unfold unsigned
  omega

structure Visible (menu : Menu) (st : MenuState) : Prop where
  selector : 0 ≤ st.selector ∧ st.selector < menu.lines
  offset : menu.lines + st.selectorOffset ≤ menu.count

lemma Visible.isSelector (h : Visible menu st) : menu.IsSelector st.index := by
  obtain ⟨hselector, hoffset⟩ := h
  unfold IsSelector MenuState.index
  omega

lemma Visible.move (h : Visible menu st) (k : Key) : Visible menu (menu.move st k) := by
  obtain ⟨hselector, hoffset⟩ := h
  have hfits := menu.fits
  have hrest : (unsigned (menu.count - menu.lines) : ℤ) = menu.count - menu.lines :=
    unsigned_of_nonneg (by omega) (by omega)
  unfold Menu.move
  split
  · split_ifs
    · exact ⟨by dsimp only; omega, hoffset⟩
    · exact ⟨hselector, by dsimp only; omega⟩
    · exact ⟨hselector, hoffset⟩
  · split_ifs
    · exact ⟨by dsimp only; omega, hoffset⟩
    · exact ⟨hselector, by dsimp only; omega⟩
    · exact ⟨hselector, hoffset⟩
  · exact ⟨hselector, hoffset⟩

lemma Visible.loop (h : Visible menu st) (keys : List Key) :
    (∀ i ∈ (menu.loop keys st).1, menu.IsSelector i) ∧
      ∀ i, (menu.loop keys st).2 = some i → i = -1 ∨ menu.IsSelector i := by
  have hindex := h.isSelector
  induction keys generalizing st with
  | nil => simp [Menu.loop]
  | cons k keys ih =>
    have hmove := h.move k
    have hrest := ih hmove hmove.isSelector
    have hnonneg := h.selector.1
    cases k with
    | failed | esc => simp [Menu.loop]
    | enter => simp [Menu.loop, hindex, not_lt.mpr hnonneg]
    | up | down | other => simpa [Menu.loop, hmove.isSelector] using hrest

/-- Going down leads to the next line, up to the one behind the last selector. -/
structure Descends (menu : Menu) (st : MenuState) : Prop where
  nonneg : 0 ≤ st.selector
  stuck : menu.count < menu.lines ∨ menu.lines ≤ 0 ∨ st.selector = menu.lines

lemma lines_bounds (menu : Menu) : -(2 ^ 31) < menu.lines ∧ menu.lines < 2 ^ 31 := by
  have hfits := menu.fits
  have htall := menu.tall
  unfold lines
  split_ifs <;> omega

lemma Descends.down (h : Descends menu st) (hindex : st.index < menu.count) :
    Descends menu (menu.move st .down) ∧ (menu.move st .down).index = st.index + 1 := by
  obtain ⟨hnonneg, hstuck⟩ := h
  have hfits := menu.fits
  have hlines := menu.lines_bounds
  unfold MenuState.index at hindex ⊢
  by_cases hrow : st.selector < menu.lines - 1
  · simp only [move, if_pos hrow]
    exact ⟨⟨Int.add_nonneg hnonneg (by decide), by dsimp only; omega⟩, by omega⟩
  have hrest : (unsigned (menu.count - menu.lines) : ℤ) = menu.count - menu.lines :=
    unsigned_of_nonneg (by omega) (by omega)
  have hoffset : st.selectorOffset < unsigned (menu.count - menu.lines) := by omega
  simp only [move, if_neg hrow, if_pos hoffset]
  exact ⟨⟨hnonneg, hstuck⟩, by push_cast; omega⟩

lemma Descends.loop (h : Descends menu st) (k : ℕ) (hk : st.index + k = menu.count) :
    (menu.loop (List.replicate k .down ++ [.enter]) st).2 = some menu.count := by
  induction k generalizing st with
  | zero => simp [Menu.loop, not_lt.mpr h.nonneg, ← hk]
  | succ k ih =>
    obtain ⟨hdown, hindex⟩ := h.down (by omega)
    exact ih hdown (by omega)

lemma clamped_lt (menu : Menu) : menu.clamped < menu.count := by
  have hnonempty := menu.nonempty
  unfold clamped
  split_ifs <;> omega

/-- The menu starts at the selector that is asked for: in a row that is visible, or in the one behind
the last of them. -/
theorem init_spec (menu : Menu) : menu.init.index = menu.clamped ∧ 0 ≤ menu.init.selector ∧
    (menu.init.selector < menu.lines ∧ menu.init.selectorOffset = 0 ∨
      menu.init.selector = menu.lines ∨ menu.lines ≤ 0) := by
  have hfits := menu.fits
  have hlines := menu.lines_bounds
  have hclamped := menu.clamped_lt
  unfold init MenuState.index
  by_cases hneg : menu.lines < 0
  · have hlarge : ¬ unsigned menu.lines < menu.clamped := by
      unfold unsigned
      omega
    rw [if_neg hlarge]
    exact ⟨by simp, by simp, by omega⟩
  · have hunsigned := unsigned_of_nonneg (not_lt.mp hneg) (by omega)
    split_ifs with hstart
    · rw [unsigned_of_nonneg (by omega) (by omega)]
      exact ⟨by dsimp only; omega, not_lt.mp hneg, .inr (.inl rfl)⟩
    · exact ⟨by simp, by simp, by dsimp only; omega⟩

lemma visible_init_iff (menu : Menu) : Visible menu menu.init ↔
    menu.lines ≤ menu.count ∧ menu.clamped < menu.lines := by
  obtain ⟨hindex, hnonneg, hrow⟩ := menu.init_spec
  unfold MenuState.index at hindex
  constructor
  · rintro ⟨hselector, hoffset⟩
    omega
  · rintro ⟨hle, hlt⟩
    exact ⟨by omega, by omega⟩

/-- Only selectors are highlighted and returned, whatever the keys are, iff the menu shows all of them;
or its title leaves no more lines than there are selectors, and more than there are in front of the
first one. -/
theorem consoleSelect_valid_iff (menu : Menu) : menu.Valid ↔ menu.count ≤ menu.rows - 10 ∨
      menu.rows ≤ menu.count + menu.titleLines + 5 ∧
        min menu.start (menu.count - 1) + menu.titleLines + 5 < menu.rows := by
  obtain ⟨hindex, hnonneg, hrow⟩ := menu.init_spec
  have hnonempty := menu.nonempty
  have hlt := menu.clamped_lt
  have hiff : menu.Valid ↔ Visible menu menu.init := by
    constructor
    · intro hvalid
      by_contra hvisible
      rw [visible_init_iff] at hvisible
      have hdescends : Descends menu menu.init := by
        refine ⟨hnonneg, ?_⟩
        unfold MenuState.index at hindex
        omega
      -- one step down for each selector behind the first one, and one more
      have hresult := hdescends.loop (menu.count - menu.clamped) (by omega)
      rcases (hvalid _).2 _ hresult with heq | hselector
      · omega
      · exact absurd hselector.2 (lt_irrefl _)
    · intro hvisible keys
      obtain ⟨hall, hresult⟩ := hvisible.loop keys
      refine ⟨forall_mem_cons.mpr ⟨?_, hall⟩, hresult⟩
      obtain ⟨hselector, hoffset⟩ := hvisible
      exact ⟨hnonneg, by omega⟩
  have hclamped : menu.clamped = min menu.start (menu.count - 1) := by
    unfold clamped
    split_ifs <;> omega
  rw [hiff, visible_init_iff, hclamped]
  unfold lines
  split_ifs <;> omega

/-- Sixteen selectors on a screen of 25 rows, with one line above them: the menu has nineteen lines. -/
theorem consoleSelect_leaves_list :
    ¬ (Menu.mk 16 1 25 0 (by decide) (by decide) (by decide)).Valid := by
  intro hvalid
  have hresult := (hvalid (List.replicate 16 .down ++ [.enter])).2 16 (by decide +kernel)
  exact absurd hresult (by unfold IsSelector; decide)

end Menu

/-! ### Volumes -/

variable {H L : Type}

structure Volumes (H L : Type) where
  volumes : List (H × Option L)
  alloc : ℕ → Bool
  distinct : (volumes.map Prod.fst).Nodup

def labels (alloc : ℕ → Bool) : List (H × Option L) → ℕ → List L
  | [], _ => []
  | (_, none) :: vols, j => labels alloc vols j
  | (_, some name) :: vols, j => if alloc j then name :: labels alloc vols (j + 1) else []

namespace Volumes

variable (vols : Volumes H L)

def entries : List L := labels vols.alloc vols.volumes 0

def simpleVolumeSelector (menu : Menu) (keys : List Key) : Option (Option L × Option H) :=
  (menu.consoleSelect keys).2.map fun val =>
    if 0 ≤ val then (vols.entries[val.toNat]?, vols.volumes[val.toNat]?.map Prod.fst) else (none, none)

def opened : List (H × Option L) := vols.volumes.filter (·.2.isSome)

end Volumes

structure Selection (H L : Type) extends Volumes H L where
  menu : Menu
  shown : menu.count = toVolumes.entries.length ∧ menu.start = 0
  keys : List Key
  val : Fin toVolumes.entries.length
  selected : (menu.consoleSelect keys).2 = some (val : ℤ)

def Selection.Right (s : Selection H L) : Prop :=
  ∃ v, s.opened[(s.val : ℕ)]? = some v ∧ s.simpleVolumeSelector s.menu s.keys = some (v.2, some v.1)

lemma labels_prefix (alloc : ℕ → Bool) (vols : List (H × Option L)) (j : ℕ) :
    labels alloc vols j <+: vols.filterMap Prod.snd := by
  induction vols generalizing j with
  | nil => exact nil_prefix
  | cons v vols ih =>
    obtain ⟨h, _ | name⟩ := v
    · simpa [labels] using ih j
    · by_cases hj : alloc j
      · simpa [labels, hj] using ih (j + 1)
      · simp [labels, hj]

lemma map_snd_filter (vols : List (H × Option L)) :
    (vols.filter (·.2.isSome)).map Prod.snd = (vols.filterMap Prod.snd).map some := by
  induction vols with
  | nil => rfl
  | cons v vols ih => obtain ⟨h, _ | name⟩ := v <;> simp [ih]

namespace Selection

variable (s : Selection H L)

lemma exists_opened : ∃ v, s.opened[(s.val : ℕ)]? = some v ∧ s.entries[(s.val : ℕ)]? = v.2 := by
  obtain ⟨tail, htail⟩ : s.entries <+: s.volumes.filterMap Prod.snd := labels_prefix ..
  obtain ⟨l, hl⟩ : ∃ l, s.entries[(s.val : ℕ)]? = some l := ⟨_, List.getElem?_eq_getElem s.val.isLt⟩
  have hlabel : (s.volumes.filterMap Prod.snd)[(s.val : ℕ)]? = some l := by
    rw [← htail, List.getElem?_append_left s.val.isLt, hl]
  have hmap : (s.opened.map Prod.snd)[(s.val : ℕ)]? = some (some l) := by
    rw [Volumes.opened, map_snd_filter, List.getElem?_map, hlabel]
    rfl
  rw [List.getElem?_map, Option.map_eq_some_iff] at hmap
  obtain ⟨v, hv, hvl⟩ := hmap
  exact ⟨v, hv, by rw [hl, hvl]⟩

lemma right_iff_handle : s.Right ↔
    (s.volumes.map Prod.fst)[(s.val : ℕ)]? = (s.opened.map Prod.fst)[(s.val : ℕ)]? := by
  obtain ⟨v, hv, hlabel⟩ := s.exists_opened
  simp only [Right, Volumes.simpleVolumeSelector, s.selected, Option.map_some, Int.natCast_nonneg,
    if_true, hv, Option.some.injEq, exists_eq_left', Prod.mk.injEq, List.getElem?_map,
    Int.toNat_natCast]
  exact and_iff_right hlabel

/-- The handle that is returned is that of the volume with the label that has been selected, iff all
volumes up to it can be opened. -/
theorem volumeSelector_right_iff :
    s.Right ↔ ∀ i ≤ (s.val : ℕ), ∀ v, s.volumes[i]? = some v → v.2.isSome := by
  rw [right_iff_handle]
  have hsub : s.opened.Sublist s.volumes := filter_sublist
  obtain ⟨v, hv, -⟩ := s.exists_opened
  have hlt : (s.val : ℕ) < s.volumes.length :=
    (List.getElem?_eq_some_iff.mp hv).1.trans_le hsub.length_le
  constructor
  · intro hhandle i hi w hw
    obtain ⟨f, hf⟩ := sublist_iff_exists_orderEmbedding_getElem?_eq.mp hsub
    -- the handles are distinct, so the volume is at its place, and those in front of it are too
    have hval : (s.val : ℕ) = f s.val := by
      rw [← List.getElem?_inj (by rwa [length_map]) s.distinct, hhandle, List.getElem?_map, hf,
        List.getElem?_map]
    have hfi : f i = i := by
      have hle := f.strictMono.le_apply (x := i)
      have hgap := f.strictMono.add_le_nat (s.val - i) i
      rw [Nat.sub_add_cancel hi, ← hval] at hgap
      omega
    have hmem : w ∈ s.opened := mem_of_getElem? (by rw [hf, hfi, hw])
    exact (mem_filter.mp hmem).2
  · intro hopen
    have htake : (s.volumes.take (s.val + 1)).filter (·.2.isSome) = s.volumes.take (s.val + 1) := by
      rw [filter_eq_self]
      intro w hw
      obtain ⟨i, hi⟩ := mem_iff_getElem?.mp hw
      obtain ⟨hlen, -⟩ := List.getElem?_eq_some_iff.mp hi
      rw [length_take] at hlen
      rw [List.getElem?_take_of_lt (by omega)] at hi
      exact hopen i (by omega) w hi
    have hopened : s.opened[(s.val : ℕ)]? = s.volumes[(s.val : ℕ)]? := by
      rw [Volumes.opened, ← take_append_drop (s.val + 1) s.volumes, filter_append, htake,
        List.getElem?_append_left, List.getElem?_append_left] <;> rw [length_take] <;> omega
    rw [List.getElem?_map, List.getElem?_map, hopened]

def secondVolume : Selection ℕ ℕ where
  volumes := [(1, none), (2, some 7)]
  alloc _ := true
  distinct := by decide
  menu := ⟨1, 1, 25, 0, by decide, by decide, by decide⟩
  shown := by decide
  keys := [.enter]
  val := ⟨0, by decide⟩
  selected := by decide

/-- The handle is that of the volume that cannot be opened. -/
theorem volumeSelector_first : ¬ secondVolume.Right := by
  rw [right_iff_handle]
  decide

end Selection

end Shim.Console
