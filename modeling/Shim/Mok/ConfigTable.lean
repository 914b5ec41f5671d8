import Mathlib.Data.List.TakeWhile
import Shim.Lib.Layout
import Shim.Mok.StateVariables

/-!
# The configuration table of the MOK variables

Between its two walks `import_mok_state` copies the variables that have data into a table for the
operating system: packed entries of a name in 256 bytes, a size and the data, and an entry of zeroes.
-/

namespace Shim.Mok

open Lib List MokStateVariable

def MokStateVariable.rtname8 (v : MokStateVariable) : List UInt8 :=
  (ofText v.rtname).takeWhile (· ≠ 0)

def MokStateVariable.hasData (v : MokStateVariable) : Bool :=
  match v.data with
  | .null _ => false
  | .buf bytes => bytes ≠ []

def sizeofConfigTemplate : ℕ := 256 + 8

def pageShift : ℕ := 12

def configSz (rows : List MokStateVariable) : ℕ :=
  rows.foldl (fun sz v =>
    if v.hasData then addW 64 (addW 64 sz v.data.size) sizeofConfigTemplate else sz) 0

def configTemplate (rtname8 : List UInt8) (dataSize : ℕ) : List UInt8 :=
  rtname8.take 255 ++ List.replicate (256 - (rtname8.take 255).length) 0 ++ numberBytes 8 dataSize

def configWrites : List MokStateVariable → ℕ → List Write × ℕ
  | [], p => ([], p)
  | v :: rows, p =>
    if v.hasData then
      let rest := configWrites rows (p + sizeofConfigTemplate + v.data.size)
      (⟨p, configTemplate v.rtname8 v.data.size⟩ ::
        ⟨p + sizeofConfigTemplate, v.data.bytes⟩ :: rest.1, rest.2)
    else configWrites rows p

structure ConfigTable where
  pages : ℕ
  writes : List Write
  mem : Mem

/-- The table for the rows that the first walk leaves, in pages with the content `m`. There is none if
no row has data or there are no pages. -/
def buildConfigTable (alloc : Bool) (m : Mem) (rows : List MokStateVariable) : Option ConfigTable :=
  let configSz := configSz rows
  if configSz = 0 then none
  else
    let npages := alignUp 64 (addW 64 configSz sizeofConfigTemplate) (2 ^ pageShift) / 2 ^ pageShift
    if alloc = false then none
    else
      let w := configWrites rows 0
      let writes := w.1 ++ [⟨w.2, List.replicate sizeofConfigTemplate 0⟩]
      some ⟨npages, writes, (m.fill 0 (npages * 2 ^ pageShift) 0).writes writes⟩

/-- Names and data of the entries from the place `p` on, until the one with neither. `none` is a
table without an end in so many entries. -/
def decodeConfigTable (m : Mem) : ℕ → ℕ → Option (List (List UInt8 × List UInt8))
  | 0, _ => none
  | n + 1, p =>
    let name := (m.slice p 256).takeWhile (· ≠ 0)
    let dataSize := m.u64 (p + 256)
    if name = [] ∧ dataSize = 0 then some []
    else
      (decodeConfigTable m n (p + sizeofConfigTemplate + dataSize)).map
        ((name, m.slice (p + sizeofConfigTemplate) dataSize) :: ·)

section

variable {v : MokStateVariable} {rows : List MokStateVariable} {p : ℕ}

def configTotal (rows : List MokStateVariable) : ℕ :=
  ((rows.filter (·.hasData)).map fun v => v.data.size + sizeofConfigTemplate).sum

lemma configTotal_cons (v : MokStateVariable) (rows : List MokStateVariable) :
    configTotal (v :: rows) =
      (if v.hasData then v.data.size + sizeofConfigTemplate else 0) + configTotal rows := by
  unfold configTotal
  cases h : v.hasData <;> simp [h]

lemma MokStateVariable.size_pos (h : v.hasData = true) : 0 < v.data.size := by
  unfold hasData at h
  cases hd : v.data with
  | null n => simp [hd] at h
  | buf bytes =>
    rw [hd] at h
    exact length_pos_iff.mpr (of_decide_eq_true h)

lemma MokStateVariable.length_bytes (v : MokStateVariable) : v.data.bytes.length = v.data.size := by
  cases v.data with
  | null n => exact length_replicate
  | buf bytes => rfl

lemma foldl_configSz (h : p + configTotal rows < 2 ^ 64) : rows.foldl (fun sz v =>
      if v.hasData then addW 64 (addW 64 sz v.data.size) sizeofConfigTemplate else sz) p =
        p + configTotal rows := by
  induction rows generalizing p with
  | nil => rfl
  | cons v rows ih =>
    rw [configTotal_cons] at h ⊢
    rw [foldl_cons]
    cases hv : v.hasData with
    | false =>
      simp only [hv, Bool.false_eq_true, if_false, Nat.zero_add] at h ⊢
      exact ih h
    | true =>
      simp only [hv, if_true] at h ⊢
      have hdata : addW 64 p v.data.size = p + v.data.size := addW_of_lt (by omega)
      rw [hdata, addW_of_lt (by omega), ih (by omega)]
      omega

lemma configSz_eq (h : configTotal rows < 2 ^ 64) : configSz rows = configTotal rows := by
  unfold configSz
  rw [foldl_configSz (by omega), Nat.zero_add]

lemma configTotal_eq_zero : configTotal rows = 0 ↔ ∀ v ∈ rows, v.hasData = false := by
  induction rows with
  | nil => simp [configTotal]
  | cons v rows ih =>
    rw [configTotal_cons, Nat.add_eq_zero_iff, ih, forall_mem_cons]
    cases hv : v.hasData with
    | false => simp
    | true => simp [sizeofConfigTemplate]

lemma length_configTemplate (rtname8 : List UInt8) (dataSize : ℕ) :
    (configTemplate rtname8 dataSize).length = sizeofConfigTemplate := by
  have hname : (rtname8.take 255).length ≤ 256 := Nat.le_trans (length_take_le _ _) (by decide)
  unfold configTemplate sizeofConfigTemplate
  rw [length_append, length_append, length_replicate, length_numberBytes]
  omega

lemma configWrites_tiles (rows : List MokStateVariable) (p : ℕ) :
    Tiles p (configWrites rows p).2 (configWrites rows p).1 ∧
      (configWrites rows p).2 = p + configTotal rows := by
  induction rows generalizing p with
  | nil => exact ⟨rfl, rfl⟩
  | cons v rows ih =>
    rw [configTotal_cons, configWrites]
    cases hv : v.hasData with
    | false =>
      rw [if_neg Bool.false_ne_true, if_neg Bool.false_ne_true, Nat.zero_add]
      exact ih p
    | true =>
      obtain ⟨htiles, hend⟩ := ih (p + sizeofConfigTemplate + v.data.size)
      rw [if_pos rfl, if_pos rfl]
      refine ⟨⟨rfl, ?_, ?_⟩, by rw [hend]; omega⟩
      · unfold Write.stop
        rw [length_configTemplate]
      · unfold Write.stop
        rw [v.length_bytes]
        exact htiles

end

/-! ## Reading the table -/

section

variable {m : Mem} {v : MokStateVariable} {rows : List MokStateVariable} {p n : ℕ}

def MokStateVariable.entry (v : MokStateVariable) : List UInt8 × List UInt8 :=
  (v.rtname8.take 255, v.data.bytes)

lemma rtname8_ne_nul (v : MokStateVariable) : ∀ b ∈ v.rtname8, b ≠ 0 := by
  intro b hb
  have hne := mem_takeWhile_imp hb
  exact of_decide_eq_true hne

lemma configTemplate_nil : configTemplate [] 0 = List.replicate sizeofConfigTemplate 0 := by
  have hnumber : numberBytes 8 0 = List.replicate 8 0 := by decide
  unfold configTemplate
  rw [hnumber, take_nil, nil_append, length_nil, ← replicate_add]
  rfl

lemma readTemplate {rtname8 : List UInt8} {dataSize : ℕ} (hname : ∀ b ∈ rtname8, b ≠ 0)
    (hsize : dataSize < 2 ^ 64)
    (h : m.slice p sizeofConfigTemplate = configTemplate rtname8 dataSize) :
    (m.slice p 256).takeWhile (· ≠ 0) = rtname8.take 255 ∧ m.u64 (p + 256) = dataSize := by
  have hlen : (rtname8.take 255).length ≤ 255 := length_take_le _ _
  have hfield : (rtname8.take 255 ++
      List.replicate (256 - (rtname8.take 255).length) (0 : UInt8)).length = 256 := by
    rw [length_append, length_replicate]
    omega
  unfold configTemplate at h
  rw [show sizeofConfigTemplate = 256 + 8 from rfl, Mem.slice_add] at h
  obtain ⟨hslice, hnumber⟩ := append_inj h (by rw [Mem.length_slice, hfield])
  constructor
  · rw [hslice, takeWhile_append_of_pos fun b hb =>
      decide_eq_true (hname b (mem_of_mem_take hb))]
    -- there is at least one zero behind the name
    have hzeroes : 256 - (rtname8.take 255).length = 255 - (rtname8.take 255).length + 1 := by omega
    rw [hzeroes, replicate_succ]
    simp
  · exact (Mem.load_of_slice_eq_store hnumber).trans (Nat.mod_eq_of_lt hsize)

lemma decodeConfigTable_of_readsBack (h : ReadsBack m ((configWrites rows p).1 ++
      [⟨(configWrites rows p).2, List.replicate sizeofConfigTemplate 0⟩]))
    (hsize : configTotal rows < 2 ^ 64) (hn : rows.length < n) :
    decodeConfigTable m n p = some ((rows.filter (·.hasData)).map entry) := by
  induction rows generalizing p n with
  | nil =>
    obtain ⟨n, rfl⟩ := Nat.exists_eq_add_one_of_ne_zero (Nat.ne_of_gt hn)
    have hend : m.slice p sizeofConfigTemplate = configTemplate [] 0 := by
      rw [configTemplate_nil]
      have hslice := h _ (mem_singleton_self _)
      rwa [length_replicate] at hslice
    obtain ⟨hname, hnone⟩ := readTemplate (fun b hb => absurd hb not_mem_nil) (by decide) hend
    rw [decodeConfigTable, hname, hnone]
    rfl
  | cons v rows ih =>
    rw [configTotal_cons] at hsize
    rw [configWrites] at h
    cases hv : v.hasData with
    | false =>
      rw [hv, if_neg Bool.false_ne_true] at h
      rw [filter_cons_of_neg (by rw [hv]; exact Bool.false_ne_true)]
      exact ih h (by omega) (by rw [length_cons] at hn; omega)
    | true =>
      rw [hv, if_pos rfl] at h hsize
      obtain ⟨n, rfl⟩ := Nat.exists_eq_add_one_of_ne_zero (Nat.ne_of_gt (Nat.zero_lt_of_lt hn))
      have htemplate := h ⟨p, configTemplate v.rtname8 v.data.size⟩ mem_cons_self
      rw [length_configTemplate] at htemplate
      have hdata := h ⟨p + sizeofConfigTemplate, v.data.bytes⟩ (mem_cons_of_mem _ mem_cons_self)
      dsimp only at htemplate hdata
      rw [v.length_bytes] at hdata
      obtain ⟨hname, hdataSize⟩ := readTemplate (rtname8_ne_nul v) (by omega) htemplate
      have hrest := ih (p := p + sizeofConfigTemplate + v.data.size) (n := n)
        (h.subset (subset_cons_of_subset _ (subset_cons_self _ _))) (by omega)
        (by rw [length_cons] at hn; omega)
      have hpos := size_pos hv
      rw [decodeConfigTable, hname, hdataSize, if_neg (fun h0 => by omega), hdata, hrest,
        filter_cons_of_pos hv]
      rfl

/-! ## The whole table -/

section

variable {m : Mem} {rows : List MokStateVariable}

lemma buildConfigTable_eq_none_iff (hsize : configTotal rows < 2 ^ 64) :
    buildConfigTable true m rows = none ↔ ∀ v ∈ rows, v.hasData = false := by
  rw [← configTotal_eq_zero]
  unfold buildConfigTable
  dsimp only
  rw [configSz_eq hsize]
  by_cases hzero : configTotal rows = 0
  · rw [if_pos hzero]
    exact iff_of_true rfl hzero
  · rw [if_neg hzero]
    exact iff_of_false (fun h => by cases h) hzero

lemma buildConfigTable_reads
    (hsize : configTotal rows + sizeofConfigTemplate + 2 ^ pageShift ≤ 2 ^ 64) {alloc : Bool}
    {t : ConfigTable} (ht : buildConfigTable alloc m rows = some t) :
    (∀ w ∈ t.writes, w.stop ≤ t.pages * 2 ^ pageShift) ∧
      ∀ n, rows.length < n → decodeConfigTable t.mem n 0 =
        some ((rows.filter (·.hasData)).map fun v => (v.rtname8.take 255, v.data.bytes)) := by
  have hshift : 2 ^ pageShift = 4096 := rfl
  unfold buildConfigTable at ht
  dsimp only at ht
  rw [configSz_eq (by omega)] at ht
  split_ifs at ht with hzero halloc
  obtain rfl := Option.some.inj ht
  have hadd : addW 64 (configTotal rows) sizeofConfigTemplate =
      configTotal rows + sizeofConfigTemplate := addW_of_lt (by omega)
  rw [hadd]
  obtain ⟨htiles, hend⟩ := configWrites_tiles rows 0
  -- the pages hold the entries and the end
  have hall : Tiles 0 (configTotal rows + sizeofConfigTemplate) ((configWrites rows 0).1 ++
      [⟨(configWrites rows 0).2, List.replicate sizeofConfigTemplate 0⟩]) := by
    refine htiles.append ⟨rfl, ?_⟩
    unfold Write.stop
    rw [length_replicate, hend, Nat.zero_add]
    rfl
  have hbounds := alignUp_bounds (w := 64) (v := configTotal rows + sizeofConfigTemplate)
    (a := 2 ^ pageShift) (by omega)
  have hpages : alignUp 64 (configTotal rows + sizeofConfigTemplate) (2 ^ pageShift) /
      2 ^ pageShift * 2 ^ pageShift =
        alignUp 64 (configTotal rows + sizeofConfigTemplate) (2 ^ pageShift) :=
    Nat.div_mul_cancel (dvd_alignUp_pow_two (by decide) (by omega))
  refine ⟨fun w hw => ?_, fun n hn => ?_⟩
  · rw [hpages]
    exact Nat.le_trans (hall.bounds hw).2 hbounds.1
  · exact decodeConfigTable_of_readsBack (ReadsBack.of_writes _ hall.pairwise_apart) (by omega) hn

end

/-- The table of `import_mok_state` is there iff some variable has data, is written inside its pages,
and decodes to the variables that have data, in their order, with their data and with their names up
to 255 bytes. -/
theorem buildConfigTable_decodes (m : Mem) (rows : List MokStateVariable)
    (hsize : configTotal rows + sizeofConfigTemplate + 2 ^ pageShift ≤ 2 ^ 64) :
    (buildConfigTable true m rows = none ↔ ∀ v ∈ rows, v.hasData = false) ∧
      ∀ alloc t, buildConfigTable alloc m rows = some t →
        (∀ w ∈ t.writes, w.stop ≤ t.pages * 2 ^ pageShift) ∧
          ∀ n, rows.length < n → decodeConfigTable t.mem n 0 =
            some ((rows.filter (·.hasData)).map fun v => (v.rtname8.take 255, v.data.bytes)) := by
  have hshift : 2 ^ pageShift = 4096 := rfl
  refine ⟨buildConfigTable_eq_none_iff (by omega), fun alloc t ht => ?_⟩
  exact buildConfigTable_reads hsize ht

/-- A variable with a name of 256 bytes: it is read with 255 of them. -/
theorem buildConfigTable_cuts_name :
    let v := { configOnly .shimLock (String.ofList (List.replicate 256 'A')) with data := .buf [1] }
    v.rtname8 = List.replicate 256 65 ∧
      ((buildConfigTable true (fun _ => 0) [v]).bind fun t => decodeConfigTable t.mem 2 0) =
        some [(List.replicate 255 65, [1])] := by
  intro v
  have hname : v.rtname8 = List.replicate 256 65 := by
    show (ofText (String.ofList (List.replicate 256 'A'))).takeWhile (· ≠ 0) = _
    rw [ofText, String.toList_ofList, map_replicate]
    decide +kernel
  refine ⟨hname, ?_⟩
  cases ht : buildConfigTable true (fun _ => 0) [v] with
  | none => exact absurd ((buildConfigTable_eq_none_iff (by decide)).mp ht) (by decide)
  | some t =>
    have hread := (buildConfigTable_reads (by decide) ht).2 2 (by decide)
    rw [Option.bind_some, hread, filter_cons_of_pos rfl]
    show some [(v.rtname8.take 255, v.data.bytes)] = _
    rw [hname]
    decide +kernel

theorem buildConfigTable_decodes_two :
    let rows := [{ mokPolicyRow with data := .buf [1] }, mokListRow,
      { configOnly .sigDb "db" with data := .buf [7, 8] }]
    configTotal rows + sizeofConfigTemplate + 2 ^ pageShift ≤ 2 ^ 64 ∧
      ∃ t, buildConfigTable true (fun _ => 0xff) rows = some t ∧
        (∀ w ∈ t.writes, w.stop ≤ t.pages * 2 ^ pageShift) ∧
        decodeConfigTable t.mem 4 0 = some [(ofText "MokPolicyRT", [1]), (ofText "db", [7, 8])] := by
  intro rows
  have hsize : configTotal rows + sizeofConfigTemplate + 2 ^ pageShift ≤ 2 ^ 64 := by decide
  obtain ⟨hnone, hsome⟩ := buildConfigTable_decodes (fun _ => 0xff) rows hsize
  refine ⟨hsize, ?_⟩
  cases ht : buildConfigTable true (fun _ => 0xff) rows with
  | none => exact absurd (hnone.mp ht) (by decide)
  | some t =>
    obtain ⟨hfits, hdecode⟩ := hsome true t ht
    refine ⟨t, rfl, hfits, ?_⟩
    rw [hdecode 4 (by decide)]
    decide +kernel

end

end Shim.Mok
