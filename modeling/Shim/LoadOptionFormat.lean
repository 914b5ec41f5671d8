import Shim.Lib.Layout
import Shim.LoadOptions

/-!
# Well-formed load options

An `EFI_LOAD_OPTION` as an object: a description in CHAR16s, a list of device paths, each of nodes with
a node that ends it, and optional data. `get_load_option_optional_data` is to find the data of every
one of them.
-/

namespace Shim.LoadOptions

open Lib List Run Mem

structure PathNode where
  type : UInt8
  subtype : UInt8
  data : List UInt8
  length_lt : 4 + data.length < 2 ^ 16
  not_end : ¬ (type = 0x7f ∧ subtype = 0xff)

def PathNode.encode (n : PathNode) : List UInt8 :=
  n.type :: n.subtype :: (numberBytes 2 (4 + n.data.length) ++ n.data)

def endEntire : List UInt8 := [0x7f, 0xff, 4, 0]

/-- The bytes of a device path, of its nodes and the end. A path of several instances has nodes
between them. -/
def encodePath (nodes : List PathNode) : List UInt8 := nodes.flatMap PathNode.encode ++ endEntire

structure LoadOption where
  attributes : List UInt8
  description : List UInt16
  path : List PathNode
  others : List (List PathNode)
  optional : List UInt8
  length_attributes : attributes.length = 4
  ne_nul : ∀ c ∈ description, c ≠ 0
  list_lt : (encodePath path ++ others.flatMap encodePath).length < 2 ^ 16

namespace LoadOption

variable (o : LoadOption)

def fileList : List UInt8 := encodePath o.path ++ o.others.flatMap encodePath

def text : List UInt8 := o.description.flatMap fun c => numberBytes 2 c.toNat

def encode : List UInt8 :=
  o.attributes ++ (numberBytes 2 o.fileList.length ++
    (o.text ++ ([0, 0] ++ (o.fileList ++ o.optional))))

def listStart : ℕ := 6 + (2 * o.description.length + 2)

lemma length_text : o.text.length = 2 * o.description.length := by
  unfold text
  induction o.description with
  | nil => rfl
  | cons c cs ih =>
    rw [flatMap_cons, length_append, ih, length_numberBytes, length_cons]
    omega

lemma length_encode : o.encode.length = o.listStart + o.fileList.length + o.optional.length := by
  unfold encode listStart
  simp only [length_append, o.length_attributes, length_numberBytes, o.length_text,
    length_cons, length_nil]
  omega

end LoadOption

/-! ## What a buffer holds -/

section

variable {m : Mem} {o : LoadOption}

lemma chars_of_slice {cs : List UInt16} {p : ℕ}
    (h : m.slice p (2 * cs.length) = cs.flatMap fun c => numberBytes 2 c.toNat) {k : ℕ}
    (hk : k < cs.length) :
    m (p + 2 * k) = UInt8.ofNat cs[k].toNat ∧ m (p + 2 * k + 1) = UInt8.ofNat (cs[k].toNat / 256) := by
  induction cs generalizing p k with
  | nil => exact absurd hk (Nat.not_lt_zero k)
  | cons c cs ih =>
    have hlen : 2 * (c :: cs).length = 2 + 2 * cs.length := by
      rw [length_cons]
      omega
    rw [hlen, slice_add, flatMap_cons] at h
    obtain ⟨hfirst, hrest⟩ := append_inj h (by simp)
    cases k with
    | zero =>
      rw [numberBytes_two] at hfirst
      simpa [slice, range_succ] using hfirst
    | succ k =>
      have hnext := ih hrest (Nat.lt_of_succ_lt_succ hk)
      rw [show p + 2 * (k + 1) = p + 2 + 2 * k by omega]
      exact hnext

structure LoadOption.Held (o : LoadOption) (m : Mem) : Prop where
  length : m.slice 4 2 = numberBytes 2 o.fileList.length
  text : m.slice 6 (2 * o.description.length) = o.text
  nul : m.slice (6 + 2 * o.description.length) 2 = [0, 0]
  list : m.slice o.listStart o.fileList.length = o.fileList
  optional : m.slice (o.listStart + o.fileList.length) o.optional.length = o.optional

lemma LoadOption.held_of_slice (h : m.slice 0 o.encode.length = o.encode) : o.Held m := by
  unfold LoadOption.encode at h
  obtain ⟨-, h⟩ := slice_eq_append.mp h
  obtain ⟨hlength, h⟩ := slice_eq_append.mp h
  obtain ⟨htext, h⟩ := slice_eq_append.mp h
  obtain ⟨hnul, h⟩ := slice_eq_append.mp h
  obtain ⟨hlist, hoptional⟩ := slice_eq_append.mp h
  rw [o.length_attributes, length_numberBytes] at *
  rw [o.length_text] at *
  exact ⟨hlength, htext, hnul, hlist, hoptional⟩

lemma LoadOption.Held.fplistlen (h : o.Held m) : fplistlen m = o.fileList.length :=
  (load_of_slice_eq_store h.length).trans (Nat.mod_eq_of_lt o.list_lt)

lemma ofNat_eq_zero {n : ℕ} (hn : n < 256) : UInt8.ofNat n = 0 ↔ n = 0 := by
  constructor
  · intro h
    have hval := congrArg UInt8.toNat h
    rwa [UInt8.toNat_ofNat', Nat.mod_eq_of_lt hn] at hval
  · rintro rfl
    rfl

lemma LoadOption.Held.isText (h : o.Held m) {k : ℕ} (hk : k < o.description.length)
    (hlatin : o.description[k].toNat < 256) : IsText m (2 * k) ∧ IsText m (2 * k + 1) := by
  obtain ⟨hlow, hhigh⟩ := chars_of_slice h.text hk
  have hne : o.description[k].toNat ≠ 0 := fun h0 =>
    o.ne_nul _ (getElem_mem hk) (UInt16.toNat_inj.mp h0)
  constructor
  · unfold IsText
    rw [if_pos (by omega), hlow]
    exact fun h0 => hne ((ofNat_eq_zero hlatin).mp h0)
  · unfold IsText
    rw [if_neg (by omega), ← Nat.add_assoc, hhigh, Nat.div_eq_of_lt hlatin]
    rfl

lemma LoadOption.Held.isText_of_lt (h : o.Held m) {k : ℕ} (hk : k ≤ o.description.length)
    (hlatin : ∀ j (hj : j < k), (o.description[j]).toNat < 256) : ∀ i < 2 * k, IsText m i := by
  intro i hi
  have hj : i / 2 < k := by omega
  obtain ⟨heven, hodd⟩ := h.isText (Nat.lt_of_lt_of_le hj hk) (hlatin (i / 2) hj)
  rcases Nat.mod_two_eq_zero_or_one i with h0 | h1
  · rwa [show i = 2 * (i / 2) by omega]
  · rwa [show i = 2 * (i / 2) + 1 by omega]

lemma LoadOption.Held.nul_eq (h : o.Held m) :
    m (6 + 2 * o.description.length) = 0 ∧ m (6 + (2 * o.description.length + 1)) = 0 := by
  have hnul := h.nul
  simpa [slice, range_succ, Nat.add_assoc] using hnul

lemma LoadOption.Held.description (h : o.Held m) (limit : ℕ)
    (hlatin : ∀ c ∈ o.description, c < 256) (hlimit : 2 * o.description.length + 2 ≤ limit) :
    Description m limit (2 * o.description.length) where
  even := Nat.mul_mod_right 2 _
  text := h.isText_of_lt le_rfl fun _ hj => hlatin _ (getElem_mem hj)
  nul := h.nul_eq
  le := hlimit

lemma endsAt_of_texts {limit i e : ℕ} (htext : ∀ j < i, IsText m j) :
    EndsAt m limit 0 e ↔ EndsAt m limit i e := by
  induction i with
  | zero => exact Iff.rfl
  | succ i ih =>
    rw [ih fun j hj => htext j (Nat.lt_succ_of_lt hj), endsAt_of_text (htext i (Nat.lt_succ_self i))]

lemma LoadOption.Held.not_endsAt (h : o.Held m) {limit e : ℕ}
    (hwide : ¬ ∀ c ∈ o.description, c < 256) (hlimit : 2 * o.description.length + 2 ≤ limit) :
    ¬ EndsAt m limit 0 e := by
  have hexists : ∃ k, ∃ hk : k < o.description.length, 256 ≤ (o.description[k]).toNat := by
    by_contra hnone
    apply hwide
    intro c hc
    obtain ⟨k, hk, rfl⟩ := getElem_of_mem hc
    by_contra hge
    exact hnone ⟨k, hk, not_lt.mp fun hlt => hge hlt⟩
  obtain ⟨hk, hge⟩ := Nat.find_spec hexists
  have hbefore : ∀ i < 2 * Nat.find hexists, IsText m i :=
    h.isText_of_lt (Nat.le_of_lt hk) fun j hj => by
      by_contra hge'
      exact Nat.find_min hexists hj ⟨Nat.lt_trans hj hk, not_lt.mp hge'⟩
  generalize Nat.find hexists = k at hk hge hbefore
  obtain ⟨hlow, hhigh⟩ := chars_of_slice h.text hk
  have hhigh0 : m (6 + (2 * k + 1)) ≠ 0 := by
    have hlt := (o.description[k]).toNat_lt
    rw [← Nat.add_assoc, hhigh]
    intro h0
    have hzero := (ofNat_eq_zero (by omega)).mp h0
    omega
  by_cases hlow0 : m (6 + 2 * k) = 0
  · -- the low byte is taken for the end
    have hnot : ¬ IsText m (2 * k) := by
      unfold IsText
      rw [if_pos (by omega)]
      exact not_not.mpr hlow0
    rw [endsAt_of_texts hbefore, endsAt_of_not_text hbefore (by omega) hnot]
    exact fun hend => hhigh0 hend.1.2.2.1
  · have htext : IsText m (2 * k) := by
      unfold IsText
      rwa [if_pos (by omega)]
    have hbefore' : ∀ i < 2 * k + 1, IsText m i := Nat.forall_lt_succ_right.mpr ⟨hbefore, htext⟩
    have hnot : ¬ IsText m (2 * k + 1) := by
      unfold IsText
      rwa [if_neg (by omega)]
    rw [endsAt_of_texts hbefore', endsAt_of_not_text hbefore' (by omega) hnot]
    intro hend
    omega

end

/-! ## The walk over a path -/

section

variable {m : Mem} {cur limit i : ℕ}

lemma PathNode.length_encode (n : PathNode) : n.encode.length = 4 + n.data.length := by
  unfold PathNode.encode
  rw [length_cons, length_cons, length_append, length_numberBytes]
  omega

lemma bytes_of_slice {p : ℕ} {a b c d : UInt8} (h : m.slice p 4 = [a, b, c, d]) :
    m p = a ∧ m (p + 1) = b ∧ m (p + 2) = c ∧ m (p + 3) = d := by
  simpa [slice, range_succ] using h

section

variable (hlimit : limit < 2 ^ 32)
include hlimit

lemma header_of_slice {type subtype low high : UInt8}
    (hi : i + 4 ≤ limit) (h : m.slice (cur + i) 4 = [type, subtype, low, high]) :
    (EndEntire m cur i ↔ type = 0x7f ∧ subtype = 0xff) ∧
      nodeLen m cur i = high.toNat * 2 ^ 8 + low.toNat := by
  obtain ⟨htype, hsubtype, hlow, hhigh⟩ := bytes_of_slice h
  unfold EndEntire nodeLen
  rw [addW_of_lt (by omega), addW_of_lt (by omega), addW_of_lt (by omega), ← Nat.add_assoc,
    ← Nat.add_assoc, ← Nat.add_assoc, htype, hsubtype, hlow, hhigh]
  exact ⟨Iff.rfl, rfl⟩

lemma continues_of_node {n : PathNode}
    (hi : i + n.encode.length ≤ limit) (h : m.slice (cur + i) n.encode.length = n.encode) :
    Run.Continues (pathRound m cur limit) i (i + n.encode.length) := by
  have hlen := n.length_lt
  have hencode : n.encode = [n.type, n.subtype, UInt8.ofNat (4 + n.data.length),
      UInt8.ofNat ((4 + n.data.length) / 256)] ++ n.data := by
    unfold PathNode.encode
    rw [numberBytes_two]
    rfl
  rw [n.length_encode] at hi ⊢
  rw [hencode] at h
  obtain ⟨hheader, -⟩ := slice_eq_append.mp h
  obtain ⟨hend, hnodeLen⟩ := header_of_slice hlimit (by omega) hheader
  have hlength : nodeLen m cur i = 4 + n.data.length := by
    rw [hnodeLen, UInt8.toNat_ofNat', UInt8.toNat_ofNat']
    omega
  refine (continues_iff hlimit (by omega)).mpr ⟨by omega, by omega, by omega, ?_, ?_⟩
  · exact fun h => n.not_end (hend.mp h)
  · rw [hlength, addW_of_lt (by omega)]

lemma yields_of_end (hi : i + 4 ≤ limit)
    (h : m.slice (cur + i) 4 = endEntire) : (pathRound m cur limit i).Yields (.inr (i + 4)) := by
  obtain ⟨hend, hlen⟩ := header_of_slice hlimit hi h
  have hlength : nodeLen m cur i = 4 := hlen
  have hroom : ¬ subW 32 limit i < 4 := by
    rw [subW_of_le hlimit (by omega)]
    omega
  unfold pathRound
  rw [if_neg hroom, if_pos (hend.mpr ⟨rfl, rfl⟩), hlength]
  simp only [yields_bind, yields_emit, yields_check, yields_pure, exists_const,
    true_and]
  refine ⟨by omega, fun hne => hne rfl, ?_⟩
  rw [addW_of_lt (by omega)]

lemma loop_of_path {nodes : List PathNode} {k : ℕ}
    (hi : i + (encodePath nodes).length ≤ limit)
    (h : m.slice (cur + i) (encodePath nodes).length = encodePath nodes) (hk : nodes.length < k) :
    (Run.loop (pathRound m cur limit) k i).Yields (some (i + (encodePath nodes).length)) := by
  induction nodes generalizing i k with
  | nil =>
    obtain ⟨k, rfl⟩ := Nat.exists_eq_add_one_of_ne_zero (Nat.ne_of_gt hk)
    exact loop_yields_succ.mpr (.inl (yields_of_end hlimit hi h))
  | cons n nodes ih =>
    obtain ⟨k, rfl⟩ := Nat.exists_eq_add_one_of_ne_zero (Nat.ne_of_gt (Nat.zero_lt_of_lt hk))
    have hsplit : encodePath (n :: nodes) = n.encode ++ encodePath nodes := by
      unfold encodePath
      rw [flatMap_cons, append_assoc]
    rw [hsplit] at h hi ⊢
    obtain ⟨hnode, hrest⟩ := slice_eq_append.mp h
    rw [length_append] at hi ⊢
    rw [Nat.add_assoc] at hrest
    have hnext := ih (by omega) hrest (Nat.lt_of_succ_lt_succ hk)
    rw [Nat.add_assoc] at hnext
    exact loop_yields_succ.mpr (.inr ⟨_, continues_of_node hlimit (by omega) hnode, hnext⟩)

end

lemma length_le_encodePath (nodes : List PathNode) : nodes.length ≤ (encodePath nodes).length := by
  unfold encodePath
  rw [length_append]
  induction nodes with
  | nil => exact Nat.zero_le _
  | cons n nodes ih =>
    have hlen := n.length_encode
    rw [flatMap_cons, length_append, length_cons]
    omega

end

/-! ## The function on an option -/

section

variable {m : Mem}

def OptionalData.bytes (m : Mem) (x : OptionalData) : List UInt8 :=
  match x.od with
  | none => []
  | some off => m.slice off x.ods

/-- The function succeeds and hands out the optional data, where it is; without any, `NULL`. -/
def FindsOptionalData (m : Mem) (o : LoadOption) : Prop :=
  ∃ x, (getLoadOptionOptionalData m o.encode.length).Yields (some x) ∧
    x.od = (if o.optional = [] then none else some (o.listStart + o.fileList.length)) ∧
    x.ods = o.optional.length ∧ x.bytes m = o.optional

lemma LoadOption.four_le_fileList (o : LoadOption) :
    4 ≤ (encodePath o.path).length ∧ (encodePath o.path).length ≤ o.fileList.length := by
  constructor
  · unfold encodePath
    rw [length_append]
    exact Nat.le_add_left _ _
  · unfold LoadOption.fileList
    rw [length_append]
    exact Nat.le_add_right _ _

lemma LoadOption.Held.pathStage {o : LoadOption} (h : o.Held m) (limit : ℕ)
    (hlimit : limit < 2 ^ 32) (hle : o.fileList.length ≤ limit) :
    (pathStage m o.listStart limit).Yields
      (some ⟨some (o.listStart + o.fileList.length), limit - o.fileList.length⟩) := by
  obtain ⟨-, hfirst⟩ := o.four_le_fileList
  have hfl : o.fileList.length < 2 ^ 16 := o.list_lt
  have hpath : m.slice (o.listStart + 0) (encodePath o.path).length = encodePath o.path :=
    (slice_eq_append.mp h.list).1
  have hnodes : o.path.length < indexValues := by
    have hcount := length_le_encodePath o.path
    unfold indexValues
    omega
  have hloop := loop_of_path hlimit (by omega) hpath hnodes
  unfold LoadOptions.pathStage
  rw [yields_bind]
  refine ⟨_, hloop, ?_⟩
  simp only [yields_bind, yields_check, yields_pure, exists_const, h.fplistlen]
  exact ⟨by omega, trivial⟩

lemma yields_none_of_description {n d : ℕ} (hn : 12 ≤ n) (hlist : fplistlen m ≤ n - 10)
    (hdesc : Description m (n - 6 - fplistlen m) d) (hlast : d + 2 = n - 6 - fplistlen m) :
    (getLoadOptionOptionalData m n).Yields (some ⟨none, 0⟩) := by
  unfold getLoadOptionOptionalData
  simp only [yields_bind, yields_check, yields_emit, exists_const, true_and]
  refine ⟨by omega, by omega, d + 1, hdesc.yields, by omega, ?_⟩
  rw [if_pos hlast, yields_pure]

lemma accepts_of_yields {n : ℕ} {x : Option OptionalData}
    (h : (getLoadOptionOptionalData m n).Yields x) :
    fplistlen m ≤ n - 10 ∧ ∃ e, EndsAt m (n - 6 - fplistlen m) 0 e := by
  unfold getLoadOptionOptionalData at h
  simp only [yields_bind, yields_check, yields_emit, exists_const, true_and] at h
  obtain ⟨-, hlist, e, he, -⟩ := h
  exact ⟨not_lt.mp hlist, e, description_yields.mp he⟩

/-- The optional data of a well-formed option is found iff the characters of its description are
below 256, and an empty description comes with two bytes of data or more. -/
theorem getLoadOptionOptionalData_finds_iff (o : LoadOption) (hsize : o.encode.length < 2 ^ 32)
    (hm : m.slice 0 o.encode.length = o.encode) :
    FindsOptionalData m o ↔
      (∀ c ∈ o.description, c < 256) ∧ ¬ (o.description = [] ∧ o.optional.length < 2) := by
  have hheld := o.held_of_slice hm
  have hfp := hheld.fplistlen
  have hlen := o.length_encode
  have hstart : o.listStart = 6 + (2 * o.description.length + 2) := rfl
  obtain ⟨hfour, hfirst⟩ := o.four_le_fileList
  constructor
  · rintro ⟨x, hx, -⟩
    obtain ⟨hlist, e, he⟩ := accepts_of_yields hx
    constructor
    · by_contra hwide
      exact hheld.not_endsAt hwide (by omega) he
    · rintro ⟨hempty, hfew⟩
      rw [hempty, length_nil] at hstart
      omega
  · rintro ⟨hlatin, hnot⟩
    have hmore : 2 ≤ 2 * o.description.length + o.optional.length := by
      by_contra hlt
      exact hnot ⟨length_eq_zero_iff.mp (by omega), by omega⟩
    have hlist : fplistlen m ≤ o.encode.length - 10 := by omega
    have hdesc := hheld.description (o.encode.length - 6 - fplistlen m) hlatin (by omega)
    by_cases hnone : o.optional = []
    · have hzero : o.optional.length = 0 := length_eq_zero_iff.mpr hnone
      refine ⟨⟨none, 0⟩, yields_none_of_description (by omega) hlist hdesc (by omega), ?_, ?_, ?_⟩
      · rw [if_pos hnone]
      · exact hzero.symm
      · exact hnone.symm
    have hpos : 0 < o.optional.length := length_pos_iff.mpr hnone
    have hpath : HasPath m o.encode.length (2 * o.description.length) :=
      ⟨by omega, hlist, hdesc, by omega⟩
    have hstage := hheld.pathStage (o.encode.length - 6 - (2 * o.description.length + 2))
      (by omega) (by omega)
    have hods : o.encode.length - 6 - (2 * o.description.length + 2) - o.fileList.length =
        o.optional.length := by omega
    rw [hods] at hstage
    refine ⟨_, hpath.yields_of_stage hstage, ?_, rfl, hheld.optional⟩
    rw [if_neg hnone]

def smallestOption : LoadOption where
  attributes := [1, 0, 0, 0]
  description := []
  path := []
  others := []
  optional := []
  length_attributes := rfl
  ne_nul := by simp
  list_lt := by decide

def wideOption : LoadOption :=
  { smallestOption with
    description := [0x542f, 0x52a8]
    optional := [0x61]
    ne_nul := by simp }

/-- Neither is accepted. -/
theorem smallestOption_rejected :
    (getLoadOptionOptionalData (.ofBytes smallestOption.encode) smallestOption.encode.length).out =
        .error .invalidParameter ∧
      (getLoadOptionOptionalData (.ofBytes wideOption.encode) wideOption.encode.length).out =
        .error .invalidParameter := by
  decide +kernel

def twoPathOption : LoadOption :=
  { smallestOption with
    description := [0x41]
    path := [⟨4, 4, [0x61, 0], by decide, by decide⟩]
    others := [[]]
    optional := [0x78, 0]
    ne_nul := by simp
    list_lt := by decide }

theorem twoPathOption_finds : twoPathOption.encode.length < 2 ^ 32 ∧
      (ofBytes twoPathOption.encode).slice 0 twoPathOption.encode.length =
        twoPathOption.encode ∧
      FindsOptionalData (.ofBytes twoPathOption.encode) twoPathOption := by
  have hsize : twoPathOption.encode.length < 2 ^ 32 := by decide
  have hm := slice_ofBytes_self twoPathOption.encode
  refine ⟨hsize, hm, (getLoadOptionOptionalData_finds_iff twoPathOption hsize hm).mpr ⟨?_, ?_⟩⟩
  · intro c hc
    rw [mem_singleton.mp hc]
    decide
  · decide

end

end Shim.LoadOptions
