import Shim.Mok.DeleteHash
import Shim.Mok.KeyFormat

/-!
# Key lists as nodes, and back

A database whose lists MokManager accepts (`IsKeyList`) is taken apart into one node for each list.
The node of a hash list holds its entries, that of an X.509 list the first certificate only. Nodes
that are written back become lists again.
-/

namespace Shim.Mok

open Lib Verify List Mem Option MokListNode

@[mk_iff]
structure IsKeyList (l : SignatureList) : Prop where
  header : l.header = []
  entries : l.entries ≠ []
  valid : isValidSiglist l.type l.entrySize = true
  data : sizeofGuid < l.entrySize

instance (l : SignatureList) : Decidable (IsKeyList l) := decidable_of_iff' _ (isKeyList_iff l)

def listKeysOf (l : SignatureList) : List (Guid × List UInt8) :=
  l.entries.map fun e => (l.type, e.drop sizeofGuid)

section

variable {db : SigDb} {o size : ℕ} {type : Guid} {l : SignatureList} {ls : List SignatureList}

lemma isValidSiglist_iff : isValidSiglist type size = true ↔ type = certTypeX509Guid ∧ size ≠ 0 ∨
        isSha2Hash type = true ∧ size = shaSize type + sizeofGuid := by
  unfold isValidSiglist
  by_cases hcert : type = certTypeX509Guid ∧ size ≠ 0
  · rw [if_pos hcert]
    exact iff_of_true rfl (.inl hcert)
  rw [if_neg hcert]
  by_cases hsha : isSha2Hash type = true
  · by_cases hsize : size = shaSize type + sizeofGuid
    · simp [hsha, hsize]
    · simp [hsha, hsize, hcert]
  · simp [hsha, hcert]

lemma length_of_isSha2Hash (h : isSha2Hash type = true) : type.length = 16 := by
  unfold isSha2Hash at h
  simp only [Bool.or_eq_true, decide_eq_true_eq] at h
  rcases h with ((rfl | rfl) | rfl) | rfl <;> rfl

lemma IsKeyList.cases (h : IsKeyList l) : l.type = certTypeX509Guid ∨
      isSha2Hash l.type = true ∧ l.type ≠ certTypeX509Guid ∧
        l.entrySize = shaSize l.type + sizeofGuid := by
  by_cases hcert : l.type = certTypeX509Guid
  · exact .inl hcert
  · obtain ⟨hsha, hsize⟩ := (isValidSiglist_iff.mp h.valid).resolve_left fun hc => hcert hc.1
    exact .inr ⟨hsha, hcert, hsize⟩

lemma IsKeyList.length_type (h : IsKeyList l) : l.type.length = 16 := by
  rcases h.cases with hcert | ⟨hsha, -, -⟩
  · rw [hcert]
    rfl
  · exact length_of_isSha2Hash hsha

lemma size_of_header (h : l.header = []) :
    l.size = sizeofSignatureList + l.entries.length * l.entrySize := by
  unfold SignatureList.size sizeofSignatureList
  rw [h, length_nil]

lemma IsKeyList.size_eq (h : IsKeyList l) :
    l.size = sizeofSignatureList + l.entries.length * l.entrySize :=
  size_of_header h.header

lemma IsKeyList.entrySize_le (h : IsKeyList l) : l.entrySize ≤ l.entries.length * l.entrySize :=
  Nat.le_mul_of_pos_left _ (length_pos_iff.mpr h.entries)

/-! ## The walks -/

lemma mem_listOffsets (h : db.HoldsFrom o ls) {p : ℕ × SignatureList} (hp : p ∈ listOffsets o ls) :
    p.2 ∈ ls ∧ db.HoldsList p.1 p.2 ∧ o ≤ p.1 ∧ p.1 + p.2.size ≤ db.size := by
  induction ls generalizing o with
  | nil => cases hp
  | cons l ls ih =>
    rcases mem_cons.mp hp with rfl | hp
    · exact ⟨mem_cons_self, h.1, le_rfl, h.2.le_size⟩
    · obtain ⟨hmem, hlist, hle, hend⟩ := ih h.2 hp
      exact ⟨mem_cons_of_mem _ hmem, hlist, (Nat.le_add_right _ _).trans hle, hend⟩

/-- A loop that goes from list to list and accepts them all ends at the end of the buffer. -/
theorem walk_of_holds {ρ σ α : Type} {step : ℕ × σ → Run ρ Empty ((ℕ × σ) ⊕ α)} {x : σ} {n : ℕ}
    {accepts : ℕ → Prop} [DecidablePred accepts] {after : ℕ → σ → σ} {failed : α} {done : σ → α}
    (hstep : ∀ o x, (step (o, x)).value = if accepts o then
        .inl (o + db.signatureListSize o, after o x)
      else .inr (if HasList db o then failed else done x))
    (hlist : ∀ o, accepts o → HasList db o) (h : db.HoldsFrom o ls)
    (hls : ∀ p ∈ listOffsets o ls, accepts p.1) (hn : ls.length < n) :
    (Run.loop step n (o, x)).value =
      some (done ((listOffsets o ls).foldl (fun x p => after p.1 x) x)) := by
  induction ls generalizing o x n with
  | nil =>
    obtain ⟨n, rfl⟩ := Nat.exists_eq_add_of_lt hn
    obtain rfl : o = db.size := h
    have hend : ¬ HasList db db.size := fun h => lt_irrefl _ h.1
    rw [Run.value_loop_succ, hstep, if_neg fun haccepts => hend (hlist _ haccepts), if_neg hend]
    rfl
  | cons l ls ih =>
    obtain ⟨n, rfl⟩ := Nat.exists_eq_add_of_lt hn
    obtain ⟨haccepts, hls⟩ := forall_mem_cons.mp hls
    rw [Run.value_loop_succ, hstep, if_pos haccepts, h.1.size]
    exact ih h.2 hls (by rw [length_cons]; omega)

lemma IsKeyList.countAccepts (hl : IsKeyList l) (h : db.HoldsList o l) (hend : o + l.size ≤ db.size) :
    CountAccepts db o := by
  have hsize := hl.size_eq
  have hentry := hl.entrySize_le
  unfold sizeofSignatureList at hsize
  refine ⟨?_, ?_, ?_, ?_⟩
  · unfold sizeofSignatureList
    omega
  · rw [h.size]
    omega
  · rw [h.size, h.entrySize]
    omega
  · rw [h.type, h.entrySize, hl.valid]

lemma foldl_count (num : ℕ) (ps : List (ℕ × SignatureList)) (hnum : num + ps.length < 2 ^ 32) :
    ps.foldl (fun num _ => (num + 1) % 2 ^ 32) num = num + ps.length := by
  induction ps generalizing num with
  | nil => rfl
  | cons p ps ih =>
    rw [length_cons] at hnum ⊢
    rw [foldl_cons, Nat.mod_eq_of_lt (by omega), ih (num + 1) (by omega)]
    omega

lemma length_listOffsets (o : ℕ) (ls : List SignatureList) : (listOffsets o ls).length = ls.length := by
  rw [← length_map Prod.snd, listOffsets_map_snd]

lemma countKeys_of_holds (h : db.Holds ls) (hls : ∀ l ∈ ls, IsKeyList l)
    (hnum : ls.length < 2 ^ 32) : (countKeys db).value = ls.length := by
  have hle := SigDb.HoldsFrom.length_le h
  have hloop := walk_of_holds (x := 0) (n := db.size + 1) (fun _ _ => countKeysRound_value)
    (fun _ => CountAccepts.hasList) h (fun p hp => by
      obtain ⟨hmem, hlist, -, hend⟩ := mem_listOffsets h hp
      exact (hls _ hmem).countAccepts hlist hend) (by omega)
  rw [countKeys, Run.value_map, hloop,
    foldl_count _ _ (by rwa [length_listOffsets, Nat.zero_add]), length_listOffsets, Nat.zero_add]
  rfl

lemma mokListNode_of_holds (h : db.HoldsList o l) (hheader : l.header = []) : mokListNode db o =
      if l.type = certTypeX509Guid then
        ⟨l.entrySize - sizeofGuid, some (o + sizeofSignatureList + sizeofGuid), l.type⟩
      else ⟨l.entries.length * l.entrySize, some (o + sizeofSignatureList), l.type⟩ := by
  have hsize := size_of_header hheader
  have hlt : l.size < 2 ^ 32 := l.size_lt
  have hcert : subW 32 l.entrySize sizeofGuid = l.entrySize - sizeofGuid :=
    subW_of_le l.entrySize_lt l.entrySize_ge
  have hhash : subW 32 l.size sizeofSignatureList = l.entries.length * l.entrySize := by
    rw [subW_of_le hlt (by omega), hsize, Nat.add_sub_cancel_left]
  unfold mokListNode
  rw [h.type, h.entrySize, h.size, hcert, hhash, h.slot_zero hheader]

lemma MokListNode.Holds.bounds {x : ℕ} (hx : (mokListNode db o).Holds x) (h : db.HoldsList o l)
    (hl : IsKeyList l) : o + sizeofSignatureList ≤ x ∧ x < o + l.size := by
  have hsize := hl.size_eq
  have hentry := hl.entrySize_le
  have hdata := hl.data
  rw [mokListNode_of_holds h hl.header] at hx
  obtain ⟨mok, hmok, hle, hlt⟩ := hx
  by_cases hcert : l.type = certTypeX509Guid
  · rw [if_pos hcert] at hmok hlt
    cases hmok
    dsimp only at hlt
    omega
  · rw [if_neg hcert] at hmok hlt
    cases hmok
    dsimp only at hlt
    omega

/-- A list is taken if there is room for one byte of data. -/
lemma buildAccepts_iff_of_holds (h : db.HoldsList o l) (hend : o + l.size ≤ db.size)
    (hheader : l.header = []) (hdata : sizeofGuid < l.entrySize)
    (hcert : l.type = certTypeX509Guid → l.entries ≠ []) (hlt : db.size < 2 ^ 64) :
    BuildAccepts db o ↔ o + sizeofSignatureList + sizeofSignatureData ≤ db.size := by
  have hsize := size_of_header hheader
  rw [buildAccepts_iff, h.size, h.entrySize, h.slot_zero hheader]
  refine ⟨fun haccepts => haccepts.2.2.2.1.1, fun hroom => ⟨by omega, by omega, ?_, ⟨hroom, hdata⟩, ?_⟩⟩
  · unfold sizeofSignatureList at hsize
    omega
  · rw [mokListNode_of_holds h hheader]
    unfold sizeofSignatureData at hroom
    unfold sizeofGuid at hdata ⊢
    by_cases hx509 : l.type = certTypeX509Guid
    · have hentry : l.entrySize ≤ l.entries.length * l.entrySize :=
        Nat.le_mul_of_pos_left _ (length_pos_iff.mpr (hcert hx509))
      rw [if_pos hx509]
      dsimp only [getD_some]
      rw [subW_of_le hlt (by omega)]
      omega
    · rw [if_neg hx509]
      dsimp only [getD_some]
      rw [subW_of_le hlt (by omega)]
      omega

lemma IsKeyList.buildAccepts (hl : IsKeyList l) (h : db.HoldsList o l) (hend : o + l.size ≤ db.size)
    (hlt : db.size < 2 ^ 64) : BuildAccepts db o := by
  rw [buildAccepts_iff_of_holds h hend hl.header hl.data (fun _ => hl.entries) hlt]
  have hsize := hl.size_eq
  have hentry := hl.entrySize_le
  have hdata := hl.data
  unfold sizeofSignatureData
  unfold sizeofGuid at hdata
  omega

lemma buildMokList_of_holds (h : db.Holds ls) (hls : ∀ l ∈ ls, IsKeyList l)
    (hlt : db.size < 2 ^ 64) :
    (buildMokList db true).value = some ((listOffsets 0 ls).map fun p => mokListNode db p.1) := by
  have hle := SigDb.HoldsFrom.length_le h
  have hloop := walk_of_holds (x := []) (n := db.size + 1) (fun _ _ => buildMokListRound_value)
    (fun _ => BuildAccepts.hasList) h (fun p hp => by
      obtain ⟨hmem, hlist, -, hend⟩ := mem_listOffsets h hp
      exact (hls _ hmem).buildAccepts hlist hend hlt) (by omega)
  rw [buildMokList, if_neg (by decide), Run.value_map, hloop, foldl_append_eq_append, nil_append]
  exact congrArg some map_eq_flatMap.symm

end

/-! ## The keys in the nodes -/

def MokListNode.content (node : MokListNode) (m : Mem) : List (List UInt8) :=
  if node.type = certTypeX509Guid then
    match node.mok with
    | none => []
    | some mok => [m.slice mok node.mokSize]
  else node.entries m (shaSize node.type + sizeofGuid)

def nodeKey (type : Guid) (e : List UInt8) : Guid × List UInt8 :=
  (type, if type = certTypeX509Guid then e else e.drop sizeofGuid)

def MokListNode.keys (node : MokListNode) (m : Mem) : List (Guid × List UInt8) :=
  (node.content m).map (nodeKey node.type)

def MokListNode.owner (node : MokListNode) : Guid :=
  if node.type = certTypeX509Guid then shimLockGuid else []

def MokListNode.entrySize (node : MokListNode) : ℕ :=
  if node.type = certTypeX509Guid then node.mokSize + sizeofGuid else shaSize node.type + sizeofGuid

structure MokListNode.WellFormed (node : MokListNode) : Prop where
  type : node.type = certTypeX509Guid ∨ isSha2Hash node.type = true ∧ node.type ≠ certTypeX509Guid
  size_lt : sizeofSignatureList + node.owner.length + node.mokSize < 2 ^ 32
  nonempty : node.mok = none ∨ node.mokSize ≠ 0
  dvd : node.type ≠ certTypeX509Guid → shaSize node.type + sizeofGuid ∣ node.mokSize

structure MokListNode.Writable (node : MokListNode) : Prop where
  length_type : node.type.length = 16
  size_lt : sizeofSignatureList + node.owner.length + node.mokSize < 2 ^ 32

structure KeyNodes (nodes : List MokListNode) : Prop where
  sound : SoundNodes nodes
  wellFormed : ∀ node ∈ nodes, node.WellFormed

section

variable {m m' : Mem} {node : MokListNode} {mok : ℕ}
  {db : SigDb} {o : ℕ} {l : SignatureList} {ls : List SignatureList}

lemma MokListNode.WellFormed.length_type (h : node.WellFormed) : node.type.length = 16 := by
  rcases h.type with hcert | ⟨hsha, -⟩
  · rw [hcert]
    rfl
  · exact length_of_isSha2Hash hsha

lemma MokListNode.WellFormed.writable (h : node.WellFormed) : node.Writable :=
  ⟨h.length_type, h.size_lt⟩

lemma content_congr (h : ∀ x, node.Holds x → m' x = m x) : node.content m' = node.content m := by
  unfold content
  by_cases hcert : node.type = certTypeX509Guid
  · rw [if_pos hcert, if_pos hcert]
    cases hmok : node.mok with
    | none => rfl
    | some mok =>
      dsimp only
      congr 1
      rw [slice_eq_iff]
      intro i hi
      exact h _ ⟨mok, hmok, by omega, by omega⟩
  · rw [if_neg hcert, if_neg hcert]
    exact entries_congr h

lemma content_of_cleared (h : node.mok = none) : node.content m = [] := by
  unfold content entries
  rw [h]
  by_cases hcert : node.type = certTypeX509Guid
  · rw [if_pos hcert]
  · rw [if_neg hcert]

lemma content_mokListNode (h : db.HoldsList o l) (hl : IsKeyList l) :
    (mokListNode db o).content db.mem =
      if l.type = certTypeX509Guid then (l.entries.head?.map fun e => e.drop sizeofGuid).toList
      else l.entries := by
  rw [mokListNode_of_holds h hl.header, ← h.slot_zero hl.header]
  unfold content
  by_cases hcert : l.type = certTypeX509Guid
  · simp only [if_pos hcert]
    obtain ⟨e, hhead⟩ : ∃ e, l.entries.head? = some e :=
      ne_none_iff_exists'.mp fun hnone => hl.entries (List.head?_eq_none_iff.mp hnone)
    have hdata := hl.data
    have hfirst : db.mem.slice (db.slot o 0) l.entrySize = e := by
      have hpos := length_pos_iff.mpr hl.entries
      rw [h.entries 0 hpos]
      rw [List.head?_eq_getElem?, List.getElem?_eq_getElem hpos] at hhead
      exact Option.some.inj hhead
    have hsplit : l.entrySize = sizeofGuid + (l.entrySize - sizeofGuid) := by omega
    rw [hhead, ← hfirst, hsplit, slice_add, map_some, toList_some,
      drop_left' (length_slice _ _ _), Nat.add_sub_cancel_left]
  · obtain ⟨-, -, hsize⟩ := hl.cases.resolve_left hcert
    have hpos : 0 < l.entrySize := lt_of_le_of_lt (Nat.zero_le _) hl.data
    simp only [if_neg hcert]
    unfold entries
    dsimp only
    rw [← hsize, Nat.mul_div_cancel _ hpos, h.slots_eq]

lemma wellFormed_mokListNode (h : db.HoldsList o l) (hl : IsKeyList l) :
    (mokListNode db o).WellFormed := by
  have hsize := hl.size_eq
  have hlt : l.size < 2 ^ 32 := l.size_lt
  have hentry := hl.entrySize_le
  have hdata := hl.data
  rw [mokListNode_of_holds h hl.header]
  by_cases hcert : l.type = certTypeX509Guid
  · rw [if_pos hcert]
    refine ⟨.inl hcert, ?_, .inr ?_, fun hne => absurd hcert hne⟩
    · unfold owner
      rw [if_pos hcert]
      show sizeofSignatureList + sizeofGuid + (l.entrySize - sizeofGuid) < 2 ^ 32
      omega
    · show l.entrySize - sizeofGuid ≠ 0
      omega
  · obtain ⟨hsha, -, hsize'⟩ := hl.cases.resolve_left hcert
    rw [if_neg hcert]
    refine ⟨.inr ⟨hsha, hcert⟩, ?_, .inr ?_, fun _ => ?_⟩
    · unfold owner
      rw [if_neg hcert]
      show sizeofSignatureList + 0 + l.entries.length * l.entrySize < 2 ^ 32
      omega
    · show l.entries.length * l.entrySize ≠ 0
      omega
    · show shaSize l.type + sizeofGuid ∣ l.entries.length * l.entrySize
      rw [← hsize']
      exact Nat.dvd_mul_left _ _

lemma mok_mokListNode : (mokListNode db o).mok ≠ none := by
  unfold mokListNode
  by_cases hcert : db.signatureType o = certTypeX509Guid
  · rw [if_pos hcert]
    exact some_ne_none _
  · rw [if_neg hcert]
    exact some_ne_none _

lemma keyNodes_of_holds (h : db.HoldsFrom o ls) (hls : ∀ l ∈ ls, IsKeyList l) :
    KeyNodes ((listOffsets o ls).map fun p => mokListNode db p.1) := by
  have hkey : ∀ p ∈ listOffsets o ls, db.HoldsList p.1 p.2 ∧ IsKeyList p.2 := by
    intro p hp
    obtain ⟨hmem, hlist, -⟩ := mem_listOffsets h hp
    exact ⟨hlist, hls p.2 hmem⟩
  have hwell : ∀ node ∈ (listOffsets o ls).map fun p => mokListNode db p.1, node.WellFormed := by
    intro node hnode
    obtain ⟨p, hp, rfl⟩ := mem_map.mp hnode
    exact wellFormed_mokListNode (hkey p hp).1 (hkey p hp).2
  refine ⟨⟨fun node hnode => ?_, fun node hnode hnone => ?_, ?_⟩, hwell⟩
  · have := (hwell node hnode).size_lt
    omega
  · obtain ⟨p, -, rfl⟩ := mem_map.mp hnode
    exact absurd hnone mok_mokListNode
  · rw [pairwise_map]
    clear hwell
    induction ls generalizing o with
    | nil => exact .nil
    | cons l ls ih =>
      refine .cons ?_ (ih h.2 (fun w hw => hls w (mem_cons_of_mem _ hw))
        fun p hp => hkey p (mem_cons_of_mem _ hp))
      intro p hp x hx hx'
      have hhere := hx.bounds (hkey (o, l) mem_cons_self).1 (hkey (o, l) mem_cons_self).2
      have hthere := hx'.bounds (hkey p (mem_cons_of_mem _ hp)).1
        (hkey p (mem_cons_of_mem _ hp)).2
      have hle := (mem_listOffsets h.2 hp).2.2.1
      dsimp only at hhere
      omega

end

/-! ## Writing back -/

section

variable {m src : Mem} {ptr mok : ℕ} {node : MokListNode} {nodes : List MokListNode}

def MokListNode.written (node : MokListNode) (src : Mem) (mok : ℕ) : List UInt8 :=
  node.type ++ (u32Bytes (sizeofSignatureList + node.owner.length + node.mokSize) ++
    (u32Bytes 0 ++ (u32Bytes node.entrySize ++ (node.owner ++ src.slice mok node.mokSize))))

lemma length_written (h : node.Writable) :
    (node.written src mok).length = sizeofSignatureList + node.owner.length + node.mokSize := by
  unfold MokListNode.written sizeofSignatureList
  simp only [length_append, length_u32Bytes, length_slice, h.length_type]
  omega

def writeHeader (m : Mem) (ptr : ℕ) (type : Guid) (listSize entrySize : ℕ) : Mem :=
  (((m.copy ptr (ofBytes type) 0 sizeofGuid).store (ptr + 20) 4 0).store (ptr + 16) 4
    listSize).store (ptr + 24) 4 entrySize

lemma slice_writeHeader {type : Guid} (htype : type.length = 16) (m : Mem)
    (ptr listSize entrySize : ℕ) :
    (writeHeader m ptr type listSize entrySize).slice ptr sizeofSignatureList =
      type ++ (u32Bytes listSize ++ (u32Bytes 0 ++ u32Bytes entrySize)) := by
  have htypes : (ofBytes type).slice 0 16 = type := by
    have := slice_ofBytes_self type
    rwa [htype] at this
  have hsplit : sizeofSignatureList = 16 + (4 + (4 + 4)) := rfl
  unfold writeHeader sizeofGuid
  rw [hsplit, slice_add, slice_add, slice_add]
  congr 1
  · rw [slice_store_of_disjoint _ _ (by omega), slice_store_of_disjoint _ _ (by omega),
      slice_store_of_disjoint _ _ (by omega), slice_copy_self, htypes]
  congr 1
  · rw [slice_store_of_disjoint _ _ (by omega)]
    exact slice_store_self _ _ _ _ _ _
  congr 1
  · rw [slice_store_of_disjoint _ _ (by omega), slice_store_of_disjoint _ _ (by omega)]
    exact slice_store_self _ _ (ptr + 20) _ _ _
  · exact slice_store_self _ _ (ptr + 24) _ _ _

lemma slice_writeHeader_before (m : Mem) (ptr : ℕ) (type : Guid) (listSize entrySize : ℕ) :
    (writeHeader m ptr type listSize entrySize).slice 0 ptr = m.slice 0 ptr := by
  unfold writeHeader
  rw [slice_store_of_disjoint _ _ (by omega), slice_store_of_disjoint _ _ (by omega),
    slice_store_of_disjoint _ _ (by omega), slice_copy_of_disjoint _ _ _ (by omega)]

section

variable (src m : Mem) (ptr : ℕ) (h : node.Writable) (hmok : node.mok = some mok)
include h hmok

lemma writeBackNode_cert (hcert : node.type = certTypeX509Guid) :
    writeBackNode src (m, ptr) node =
      (((writeHeader m ptr node.type (sizeofSignatureList + sizeofGuid + node.mokSize)
        (node.mokSize + sizeofGuid)).copy (ptr + sizeofSignatureList) (ofBytes shimLockGuid) 0
          sizeofGuid).copy (ptr + sizeofSignatureList + sizeofGuid) src mok node.mokSize,
        ptr + (sizeofSignatureList + sizeofGuid + node.mokSize)) := by
  have hlt : sizeofSignatureList + sizeofGuid + node.mokSize < 2 ^ 32 := by
    have howner : node.owner.length = sizeofGuid := congrArg List.length (if_pos hcert)
    rw [← howner]
    exact h.size_lt
  have hsize : (node.mokSize + sizeofSignatureList + sizeofGuid) % 2 ^ 32 =
      sizeofSignatureList + sizeofGuid + node.mokSize := by
    rw [Nat.mod_eq_of_lt (by omega)]
    omega
  have hsig : (node.mokSize + sizeofGuid) % 2 ^ 32 = node.mokSize + sizeofGuid :=
    Nat.mod_eq_of_lt (by omega)
  simp only [writeBackNode, hmok, if_pos hcert, hsize, hsig, writeHeader]

lemma writeBackNode_hashes (hcert : node.type ≠ certTypeX509Guid) :
    writeBackNode src (m, ptr) node =
      ((writeHeader m ptr node.type (sizeofSignatureList + node.mokSize)
        (shaSize node.type + sizeofGuid)).copy (ptr + sizeofSignatureList) src mok node.mokSize,
        ptr + (sizeofSignatureList + node.mokSize)) := by
  have hlt : sizeofSignatureList + node.mokSize < 2 ^ 32 := by
    have howner : node.owner.length = 0 := congrArg List.length (if_neg hcert)
    have := h.size_lt
    omega
  have hsize : (node.mokSize + sizeofSignatureList) % 2 ^ 32 =
      sizeofSignatureList + node.mokSize := by
    rw [Nat.mod_eq_of_lt (by omega)]
    omega
  have hsig : (shaSize node.type + sizeofGuid) % 2 ^ 32 = shaSize node.type + sizeofGuid := by
    refine Nat.mod_eq_of_lt ?_
    unfold shaSize sizeofGuid
    split_ifs <;> decide
  simp only [writeBackNode, hmok, if_neg hcert, hsize, hsig, writeHeader]

lemma writeBackNode_of_live :
    (writeBackNode src (m, ptr) node).2 = ptr + (node.written src mok).length ∧
      (writeBackNode src (m, ptr) node).1.slice ptr (node.written src mok).length =
        node.written src mok ∧
      (writeBackNode src (m, ptr) node).1.slice 0 ptr = m.slice 0 ptr := by
  have hbytes : node.written src mok = (node.type ++ (u32Bytes
      (sizeofSignatureList + node.owner.length + node.mokSize) ++
      (u32Bytes 0 ++ u32Bytes node.entrySize))) ++ (node.owner ++ src.slice mok node.mokSize) := by
    unfold MokListNode.written
    simp only [append_assoc]
  rw [length_written h]
  by_cases hcert : node.type = certTypeX509Guid
  · have howner : node.owner = shimLockGuid := if_pos hcert
    have hentry : node.entrySize = node.mokSize + sizeofGuid := if_pos hcert
    have hlen : shimLockGuid.length = sizeofGuid := rfl
    rw [writeBackNode_cert src m ptr h hmok hcert, hbytes, howner, hlen, hentry]
    refine ⟨rfl, ?_, ?_⟩
    · rw [Nat.add_assoc, slice_add _ ptr, slice_add _ (ptr + sizeofSignatureList)]
      congr 1
      · rw [slice_copy_of_disjoint _ _ _ (by omega), slice_copy_of_disjoint _ _ _ (by omega),
          slice_writeHeader h.length_type, ← Nat.add_assoc]
      congr 1
      · rw [slice_copy_of_disjoint _ _ _ (by omega), slice_copy_self]
        exact slice_ofBytes_self shimLockGuid
      · rw [slice_copy_self]
    · rw [slice_copy_of_disjoint _ _ _ (by omega), slice_copy_of_disjoint _ _ _ (by omega),
        slice_writeHeader_before]
  · have howner : node.owner = [] := if_neg hcert
    have hentry : node.entrySize = shaSize node.type + sizeofGuid := if_neg hcert
    rw [writeBackNode_hashes src m ptr h hmok hcert, hbytes, howner, length_nil, Nat.add_zero,
      hentry, nil_append]
    refine ⟨rfl, ?_, ?_⟩
    · rw [slice_add]
      congr 1
      · rw [slice_copy_of_disjoint _ _ _ (by omega), slice_writeHeader h.length_type]
      · rw [slice_copy_self]
    · rw [slice_copy_of_disjoint _ _ _ (by omega), slice_writeHeader_before]

end

section

variable (src : Mem) (h : node.WellFormed) (hmok : node.mok = some mok)
include h hmok

lemma exists_written_cert (hcert : node.type = certTypeX509Guid) :
    ∃ l : SignatureList, l.encode = node.written src mok ∧ l.type = node.type ∧ l.entries ≠ [] ∧
      listKeysOf l = node.keys src := by
  have hlt := h.size_lt
  have howner : node.owner = shimLockGuid := if_pos hcert
  have hentry : node.entrySize = node.mokSize + 16 := if_pos hcert
  have hlen : shimLockGuid.length = 16 := rfl
  rw [howner, hlen] at hlt
  unfold sizeofSignatureList at hlt
  refine ⟨⟨node.type, [], node.mokSize + 16, [shimLockGuid ++ src.slice mok node.mokSize],
    Nat.le_add_left _ _, by omega, ?_, ?_⟩, ?_, rfl, cons_ne_nil _ _, ?_⟩
  · intro e he
    rw [mem_singleton.mp he, length_append, length_slice, hlen, Nat.add_comm]
  · simp only [length_nil, length_singleton]
    omega
  · have hsize : 28 + 0 + 1 * (node.mokSize + 16) = 28 + 16 + node.mokSize := by omega
    unfold SignatureList.encode MokListNode.written SignatureList.size sizeofSignatureList
    simp only [howner, hentry, hlen, hsize, length_nil, length_singleton,
      flatten_cons, flatten_nil, append_nil, nil_append]
  · unfold listKeysOf MokListNode.keys content nodeKey sizeofGuid
    simp only [if_pos hcert, hmok, map_singleton]
    rw [drop_left' hlen]

lemma exists_written_hashes (hcert : node.type ≠ certTypeX509Guid) :
    ∃ l : SignatureList, l.encode = node.written src mok ∧ l.type = node.type ∧ l.entries ≠ [] ∧
      listKeysOf l = node.keys src := by
  have hlt := h.size_lt
  have hpos : node.mokSize ≠ 0 := h.nonempty.resolve_left (hmok ▸ some_ne_none _)
  have howner : node.owner = [] := if_neg hcert
  have hentry : node.entrySize = shaSize node.type + 16 := if_neg hcert
  have hentries : node.entries src (shaSize node.type + 16) = src.slots mok (shaSize node.type + 16)
      (node.mokSize / (shaSize node.type + 16)) := by
    unfold entries
    rw [hmok]
  have hwhole : node.mokSize / (shaSize node.type + 16) * (shaSize node.type + 16) =
      node.mokSize := Nat.div_mul_cancel (h.dvd hcert)
  have hsome : node.mokSize / (shaSize node.type + 16) ≠ 0 := by
    intro hzero
    rw [hzero, Nat.zero_mul] at hwhole
    exact hpos hwhole.symm
  have hle := Nat.le_of_dvd (Nat.pos_of_ne_zero hpos) (h.dvd hcert)
  rw [howner, length_nil] at hlt
  unfold sizeofSignatureList at hlt
  unfold sizeofGuid at hle
  refine ⟨⟨node.type, [], shaSize node.type + 16, node.entries src (shaSize node.type + 16),
    Nat.le_add_left _ _, by omega, ?_, ?_⟩, ?_, rfl, ?_, ?_⟩
  · intro e he
    rw [hentries] at he
    obtain ⟨i, -, rfl⟩ := mem_map.mp he
    exact length_slice _ _ _
  · rw [hentries, length_slots, hwhole, length_nil]
    omega
  · unfold SignatureList.encode MokListNode.written SignatureList.size sizeofSignatureList
    dsimp only
    rw [howner, hentry, hentries, length_slots, hwhole, flatten_slots, hwhole,
      length_nil, nil_append]
  · dsimp only
    rw [hentries]
    intro hnil
    exact hsome ((length_slots _ _ _ _).symm.trans (congrArg List.length hnil))
  · unfold listKeysOf MokListNode.keys content nodeKey
    simp only [if_neg hcert]
    rfl

lemma exists_written :
    ∃ l : SignatureList, l.encode = node.written src mok ∧ l.type = node.type ∧ l.entries ≠ [] ∧
      listKeysOf l = node.keys src := by
  by_cases hcert : node.type = certTypeX509Guid
  · exact exists_written_cert src h hmok hcert
  · exact exists_written_hashes src h hmok hcert

end

def writtenNodes (src : Mem) (nodes : List MokListNode) : List UInt8 :=
  nodes.flatMap fun node =>
    match node.mok with
    | none => []
    | some mok => node.written src mok

lemma writtenNodes_cons_none (hmok : node.mok = none) :
    writtenNodes src (node :: nodes) = writtenNodes src nodes := by
  rw [writtenNodes, flatMap_cons, hmok]
  rfl

lemma writtenNodes_cons_some (hmok : node.mok = some mok) :
    writtenNodes src (node :: nodes) = node.written src mok ++ writtenNodes src nodes := by
  rw [writtenNodes, flatMap_cons, hmok]
  rfl

lemma writeBack_fold (src m : Mem) (ptr : ℕ) (h : ∀ node ∈ nodes, node.Writable) :
    (nodes.foldl (writeBackNode src) (m, ptr)).2 = ptr + (writtenNodes src nodes).length ∧
      (nodes.foldl (writeBackNode src) (m, ptr)).1.slice ptr (writtenNodes src nodes).length =
        writtenNodes src nodes ∧
      (nodes.foldl (writeBackNode src) (m, ptr)).1.slice 0 ptr = m.slice 0 ptr := by
  induction nodes generalizing m ptr with
  | nil => exact ⟨rfl, rfl, rfl⟩
  | cons node nodes ih =>
    obtain ⟨hnode, hnodes⟩ := forall_mem_cons.mp h
    rw [foldl_cons]
    cases hmok : node.mok with
    | none =>
      have hskip : writeBackNode src (m, ptr) node = (m, ptr) := by
        simp only [writeBackNode, hmok]
      rw [hskip, writtenNodes_cons_none hmok]
      exact ih m ptr hnodes
    | some mok =>
      obtain ⟨hptr, hhere, hbefore⟩ := writeBackNode_of_live src m ptr hnode hmok
      generalize hstep : writeBackNode src (m, ptr) node = step at hptr hhere hbefore ⊢
      obtain ⟨m₁, ptr₁⟩ := step
      dsimp only at hptr hhere hbefore
      subst hptr
      obtain ⟨hend, hslice, hsame⟩ := ih m₁ (ptr + (node.written src mok).length) hnodes
      rw [slice_add, slice_add, Nat.zero_add] at hsame
      obtain ⟨hfirst, hsecond⟩ := append_inj hsame (by simp)
      rw [writtenNodes_cons_some hmok, length_append]
      refine ⟨by rw [hend, Nat.add_assoc], ?_, hfirst.trans hbefore⟩
      rw [slice_add, hslice, hsecond, hhere]

lemma writeBackSize_eq (src : Mem) (h : ∀ node ∈ nodes, node.Writable) :
    writeBackSize nodes = (writtenNodes src nodes).length := by
  induction nodes with
  | nil => rfl
  | cons node nodes ih =>
    obtain ⟨hnode, hnodes⟩ := forall_mem_cons.mp h
    have hcons : ∀ n, writeBackSize (node :: nodes) = n + writeBackSize nodes ↔
        (if node.mok = none then 0 else sizeofSignatureList +
          (if node.type = certTypeX509Guid then sizeofGuid else 0) + node.mokSize) = n := by
      intro n
      unfold writeBackSize
      rw [map_cons, sum_cons, Nat.add_right_cancel_iff]
    cases hmok : node.mok with
    | none =>
      rw [writtenNodes_cons_none hmok, ← ih hnodes, ← Nat.zero_add (writeBackSize nodes),
        hcons, if_pos hmok]
    | some mok =>
      rw [writtenNodes_cons_some hmok, length_append, ← ih hnodes, hcons,
        if_neg (by rw [hmok]; exact some_ne_none _), length_written hnode]
      unfold owner
      by_cases hcert : node.type = certTypeX509Guid
      · rw [if_pos hcert, if_pos hcert]
        rfl
      · rw [if_neg hcert, if_neg hcert]
        rfl

lemma writeBackData_eq (fresh src : Mem) (h : ∀ node ∈ nodes, node.Writable) :
    writeBackData fresh ⟨src, nodes⟩ = writtenNodes src nodes := by
  unfold writeBackData
  dsimp only
  rw [writeBackSize_eq src h]
  exact (writeBack_fold src fresh 0 h).2.1

lemma exists_lists (src : Mem) (h : ∀ node ∈ nodes, node.WellFormed) :
    ∃ ls : List SignatureList, (∀ l ∈ ls, l.type.length = 16 ∧ l.entries ≠ []) ∧
      ls.flatMap listKeysOf = nodes.flatMap (·.keys src) ∧
      encodeLists ls = writtenNodes src nodes := by
  induction nodes with
  | nil => exact ⟨[], by simp, rfl, rfl⟩
  | cons node nodes ih =>
    obtain ⟨hnode, hnodes⟩ := forall_mem_cons.mp h
    obtain ⟨ls, hls, hkeys, hencode⟩ := ih hnodes
    cases hmok : node.mok with
    | none =>
      refine ⟨ls, hls, ?_, hencode.trans (writtenNodes_cons_none hmok).symm⟩
      rw [hkeys, flatMap_cons, MokListNode.keys, content_of_cleared hmok, map_nil,
        nil_append]
    | some mok =>
      obtain ⟨l, hl, htype, hentries, hkey⟩ := exists_written src hnode hmok
      refine ⟨l :: ls, forall_mem_cons.mpr ⟨⟨?_, hentries⟩, hls⟩, ?_, ?_⟩
      · rw [htype]
        exact hnode.length_type
      · rw [flatMap_cons, flatMap_cons, hkey, hkeys]
      · rw [writtenNodes_cons_some hmok, ← hencode, ← hl]
        exact flatMap_cons

lemma writeBackData_spec (fresh src : Mem) (h : ∀ node ∈ nodes, node.WellFormed) :
    ∃ ls : List SignatureList, (∀ l ∈ ls, l.type.length = 16 ∧ l.entries ≠ []) ∧
      ls.flatMap listKeysOf = nodes.flatMap (·.keys src) ∧
      writeBackSize nodes = (encodeLists ls).length ∧
      writeBackData fresh ⟨src, nodes⟩ = encodeLists ls := by
  have hwritable : ∀ node ∈ nodes, node.Writable := fun node hnode => (h node hnode).writable
  obtain ⟨ls, hls, hkeys, hencode⟩ := exists_lists src h
  refine ⟨ls, hls, hkeys, ?_, ?_⟩
  · rw [hencode, writeBackSize_eq src hwritable]
  · rw [hencode, writeBackData_eq fresh src hwritable]

end

end Shim.Mok
