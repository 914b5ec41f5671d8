import Shim.Lib.CStr
import Shim.Verify.SigDb

/-!
# Key lists of MokManager

`MokManager.c` takes a variable apart into nodes (`count_keys`, `build_mok_list`), one for each
`EFI_SIGNATURE_LIST`. A deletion clears nodes and moves hashes inside the buffer of the variable, and
what is left is put together again (`write_back_mok_list`).
-/

namespace Shim.Mok

open Lib Verify Run

def certSha224Guid : Guid :=
  [0x33, 0x52, 0x6e, 0x0b, 0x5c, 0xa6, 0xc9, 0x44, 0x94, 0x07, 0xd9, 0xab, 0x83, 0xbf, 0xc8, 0xbd]

def certSha384Guid : Guid :=
  [0x07, 0x53, 0x3e, 0xff, 0xd0, 0x9f, 0xc9, 0x48, 0x85, 0xf1, 0x8a, 0xd5, 0x6c, 0x70, 0x1e, 0x01]

def certSha512Guid : Guid :=
  [0xae, 0x0f, 0x3e, 0x09, 0xc4, 0xa6, 0x50, 0x4f, 0x9f, 0x1b, 0xd4, 0x1e, 0x2b, 0x89, 0xc1, 0x9a]

def shimLockGuid : Guid :=
  [0x50, 0xab, 0x5d, 0x60, 0x46, 0xe0, 0x00, 0x43, 0xab, 0xb6, 0x3d, 0xd8, 0x10, 0xdd, 0x8b, 0x23]

def sizeofSignatureData : ℕ := 17

def sizeofGuid : ℕ := 16

def isSha2Hash (type : Guid) : Bool :=
  type = certSha224Guid || type = certSha256Guid || type = certSha384Guid || type = certSha512Guid

def shaSize (type : Guid) : ℕ :=
  if type = certSha1Guid then 20
  else if type = certSha224Guid then 28
  else if type = certSha256Guid then 32
  else if type = certSha384Guid then 48
  else if type = certSha512Guid then 64
  else 0

def isValidSiglist (type : Guid) (sigSize : ℕ) : Bool :=
  if type = certTypeX509Guid ∧ sigSize ≠ 0 then true
  else if isSha2Hash type = false then false
  else if sigSize ≠ shaSize type + sizeofGuid then false
  else true

/-! ## Taking a list apart -/

section

variable (db : SigDb)

def countKeysRound : ℕ × ℕ → Run Access Empty ((ℕ × ℕ) ⊕ ℕ)
  | (o, num) =>
    if db.size ≤ o then return .inr num
    else do
      .emit (.read (o + 16) 4)
      if db.size - o < db.signatureListSize o then return .inr num
      else if db.size < o + sizeofSignatureList then return .inr 0
      else
        .emit (.read (o + 24) 4)
        if db.signatureListSize o ≤ db.signatureSize o then return .inr 0
        else
          .emit (.read o 16)
          if isValidSiglist (db.signatureType o) (db.signatureSize o) = false then return .inr 0
          else return .inl (o + db.signatureListSize o, (num + 1) % 2 ^ 32)

/-- The number of lists, or zero. A list that is counted is not empty, so that `size + 1` rounds are
enough: `countKeys_returns`. -/
def countKeys : Run Access Empty ℕ :=
  (fun r => r.getD 0) <$> Run.loop (countKeysRound db) (db.size + 1) (0, 0)

structure MokListNode where
  mokSize : ℕ
  mok : Option ℕ
  type : Guid
  deriving DecidableEq

def mokListNode (o : ℕ) : MokListNode :=
  if db.signatureType o = certTypeX509Guid then
    { mokSize := subW 32 (db.signatureSize o) sizeofGuid
      mok := some (db.slot o 0 + sizeofGuid)
      type := db.signatureType o }
  else
    { mokSize := subW 32 (db.signatureListSize o) sizeofSignatureList
      mok := some (db.slot o 0)
      type := db.signatureType o }

/-- What `build_mok_list` does: it accesses the buffer, and writes the node `i` of its array. -/
inductive ListEvent where
  | buffer (a : Access)
  | node (i : ℕ)
  deriving DecidableEq

def buildMokListRound :
    ℕ × List MokListNode → Run ListEvent Empty ((ℕ × List MokListNode) ⊕ Option (List MokListNode))
  | (o, list) =>
    if db.size ≤ o then return .inr (some list)
    else do
      .emit (.buffer (.read (o + 16) 4))
      if db.size - o < db.signatureListSize o then return .inr (some list)
      else if db.size < o + sizeofSignatureList ∨ db.signatureListSize o = 0 then return .inr none
      else
        .emit (.buffer (.read (o + 20) 8))
        if db.size < db.slot o 0 + sizeofSignatureData ∨ db.signatureSize o ≤ sizeofGuid then
          return .inr none
        else
          .emit (.buffer (.read o 16))
          .emit (.node list.length)
          let node := mokListNode db o
          if subW 64 db.size (node.mok.getD 0) < node.mokSize then return .inr none
          else return .inl (o + db.signatureListSize o, list ++ [node])

/-- The nodes, or nothing. The loop does not look at the number of nodes to allocate; `alloc` says
whether they can be had. -/
def buildMokList (alloc : Bool) : Run ListEvent Empty (Option (List MokListNode)) :=
  if alloc = false then return none
  else (fun r => r.getD none) <$> Run.loop (buildMokListRound db) (db.size + 1) (0, [])

end

/-- The condition of both loops: another list fits into the buffer. -/
def HasList (db : SigDb) (o : ℕ) : Prop := o < db.size ∧ db.signatureListSize o ≤ db.size - o

@[mk_iff]
structure CountAccepts (db : SigDb) (o : ℕ) : Prop where
  header : o + sizeofSignatureList ≤ db.size
  inside : db.signatureListSize o ≤ db.size - o
  larger : db.signatureSize o < db.signatureListSize o
  valid : isValidSiglist (db.signatureType o) (db.signatureSize o) = true

@[mk_iff]
structure BuildAccepts (db : SigDb) (o : ℕ) : Prop where
  header : o + sizeofSignatureList ≤ db.size
  inside : db.signatureListSize o ≤ db.size - o
  nonzero : db.signatureListSize o ≠ 0
  cert : db.slot o 0 + sizeofSignatureData ≤ db.size ∧ sizeofGuid < db.signatureSize o
  mok : (mokListNode db o).mokSize ≤ subW 64 db.size ((mokListNode db o).mok.getD 0)

section

variable {db : SigDb} {o num : ℕ} {list : List MokListNode}

instance : Decidable (HasList db o) := inferInstanceAs (Decidable (_ ∧ _))

instance : Decidable (CountAccepts db o) := decidable_of_iff' _ (countAccepts_iff db o)

instance : Decidable (BuildAccepts db o) := decidable_of_iff' _ (buildAccepts_iff db o)

lemma CountAccepts.hasList (h : CountAccepts db o) : HasList db o :=
  ⟨Nat.lt_of_lt_of_le (Nat.lt_add_of_pos_right (by decide)) h.header, h.inside⟩

lemma BuildAccepts.hasList (h : BuildAccepts db o) : HasList db o :=
  ⟨Nat.lt_of_lt_of_le (Nat.lt_add_of_pos_right (by decide)) h.header, h.inside⟩

lemma countKeysRound_value : (countKeysRound db (o, num)).value =
    if CountAccepts db o then .inl (o + db.signatureListSize o, (num + 1) % 2 ^ 32)
    else .inr (if HasList db o then 0 else num) := by
  simp only [countKeysRound, value_ite, value_bind, value_pure, countAccepts_iff,
    HasList]
  split_ifs <;> grind

lemma buildMokListRound_value : (buildMokListRound db (o, list)).value =
    if BuildAccepts db o then .inl (o + db.signatureListSize o, list ++ [mokListNode db o])
    else .inr (if HasList db o then none else some list) := by
  simp only [buildMokListRound, value_ite, value_bind, value_pure, buildAccepts_iff,
    HasList]
  split_ifs <;> grind

lemma countKeysRound_continues_iff {s' : ℕ × ℕ} : Run.Continues (countKeysRound db) (o, num) s' ↔
    CountAccepts db o ∧ (o + db.signatureListSize o, (num + 1) % 2 ^ 32) = s' := by
  rw [Run.Continues, yields_iff_value, countKeysRound_value]
  by_cases h : CountAccepts db o
  · simp [h]
  · simp [h]

lemma buildMokListRound_continues_iff {s' : ℕ × List MokListNode} :
    Run.Continues (buildMokListRound db) (o, list) s' ↔
      BuildAccepts db o ∧ (o + db.signatureListSize o, list ++ [mokListNode db o]) = s' := by
  rw [Run.Continues, yields_iff_value, buildMokListRound_value]
  by_cases h : BuildAccepts db o
  · simp [h]
  · simp [h]

lemma countKeysRound_continues {s s' : ℕ × ℕ} (h : Run.Continues (countKeysRound db) s s') :
    s.1 < s'.1 ∧ s'.1 ≤ db.size := by
  obtain ⟨⟨hhead, hinside, hlarger, -⟩, rfl⟩ := countKeysRound_continues_iff.mp h
  simp only
  omega

lemma buildMokListRound_continues {s s' : ℕ × List MokListNode}
    (h : Run.Continues (buildMokListRound db) s s') : s.1 < s'.1 ∧ s'.1 ≤ db.size := by
  obtain ⟨⟨hhead, hinside, hnonzero, -, -⟩, rfl⟩ := buildMokListRound_continues_iff.mp h
  simp only
  omega

lemma loop_returns_of_advances {ρ σ α : Type} {step : ℕ × σ → Run ρ Empty ((ℕ × σ) ⊕ α)}
    (hstep : ∀ s s', Run.Continues step s s' → s.1 < s'.1 ∧ s'.1 ≤ db.size) (s : ℕ × σ) :
    ∃ a, (Run.loop step (db.size + 1) s).Yields (some a) := by
  have hvariant : Run.Variant step fun s => db.size - s.1 := by
    intro s s' h
    obtain ⟨hlt, hle⟩ := hstep s s' h
    refine .inr ?_
    show db.size - s'.1 < db.size - s.1
    omega
  rw [loop_returns_iff hvariant (by omega)]
  intro s' _
  refine ⟨⟨(step s').value, yields_value _⟩, fun h => ?_⟩
  exact lt_irrefl _ (hstep s' s' h).1

lemma countKeys_returns :
    ∃ n, (Run.loop (countKeysRound db) (db.size + 1) (0, 0)).Yields (some n) :=
  loop_returns_of_advances (fun _ _ h => countKeysRound_continues h) _

lemma buildMokList_returns :
    ∃ list, (Run.loop (buildMokListRound db) (db.size + 1) (0, [])).Yields (some list) :=
  loop_returns_of_advances (fun _ _ h => buildMokListRound_continues h) _

end

structure MokList where
  mem : Mem
  nodes : List MokListNode

/-- A node with the certificate is cleared. -/
def deleteCertInNode (key : List UInt8) (m : Mem) (node : MokListNode) : MokListNode :=
  if node.type = certTypeX509Guid ∧ node.mokSize = key.length ∧
      m.slice (node.mok.getD 0) key.length = key then
    { node with mok := none, mokSize := 0 }
  else node

/-- `delete_cert`. -/
def deleteCert (key : List UInt8) (mok : MokList) : MokList :=
  { mok with nodes := mok.nodes.map (deleteCertInNode key mok.mem) }

def matchHashFrom (m : Mem) (hash : List UInt8) : ℕ → ℕ → ℕ → Option ℕ
  | 0, _, _ => none
  | n + 1, i, ptr =>
    if m.slice ptr hash.length = hash then some i
    else matchHashFrom m hash n (i + 1) (ptr + hash.length + sizeofGuid)

/-- The index starts at `start`; the pointer starts at the first entry, whatever `start` is. -/
def matchHash (m : Mem) (hash : List UInt8) (start list num : ℕ) : Option ℕ :=
  matchHashFrom m hash (num - start) start (list + sizeofGuid)

/-- The loop of `delete_hash_in_list` over the entries of one node, with `num` of them left and the
next one to delete. -/
def deleteHashFrom (hash : List UInt8) (mok : ℕ) :
    ℕ → Mem → MokListNode → Option ℕ → Mem × MokListNode
  | 0, m, node, _ => (m, node)
  | _, m, node, none => (m, node)
  | num + 1, m, node, some del =>
    let sigSize := hash.length + sizeofGuid
    if sigSize = node.mokSize then (m, { node with mok := none, mokSize := 0 })
    else
      let start := mok + del * sigSize
      let m := m.copy start m (start + sigSize) (subW 32 node.mokSize ((del + 1) * sigSize))
      deleteHashFrom hash mok num m { node with mokSize := subW 32 node.mokSize sigSize }
        (matchHash m hash del mok num)

def deleteHashInNode (type : Guid) (hash : List UInt8) (m : Mem) (node : MokListNode) :
    Mem × MokListNode :=
  let sigSize := hash.length + sizeofGuid
  if node.type ≠ type ∨ node.mokSize < sigSize then (m, node)
  else
    let mok := node.mok.getD 0
    let num := node.mokSize / sigSize
    deleteHashFrom hash mok num m node (matchHash m hash 0 mok num)

/-- The loop of `delete_hash_in_list`; the nodes share their memory. -/
def deleteHashNodes (type : Guid) (hash : List UInt8) : Mem → List MokListNode → MokList
  | m, [] => ⟨m, []⟩
  | m, node :: nodes =>
    let r := deleteHashInNode type hash m node
    let rest := deleteHashNodes type hash r.1 nodes
    ⟨rest.mem, r.2 :: rest.nodes⟩

/-- `delete_hash_in_list`. -/
def deleteHashInList (type : Guid) (hash : List UInt8) (mok : MokList) : MokList :=
  deleteHashNodes type hash mok.mem mok.nodes

def deleteHashList (type : Guid) (del : Mem) (list size : ℕ) (mok : MokList) : MokList :=
  let hashSize := shaSize type
  let sigSize := hashSize + sizeofGuid
  if size < sigSize then mok
  else
    (List.range (size / sigSize)).foldl (fun mok i =>
      deleteHashInList type (del.slice (list + sizeofGuid + i * sigSize) hashSize) mok) mok

def deleteNodes (del : MokList) (mok : MokList) : MokList :=
  del.nodes.foldl (fun mok key =>
    if key.type = certTypeX509Guid then
      deleteCert (del.mem.slice (key.mok.getD 0) key.mokSize) mok
    else if isSha2Hash key.type then deleteHashList key.type del.mem (key.mok.getD 0) key.mokSize mok
    else mok) mok

def writeBackSize (nodes : List MokListNode) : ℕ :=
  (nodes.map fun node =>
    if node.mok = none then 0
    else sizeofSignatureList + (if node.type = certTypeX509Guid then sizeofGuid else 0) +
      node.mokSize).sum

def writeBackNode (src : Mem) : Mem × ℕ → MokListNode → Mem × ℕ
  | (m, ptr), node =>
    match node.mok with
    | none => (m, ptr)
    | some mok =>
      let data := ptr + sizeofSignatureList
      let m := (m.copy ptr (Mem.ofBytes node.type) 0 sizeofGuid).store (ptr + 20) 4 0
      if node.type = certTypeX509Guid then
        let listSize := (node.mokSize + sizeofSignatureList + sizeofGuid) % 2 ^ 32
        let m := m.store (ptr + 16) 4 listSize
        let m := m.store (ptr + 24) 4 ((node.mokSize + sizeofGuid) % 2 ^ 32)
        let m := m.copy data (Mem.ofBytes shimLockGuid) 0 sizeofGuid
        (m.copy (data + sizeofGuid) src mok node.mokSize, ptr + listSize)
      else
        let listSize := (node.mokSize + sizeofSignatureList) % 2 ^ 32
        let m := m.store (ptr + 16) 4 listSize
        let m := m.store (ptr + 24) 4 ((shaSize node.type + sizeofGuid) % 2 ^ 32)
        (m.copy data src mok node.mokSize, ptr + listSize)

def writeBackData (fresh : Mem) (mok : MokList) : List UInt8 :=
  (mok.nodes.foldl (writeBackNode mok.mem) (fresh, 0)).1.slice 0 (writeBackSize mok.nodes)

end Shim.Mok
