import Shim.Mok.KeyNodes
import Shim.Mok.Prompt

/-!
# Deleting keys

`delete_keys` takes `MokList` (or `MokListX`) and the request apart, strikes each key of the request
from each node, and writes back what is left. This module follows the keys through the three
representations: the bytes of the variable, the nodes, and the bytes again.
-/

namespace Shim.Mok

open Lib Verify List Mem MokListNode Sbat
open Sbat (Variable getVariable)

/-! ## Striking a key -/

def IsKey (key : Guid × List UInt8) : Prop :=
  key.1 = certTypeX509Guid ∧ key.2 ≠ [] ∨ key.1 ≠ certTypeX509Guid ∧ key.2.length = shaSize key.1

def deleteKey (mok : MokList) (key : Guid × List UInt8) : MokList :=
  if key.1 = certTypeX509Guid then deleteCert key.2 mok else deleteHashInList key.1 key.2 mok

def strike (type : Guid) (es : List (List UInt8)) (key : Guid × List UInt8) : List (List UInt8) :=
  if type ≠ key.1 then es
  else if type = certTypeX509Guid then es.filter fun e => e ≠ key.2
  else sweep (hasHash key.2) es

def MokList.contents (mok : MokList) : List (Guid × List (List UInt8)) :=
  mok.nodes.map fun node => (node.type, node.content mok.mem)

section

variable {key : Guid × List UInt8} {keys : List (Guid × List UInt8)} {mok : MokList}
  {node node' : MokListNode} {cert : List UInt8}

lemma map_eq_of_forall₂ {α β γ : Type} {R : α → β → Prop} {f : α → γ} {g : β → γ} {l : List α}
    {l' : List β} (h : List.Forall₂ R l l') (hfg : ∀ a b, R a b → g b = f a) :
    l'.map g = l.map f := by
  induction h with
  | nil => rfl
  | cons hab _ ih => rw [map_cons, map_cons, hfg _ _ hab, ih]

lemma MokListNode.WellFormed.within (h : node.WellFormed) (hwithin : node'.Within node)
    (htype : node'.type = node.type) (hnonempty : node'.mok = none ∨ node'.mokSize ≠ 0)
    (hdvd : node.type ≠ certTypeX509Guid → shaSize node.type + sizeofGuid ∣ node'.mokSize) :
    node'.WellFormed := by
  have howner : node'.owner = node.owner := by
    unfold owner
    rw [htype]
  refine ⟨htype ▸ h.type, ?_, hnonempty, htype ▸ hdvd⟩
  rw [howner]
  exact lt_of_le_of_lt (Nat.add_le_add_left hwithin.mokSize_le _) h.size_lt

lemma deleteCertInNode_within (m : Mem) : (deleteCertInNode cert m node).Within node := by
  unfold deleteCertInNode
  split_ifs
  · exact .inl rfl
  · exact .inr ⟨rfl, le_refl _⟩

lemma deleteCertInNode_type (m : Mem) : (deleteCertInNode cert m node).type = node.type := by
  unfold deleteCertInNode
  split_ifs <;> rfl

lemma deleteCertInNode_wellFormed (m : Mem) (h : node.WellFormed) :
    (deleteCertInNode cert m node).WellFormed := by
  refine h.within (deleteCertInNode_within m) (deleteCertInNode_type m) ?_ fun hne => ?_
  · unfold deleteCertInNode
    split_ifs
    · exact .inl rfl
    · exact h.nonempty
  · unfold deleteCertInNode
    rw [if_neg fun hc => hne hc.1]
    exact h.dvd hne

lemma deleteCertInNode_content (m : Mem) (hcert : cert ≠ [])
    (hcleared : node.mok = none → node.mokSize = 0) :
    (deleteCertInNode cert m node).content m =
      strike node.type (node.content m) (certTypeX509Guid, cert) := by
  unfold strike
  by_cases htype : node.type = certTypeX509Guid
  · rw [if_neg (not_not.mpr htype), if_pos htype]
    cases hmok : node.mok with
    | none =>
      have hkept : deleteCertInNode cert m node = node := by
        refine if_neg fun hc => hcert (length_eq_zero_iff.mp ?_)
        rw [← hc.2.1]
        exact hcleared hmok
      rw [hkept, content_of_cleared hmok]
      rfl
    | some mok =>
      have hcontent : node.content m = [m.slice mok node.mokSize] := by
        unfold content
        rw [if_pos htype, hmok]
      rw [hcontent]
      by_cases hmatch : m.slice mok node.mokSize = cert
      · have hsize : node.mokSize = cert.length := by rw [← hmatch, length_slice]
        have hcleared' : deleteCertInNode cert m node = { node with mok := none, mokSize := 0 } := by
          refine if_pos ⟨htype, hsize, ?_⟩
          rw [hmok, ← hsize]
          exact hmatch
        rw [hcleared', content_of_cleared rfl, hmatch]
        simp
      · have hkept : deleteCertInNode cert m node = node := by
          refine if_neg fun hc => hmatch ?_
          rw [hc.2.1, ← hc.2.2, hmok, length_slice]
          rfl
        rw [hkept, hcontent]
        simp [hmatch]
  · have hkept : deleteCertInNode cert m node = node := if_neg fun hc => htype hc.1
    rw [if_pos htype, hkept]

lemma deleteCert_spec (hcert : cert ≠ []) (h : KeyNodes mok.nodes) :
    KeyNodes (deleteCert cert mok).nodes ∧ (deleteCert cert mok).contents =
        mok.contents.map fun c => (c.1, strike c.1 c.2 (certTypeX509Guid, cert)) := by
  refine ⟨⟨h.sound.of_within ?_, ?_⟩, ?_⟩
  · exact forall₂_map_right_iff.mpr (forall₂_same.mpr fun node _ => deleteCertInNode_within _)
  · intro node' hnode'
    obtain ⟨node, hnode, rfl⟩ := mem_map.mp hnode'
    exact deleteCertInNode_wellFormed _ (h.wellFormed node hnode)
  · unfold MokList.contents deleteCert
    rw [map_map, map_map]
    apply map_congr_left
    intro node hnode
    simp only [Function.comp_apply, deleteCertInNode_type]
    rw [← deleteCertInNode_content mok.mem hcert (h.sound.cleared node hnode)]

lemma deleteHash_spec {type : Guid} {hash : List UInt8} (htype : type ≠ certTypeX509Guid)
    (hlen : hash.length = shaSize type) (h : KeyNodes mok.nodes) :
    KeyNodes (deleteHashInList type hash mok).nodes ∧ (deleteHashInList type hash mok).contents =
        mok.contents.map fun c => (c.1, strike c.1 c.2 (type, hash)) := by
  obtain ⟨hsound, hswept⟩ := deleteHashInList_spec type hash h.sound
  have hsize : sigSize hash = shaSize type + sizeofGuid := congrArg (· + sizeofGuid) hlen
  refine ⟨⟨hsound, fun node' hnode' => ?_⟩, ?_⟩
  · obtain ⟨node, hnode, hs⟩ := exists_left_of_mem hswept hnode'
    have hwell := h.wellFormed node hnode
    by_cases hother : node.type = type
    · have hdvd : shaSize node.type + sizeofGuid ∣ node.mokSize := hwell.dvd (hother ▸ htype)
      have hfilled : node'.mok = none ∧ node'.mokSize = 0 ∨ node'.Filled (sigSize hash) := by
        rcases hwell.nonempty with hnone | hpos
        · refine .inl ?_
          rcases hs.storage with rfl | ⟨hmok, hle⟩
          · exact ⟨rfl, rfl⟩
          · have hzero := h.sound.cleared node hnode hnone
            exact ⟨hmok.trans hnone, by omega⟩
        · rcases hs.filled ⟨hsize ▸ hother ▸ hdvd, hpos⟩ with hnone | hfilled
          · exact .inl ⟨hnone, hsound.cleared node' hnode' hnone⟩
          · exact .inr hfilled
      refine hwell.within hs.storage hs.type_eq ?_ fun _ => ?_
      · exact hfilled.imp And.left And.right
      · rcases hfilled with ⟨-, hzero⟩ | hfilled
        · rw [hzero]
          exact Nat.dvd_zero _
        · rw [hother, ← hsize]
          exact hfilled.1
    · rw [(hs.other hother).1]
      exact hwell
  · unfold MokList.contents
    rw [map_map]
    refine map_eq_of_forall₂ hswept fun node node' hs => ?_
    simp only [Function.comp_apply, hs.type_eq, Prod.mk.injEq, true_and]
    unfold strike
    by_cases hother : node.type = type
    · have hcert : ¬ node.type = certTypeX509Guid := hother ▸ htype
      have hcontent : ∀ (w : MokListNode) (m : Mem), w.type = node.type →
          w.content m = w.entries m (sigSize hash) := by
        intro w m hw
        unfold content
        rw [hw, if_neg hcert, hother, hsize]
      rw [if_neg (not_not.mpr hother), if_neg hcert, hcontent node' _ hs.type_eq,
        hcontent node _ rfl, hs.entries hother]
    · obtain ⟨rfl, hsame⟩ := hs.other hother
      rw [if_pos hother, content_congr hsame]

lemma contents_deleteKey (hkey : IsKey key) (h : KeyNodes mok.nodes) :
    KeyNodes (deleteKey mok key).nodes ∧
      (deleteKey mok key).contents = mok.contents.map fun c => (c.1, strike c.1 c.2 key) := by
  obtain ⟨type, data⟩ := key
  unfold deleteKey
  rcases hkey with ⟨rfl, hdata⟩ | ⟨htype, hlen⟩
  · rw [if_pos rfl]
    exact deleteCert_spec hdata h
  · rw [if_neg htype]
    exact deleteHash_spec htype hlen h

lemma contents_deleteEach (mok : MokList) (hkeys : ∀ key ∈ keys, IsKey key) (h : KeyNodes mok.nodes) :
    KeyNodes (keys.foldl deleteKey mok).nodes ∧ (keys.foldl deleteKey mok).contents =
        mok.contents.map fun c => (c.1, keys.foldl (strike c.1) c.2) := by
  induction keys generalizing mok with
  | nil => exact ⟨h, (map_id' _).symm⟩
  | cons key keys ih =>
    obtain ⟨hkey, hkeys⟩ := forall_mem_cons.mp hkeys
    obtain ⟨hnodes, hcontents⟩ := contents_deleteKey hkey h
    obtain ⟨hnodes', hcontents'⟩ := ih _ hkeys hnodes
    refine ⟨hnodes', ?_⟩
    rw [foldl_cons, hcontents', hcontents, map_map]
    rfl

end

/-! ## The keys of a request -/

section

variable {m : Mem} {mok : MokList} {node : MokListNode} {nodes : List MokListNode}

lemma deleteHashList_eq {pos : ℕ} (h : node.WellFormed) (hcert : node.type ≠ certTypeX509Guid)
    (hmok : node.mok = some pos) :
    deleteHashList node.type m pos node.mokSize mok = (node.keys m).foldl deleteKey mok := by
  have hpos : node.mokSize ≠ 0 := h.nonempty.resolve_left (hmok ▸ Option.some_ne_none _)
  have hle : ¬ node.mokSize < shaSize node.type + sizeofGuid :=
    not_lt.mpr (Nat.le_of_dvd (Nat.pos_of_ne_zero hpos) (h.dvd hcert))
  have hkeys : node.keys m = (List.range (node.mokSize / (shaSize node.type + sizeofGuid))).map
      fun i => (node.type, m.slice (pos + sizeofGuid + i * (shaSize node.type + sizeofGuid))
        (shaSize node.type)) := by
    unfold MokListNode.keys content entries slots nodeKey
    rw [if_neg hcert, hmok, map_map]
    apply map_congr_left
    intro i _
    simp only [Function.comp_apply, if_neg hcert, Prod.mk.injEq, true_and]
    rw [Nat.add_comm (shaSize node.type) sizeofGuid, slice_add,
      drop_left' (length_slice _ _ _), Nat.add_right_comm]
  unfold deleteHashList
  dsimp only
  rw [if_neg hle, hkeys, foldl_map]
  unfold deleteKey
  simp only [if_neg hcert]

lemma deleteNodes_eq (h : ∀ node ∈ nodes, node.WellFormed ∧ node.mok ≠ none) :
    deleteNodes ⟨m, nodes⟩ mok = (nodes.flatMap (·.keys m)).foldl deleteKey mok := by
  unfold deleteNodes
  induction nodes generalizing mok with
  | nil => rfl
  | cons node nodes ih =>
    obtain ⟨⟨hwell, hlive⟩, hnodes⟩ := forall_mem_cons.mp h
    obtain ⟨pos, hmok⟩ := Option.ne_none_iff_exists'.mp hlive
    have hnode : (if node.type = certTypeX509Guid then
          deleteCert (m.slice (node.mok.getD 0) node.mokSize) mok
        else if isSha2Hash node.type then
          deleteHashList node.type m (node.mok.getD 0) node.mokSize mok
        else mok) = (node.keys m).foldl deleteKey mok := by
      by_cases hcert : node.type = certTypeX509Guid
      · have hkeys : node.keys m = [(certTypeX509Guid, m.slice pos node.mokSize)] := by
          unfold MokListNode.keys content nodeKey
          simp only [if_pos hcert, hmok, map_singleton]
          rw [hcert]
        rw [if_pos hcert, hkeys, hmok]
        rfl
      · have hsha := (hwell.type.resolve_left hcert).1
        rw [if_neg hcert, if_pos hsha, hmok]
        exact deleteHashList_eq hwell hcert hmok
    rw [flatMap_cons, foldl_append, ← hnode]
    exact ih hnodes

lemma isKey_of_mem_keys {key : Guid × List UInt8} (h : node.WellFormed)
    (hkey : key ∈ node.keys m) : IsKey key := by
  unfold MokListNode.keys content at hkey
  by_cases hcert : node.type = certTypeX509Guid
  · rw [if_pos hcert] at hkey
    cases hmok : node.mok with
    | none =>
      rw [hmok] at hkey
      cases hkey
    | some pos =>
      have hpos : node.mokSize ≠ 0 := h.nonempty.resolve_left (hmok ▸ Option.some_ne_none _)
      rw [hmok, map_singleton, mem_singleton] at hkey
      unfold nodeKey at hkey
      rw [hkey, if_pos hcert]
      refine .inl ⟨hcert, fun hnil => hpos ?_⟩
      have := congrArg List.length hnil
      rwa [length_slice] at this
  · rw [if_neg hcert] at hkey
    obtain ⟨e, he, rfl⟩ := mem_map.mp hkey
    have hlen : e.length = shaSize node.type + sizeofGuid := by
      unfold entries at he
      cases hmok : node.mok with
      | none =>
        rw [hmok] at he
        cases he
      | some pos =>
        rw [hmok] at he
        obtain ⟨i, -, rfl⟩ := mem_map.mp he
        exact length_slice _ _ _
    unfold nodeKey
    rw [if_neg hcert]
    refine .inr ⟨hcert, ?_⟩
    show (e.drop sizeofGuid).length = shaSize node.type
    rw [length_drop, hlen, Nat.add_sub_cancel]

end

/-! ## From lists to lists -/

structure KeyLists (ls : List SignatureList) : Prop where
  lists : ∀ l ∈ ls, IsKeyList l
  size_lt : (encodeLists ls).length < 2 ^ 32

def keysOf (ls : List SignatureList) : List (Guid × List UInt8) := ls.flatMap listKeysOf

def listContent (l : SignatureList) : List (List UInt8) :=
  if l.type = certTypeX509Guid then (l.entries.head?.map fun e => e.drop sizeofGuid).toList
  else l.entries

def requestKeys (ls : List SignatureList) : List (Guid × List UInt8) :=
  ls.flatMap fun l => (listContent l).map (nodeKey l.type)

/-- What the code leaves of the old keys. -/
def leftKeys (old request : List SignatureList) : List (Guid × List UInt8) :=
  old.flatMap fun l =>
    ((requestKeys request).foldl (strike l.type) (listContent l)).map (nodeKey l.type)

section

variable {ls old request : List SignatureList} {env : PromptEnv} {mokX : Bool} {st : MokState}
  {v : Variable}

lemma KeyLists.length_type (h : KeyLists ls) : ∀ l ∈ ls, l.type.length = 16 :=
  fun l hl => (h.lists l hl).length_type

lemma KeyLists.holds (h : KeyLists ls) : (keyBuffer (encodeLists ls)).Holds ls :=
  holds_encodeLists h.length_type

lemma KeyLists.length_lt (h : KeyLists ls) : ls.length < 2 ^ 32 := by
  have := SigDb.HoldsFrom.length_le h.holds
  rw [Nat.zero_add] at this
  exact lt_of_le_of_lt this h.size_lt

lemma KeyLists.encodeLists_eq_nil (h : ∀ l ∈ ls, l.type.length = 16) :
    encodeLists ls = [] ↔ ls = [] := by
  cases ls with
  | nil => exact iff_of_true rfl rfl
  | cons l ls =>
    refine iff_of_false (fun hnil => ?_) (cons_ne_nil _ _)
    have hpos := l.size_pos
    have hlen := congrArg List.length hnil
    rw [encodeLists, flatMap_cons, length_append,
      SignatureList.length_encode (h l mem_cons_self), length_nil] at hlen
    omega

lemma KeyLists.countKeys (h : KeyLists ls) :
    (countKeys (keyBuffer (encodeLists ls))).value = ls.length :=
  countKeys_of_holds h.holds h.lists h.length_lt

def keyNodes (ls : List SignatureList) : List MokListNode :=
  (listOffsets 0 ls).map fun p => mokListNode (keyBuffer (encodeLists ls)) p.1

lemma KeyLists.buildMokList (h : KeyLists ls) :
    (buildMokList (keyBuffer (encodeLists ls)) true).value = some (keyNodes ls) :=
  buildMokList_of_holds h.holds h.lists (h.size_lt.trans (by decide))

lemma KeyLists.keyNodes (h : KeyLists ls) : KeyNodes (keyNodes ls) :=
  keyNodes_of_holds h.holds h.lists

lemma KeyLists.contents (h : KeyLists ls) :
    MokList.contents ⟨ofBytes (encodeLists ls), Mok.keyNodes ls⟩ =
      ls.map fun l => (l.type, listContent l) := by
  have hnode : ∀ p ∈ listOffsets 0 ls, ((mokListNode (keyBuffer (encodeLists ls)) p.1).type,
        (mokListNode (keyBuffer (encodeLists ls)) p.1).content (ofBytes (encodeLists ls))) =
      (p.2.type, listContent p.2) := by
    intro p hp
    have hholds := SigDb.HoldsFrom.holdsList h.holds hp
    have hkey : IsKeyList p.2 := by
      refine h.lists p.2 ?_
      rw [← listOffsets_map_snd 0 ls]
      exact mem_map_of_mem hp
    have htype : (mokListNode (keyBuffer (encodeLists ls)) p.1).type = p.2.type := by
      rw [mokListNode_of_holds hholds hkey.header]
      split_ifs <;> rfl
    rw [htype]
    exact congrArg (Prod.mk p.2.type) (content_mokListNode hholds hkey)
  unfold MokList.contents Mok.keyNodes
  rw [map_map, ← listOffsets_map_snd 0 ls, map_map, listOffsets_map_snd]
  exact map_congr_left hnode

lemma flatMap_keys (mok : MokList) : mok.nodes.flatMap (·.keys mok.mem) =
      mok.contents.flatMap fun c => c.2.map (nodeKey c.1) := by
  unfold MokList.contents MokListNode.keys
  rw [flatMap_map]

lemma KeyLists.requestKeys_eq (h : KeyLists ls) :
    (Mok.keyNodes ls).flatMap (·.keys (ofBytes (encodeLists ls))) = requestKeys ls := by
  rw [flatMap_keys ⟨ofBytes (encodeLists ls), Mok.keyNodes ls⟩, h.contents, flatMap_map]
  rfl

lemma deleteNodes_of_lists (hold : KeyLists old) (hrequest : KeyLists request) :
    let r := deleteNodes ⟨ofBytes (encodeLists request), Mok.keyNodes request⟩
      ⟨ofBytes (encodeLists old), Mok.keyNodes old⟩
    KeyNodes r.nodes ∧ r.nodes.flatMap (·.keys r.mem) = leftKeys old request := by
  have hlive : ∀ node ∈ Mok.keyNodes request, node.WellFormed ∧ node.mok ≠ none := by
    intro node hnode
    refine ⟨hrequest.keyNodes.wellFormed node hnode, ?_⟩
    obtain ⟨p, -, rfl⟩ := mem_map.mp hnode
    exact mok_mokListNode
  have hkeys : ∀ key ∈ requestKeys request, IsKey key := by
    intro key hkey
    rw [← hrequest.requestKeys_eq] at hkey
    obtain ⟨node, hnode, hkey⟩ := mem_flatMap.mp hkey
    exact isKey_of_mem_keys (hlive node hnode).1 hkey
  have hspec := contents_deleteEach ⟨ofBytes (encodeLists old), Mok.keyNodes old⟩ hkeys
    hold.keyNodes
  intro r
  have hr : r = (requestKeys request).foldl deleteKey
      ⟨ofBytes (encodeLists old), Mok.keyNodes old⟩ := by
    rw [← hrequest.requestKeys_eq]
    exact deleteNodes_eq hlive
  rw [flatMap_keys, hr]
  refine ⟨hspec.1, ?_⟩
  rw [hspec.2, hold.contents, map_map, flatMap_map]
  rfl

/-- The variable and the request are lists of keys. -/
structure Deletion (vars : MokVar → Option Variable) (mokX : Bool) (v : Variable)
    (old request : List SignatureList) : Prop where
  oldKeys : KeyLists old
  old_ne : old ≠ []
  requestKeys : KeyLists request
  request_ne : request ≠ []
  stored : vars (dbName mokX) = some v
  data : v.data = encodeLists old

/-- Nothing fails before the write. -/
structure Proceeds (env : PromptEnv) (v : Variable) : Prop where
  read : env.services.readDb = none
  runtime : v.attributes &&& runtimeAccess = 0
  alloc : env.allocNodes = true

lemma Deletion.data_ne_nil {vars : MokVar → Option Variable}
    (h : Deletion vars mokX v old request) : v.data ≠ [] := by
  rw [h.data]
  exact fun hnil => h.old_ne ((KeyLists.encodeLists_eq_nil h.oldKeys.length_type).mp hnil)

lemma deleteAuthenticated_eq_writeBack (h : Deletion st.vars mokX v old request)
    (hworks : Proceeds env v) : deleteAuthenticated env (encodeLists request) mokX st =
      writeBackMokList env (deleteNodes ⟨ofBytes (encodeLists request), Mok.keyNodes request⟩
        ⟨ofBytes (encodeLists old), Mok.keyNodes old⟩) mokX st := by
  have hsome : getVariable env.services.readDb (st.vars (dbName mokX)) = .ok v := by
    unfold getVariable
    rw [hworks.read, h.stored]
    dsimp only
    rw [if_neg h.data_ne_nil]
  have hcount : ∀ {ls : List SignatureList}, KeyLists ls → ls ≠ [] →
      ¬ (Mok.countKeys (keyBuffer (encodeLists ls))).value = 0 := by
    intro ls hls hne
    rw [hls.countKeys]
    exact fun hzero => hne (length_eq_zero_iff.mp hzero)
  unfold deleteAuthenticated
  rw [hsome]
  dsimp only
  rw [if_neg (not_not.mpr hworks.runtime), if_neg h.data_ne_nil, h.data,
    if_neg (hcount h.oldKeys h.old_ne), hworks.alloc, h.oldKeys.buildMokList]
  dsimp only
  rw [if_neg (hcount h.requestKeys h.request_ne), h.requestKeys.buildMokList]

lemma keysOf_eq_nil_iff {ls : List SignatureList} (hls : ∀ l ∈ ls, l.entries ≠ []) :
    keysOf ls = [] ↔ ls = [] := by
  cases ls with
  | nil => exact iff_of_true rfl rfl
  | cons l ls =>
    refine iff_of_false (fun hnil => ?_) (cons_ne_nil l ls)
    rw [keysOf, flatMap_cons, append_eq_nil_iff] at hnil
    exact hls l mem_cons_self (map_eq_nil_iff.mp hnil.1)

lemma deleteAuthenticated_of_lists (h : Deletion st.vars mokX v old request)
    (hworks : Proceeds env v) :
    ∃ ls : List SignatureList, (∀ l ∈ ls, l.type.length = 16) ∧
      (ls = [] ↔ leftKeys old request = []) ∧ keysOf ls = leftKeys old request ∧
      deleteAuthenticated env (encodeLists request) mokX st = if ls = [] then
          (.success, (rtSetVariable env.services.setDb (dbName mokX) ⟨[], uefiVarNvBs⟩ st).2)
        else if env.allocData = false then (.outOfResources, st)
        else rtSetVariable env.services.setDb (dbName mokX) ⟨encodeLists ls, uefiVarNvBs⟩ st := by
  rw [deleteAuthenticated_eq_writeBack h hworks]
  obtain ⟨hnodes, hkeys⟩ := deleteNodes_of_lists h.oldKeys h.requestKeys
  generalize deleteNodes ⟨ofBytes (encodeLists request), Mok.keyNodes request⟩
    ⟨ofBytes (encodeLists old), Mok.keyNodes old⟩ = r at hnodes hkeys ⊢
  obtain ⟨m, nodes⟩ := r
  obtain ⟨ls, hls, hlsKeys, hsize, hwritten⟩ := writeBackData_spec env.fresh m hnodes.wellFormed
  have htypes : ∀ l ∈ ls, l.type.length = 16 := fun l hl => (hls l hl).1
  have hempty : (encodeLists ls).length = 0 ↔ ls = [] :=
    length_eq_zero_iff.trans (KeyLists.encodeLists_eq_nil htypes)
  have hleft : keysOf ls = leftKeys old request := hlsKeys.trans hkeys
  refine ⟨ls, htypes, ?_, hleft, ?_⟩
  · rw [← hleft]
    exact (keysOf_eq_nil_iff fun l hl => (hls l hl).2).symm
  · unfold writeBackMokList
    dsimp only
    rw [hsize, hwritten]
    by_cases hnil : ls = []
    · rw [if_pos hnil, if_pos (hempty.mpr hnil)]
    · rw [if_neg hnil, if_neg fun hzero => hnil (hempty.mp hzero)]

lemma Deletion.proceeds (hdel : Deletion st.vars mokX v old request)
    (h : (deleteAuthenticated env (encodeLists request) mokX st).1 = .success) : Proceeds env v := by
  have hne := hdel.data_ne_nil
  unfold deleteAuthenticated getVariable at h
  rw [hdel.stored] at h
  cases hread : env.services.readDb with
  | some status =>
    rw [hread] at h
    cases h
  | none =>
    rw [hread] at h
    dsimp only at h
    rw [if_neg hne] at h
    dsimp only at h
    by_cases hruntime : v.attributes &&& runtimeAccess = 0
    · rw [if_neg (not_not.mpr hruntime), if_neg hne] at h
      by_cases hcount : (Mok.countKeys (keyBuffer v.data)).value = 0
      · rw [if_pos hcount] at h
        cases h
      rw [if_neg hcount] at h
      refine ⟨hread, hruntime, ?_⟩
      by_contra halloc
      rw [Bool.not_eq_true] at halloc
      rw [halloc] at h
      cases h
    · rw [if_pos hruntime] at h
      cases h

end

/-! ## What is in the variable -/

def storedKeys : Option Variable → List (Guid × List UInt8)
  | none => []
  | some v => (keyBuffer v.data).signatures.map fun s => (s.1, s.2.drop sizeofGuid)

section

variable {ls old request : List SignatureList} {env : PromptEnv} {mokX : Bool} {st : MokState}
  {v : Variable} {name : MokVar}

lemma storedKeys_encodeLists (h : ∀ l ∈ ls, l.type.length = 16) (attributes : ℕ) :
    storedKeys (some ⟨encodeLists ls, attributes⟩) = keysOf ls := by
  have hholds : (keyBuffer (encodeLists ls)).Holds ls := holds_encodeLists h
  unfold storedKeys keysOf
  dsimp only
  rw [SigDb.signatures_of_holds hholds, map_flatMap]
  congr 1
  funext l
  unfold SignatureList.signatures listKeysOf
  rw [map_map]
  rfl

lemma rtSetVariable_write {new : Variable} (hnew : new.data ≠ []) :
    (rtSetVariable none name new st).1 = .success ∧
      (rtSetVariable none name new st).2.vars name = some new := by
  unfold rtSetVariable
  dsimp only
  rw [if_neg fun h => hnew h.1, if_neg hnew]
  by_cases hsame : some new = st.vars name
  · rw [if_pos hsame]
    exact ⟨rfl, hsame.symm⟩
  · rw [if_neg hsame]
    exact ⟨rfl, Function.update_self _ _ _⟩

lemma rtSetVariable_delete {attributes : ℕ} (hv : st.vars name = some v) :
    (rtSetVariable none name ⟨[], attributes⟩ st).2.vars name = none := by
  unfold rtSetVariable
  dsimp only
  rw [if_neg (by rw [hv]; exact fun h => Option.some_ne_none _ h.2), if_pos rfl, if_neg (by
    rw [hv]
    exact (Option.some_ne_none _).symm)]
  exact Function.update_self _ _ _

lemma storedKeys_of_success (hdel : Deletion st.vars mokX v old request)
    (hset : env.services.setDb ≠ some .success)
    (h : (deleteAuthenticated env (encodeLists request) mokX st).1 = .success) :
    let db := (deleteAuthenticated env (encodeLists request) mokX st).2.vars (dbName mokX)
    storedKeys db = leftKeys old request ∨
      leftKeys old request = [] ∧ env.services.setDb ≠ none ∧ db = some v := by
  obtain ⟨ls, htypes, hnil, hkeys, hcall⟩ := deleteAuthenticated_of_lists hdel (hdel.proceeds h)
  rw [hcall] at h ⊢
  by_cases hempty : ls = []
  · have hleft := hnil.mp hempty
    simp only [if_pos hempty]
    cases hdb : env.services.setDb with
    | some status => exact .inr ⟨hleft, Option.some_ne_none _, hdel.stored⟩
    | none =>
      refine .inl ?_
      rw [rtSetVariable_delete hdel.stored, hleft]
      rfl
  · rw [if_neg hempty] at h ⊢
    by_cases hroom : env.allocData = false
    · rw [if_pos hroom] at h
      cases h
    rw [if_neg hroom] at h ⊢
    cases hdb : env.services.setDb with
    | some status =>
      rw [hdb] at h
      exact absurd (hdb.trans (congrArg some h)) hset
    | none =>
      have hwrite : (encodeLists ls) ≠ [] :=
        fun hnil' => hempty ((KeyLists.encodeLists_eq_nil htypes).mp hnil')
      refine .inl ?_
      rw [(rtSetVariable_write hwrite).2, storedKeys_encodeLists htypes, hkeys]

/-- On a machine where everything works but maybe the write, the call succeeds if the write does or
nothing is left. -/
theorem deleteAuthenticated_success (h : Deletion st.vars mokX v old request)
    (hworks : Proceeds env v) (hroom : env.allocData = true)
    (hset : env.services.setDb = none ∨ leftKeys old request = []) :
    (deleteAuthenticated env (encodeLists request) mokX st).1 = .success := by
  obtain ⟨ls, htypes, hnil, -, hcall⟩ := deleteAuthenticated_of_lists h hworks
  rw [hcall]
  by_cases hempty : ls = []
  · rw [if_pos hempty]
  · rw [if_neg hempty, if_neg (by rw [hroom]; decide), hset.resolve_right fun h => hempty (hnil.mpr h)]
    exact (rtSetVariable_write fun hnil' =>
      hempty ((KeyLists.encodeLists_eq_nil htypes).mp hnil')).1

end

end Shim.Mok
