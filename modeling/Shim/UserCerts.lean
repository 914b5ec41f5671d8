import Shim.Lib.PrefixCode
import Shim.TrustFiles

/-!
# The certificates that have been loaded

`load_cert_file` appends the signature lists of every `.db` section to a buffer that all its calls
share. The pointer and the size of the buffer are two globals, and the size is stored first: a list
that then finds no memory leaves a size that the buffer does not have.
-/

namespace Shim

open Lib Pe Verify Sbat List Run Mem UserCertPointer

def IsSignatureList (w : List UInt8) : Prop :=
  sizeofSignatureList ≤ w.length ∧ (ofBytes w).u32 16 = w.length

lemma u32_ofBytes_slice (m : Mem) (p : ℕ) {n : ℕ} (h : 20 ≤ n) :
    (ofBytes (m.slice p n)).u32 16 = m.u32 (p + 16) := by
  have hbyte : ∀ k < n, ofBytes (m.slice p n) k = m (p + k) := by
    intro k hk
    rw [ofBytes_of_lt (by rwa [length_slice]), getElem_slice]
  simp only [u32, Mem.load, hbyte 16 (by omega), hbyte (16 + 1) (by omega),
    hbyte (16 + 1 + 1) (by omega), hbyte (16 + 1 + 1 + 1) (by omega), Nat.add_assoc]

lemma starts_slice {m : Mem} {p n : ℕ} {w : List UInt8} (h : w <+: m.slice p n) :
    w.length ≤ n ∧ w = m.slice p w.length := by
  have hle : w.length ≤ n := by simpa using h.length_le
  refine ⟨hle, ?_⟩
  rw [prefix_iff_eq_take.mp h]
  obtain ⟨k, rfl⟩ := Nat.exists_eq_add_of_le hle
  simp [slice_add]

lemma starts_slice_iff {m : Mem} {p n : ℕ} {w : List UInt8} :
    (IsSignatureList w ∧ w <+: m.slice p n) ↔
      sizeofSignatureList ≤ m.u32 (p + 16) ∧ m.u32 (p + 16) ≤ n ∧
        w = m.slice p (m.u32 (p + 16)) := by
  have h28 : sizeofSignatureList = 28 := rfl
  constructor
  · rintro ⟨⟨hmin, hsize⟩, hstarts⟩
    obtain ⟨hle, heq⟩ := starts_slice hstarts
    have hu32 : m.u32 (p + 16) = w.length := by
      rw [← u32_ofBytes_slice m p (by omega : 20 ≤ w.length), ← heq, hsize]
    rw [hu32]
    exact ⟨hmin, hle, heq⟩
  · rintro ⟨hmin, hle, rfl⟩
    refine ⟨⟨by rwa [length_slice], ?_⟩, ?_⟩
    · rw [u32_ofBytes_slice m p (by omega), length_slice]
    · obtain ⟨k, hk⟩ := Nat.exists_eq_add_of_le hle
      rw [hk, slice_add]
      exact prefix_append _ _

lemma isSignatureList_isPrefixCode : IsPrefixCode IsSignatureList where
  ne_nil := by
    rintro w ⟨hmin, -⟩ rfl
    simp [sizeofSignatureList] at hmin
  eq_of_starts := by
    intro v w hv hw hvw
    have hself : w = (ofBytes w).slice 0 w.length := (slice_ofBytes_self w).symm
    obtain ⟨-, -, hv⟩ := starts_slice_iff.mp ⟨hv, by rwa [← hself]⟩
    obtain ⟨-, -, hw⟩ := starts_slice_iff.mp ⟨hw, by rw [← hself]⟩
    exact hv.trans hw.symm

def Pe.File.dbBytes (f : File) (s : SectionHeader) : List UInt8 :=
  f.mem.slice s.pointerToRawData (min s.virtualSize s.sizeOfRawData)

noncomputable def Pe.File.dbLists (f : File) (s : SectionHeader) : List (List UInt8) :=
  words IsSignatureList (f.dbBytes s)

/-! ## What is done with the lists -/

def addList (alloc : ℕ → Bool) (user : UserCert) (w : List UInt8) :
    Except (UserCert × CertStop) UserCert :=
  let size := user.size + w.length
  if user.pointer = .freed then .error ({ user with size := size }, .useAfterFree)
  else if alloc size = false then .error (⟨size, user.pointer.release⟩, .outOfResources)
  else .ok ⟨size, .live (user.pointer.kept user.size ++ w)⟩

def addLists (alloc : ℕ → Bool) (user : UserCert) :
    List (List UInt8) → Except (UserCert × CertStop) UserCert
  | [] => .ok user
  | w :: ws =>
    if 2 ^ 32 ≤ user.size + w.length then
      .ok { user with size := addW 32 user.size w.length }
    else do
      let user ← addList alloc user w
      addLists alloc user ws

section

variable {alloc : ℕ → Bool} {f : File} {c : Context} {row secSize i : ℕ} {user : UserCert}

lemma appendCerts_out (pointer listSize : ℕ) : (appendCerts alloc f pointer listSize user).out =
      addList alloc user (f.mem.slice pointer listSize) := by
  unfold appendCerts addList
  simp only [length_slice]
  split_ifs
  · rfl
  · rfl
  · rfl

lemma dbRound_out {o p : ℕ} (ho : o ≤ secSize)
    (hraw : secSize ≠ 0 → (sectionAt f.mem row).pointerToRawData + secSize ≤ f.datasize)
    (hp : (sectionAt f.mem row).pointerToRawData + o = p) :
    (dbRound alloc f row secSize (o, user)).out =
      if sizeofSignatureList ≤ f.mem.u32 (p + 16) ∧ f.mem.u32 (p + 16) ≤ secSize - o then
        if 2 ^ 32 ≤ user.size + f.mem.u32 (p + 16) then
          .ok (.inr { user with size := addW 32 user.size (f.mem.u32 (p + 16)) })
        else (addList alloc user (f.mem.slice p (f.mem.u32 (p + 16)))).map fun user =>
          .inl (o + f.mem.u32 (p + 16), user)
      else .ok (.inr user) := by
  have hdata := f.datasize_lt
  have h28 : sizeofSignatureList = 28 := rfl
  unfold dbRound
  by_cases hzero : secSize = 0
  · rw [if_pos (by rw [subW_of_le (by omega) ho]; omega), if_neg (by omega)]
    rfl
  have hfits := hraw hzero
  rw [subW_of_le (by omega) ho]
  by_cases hroom : secSize - o < sizeofSignatureList
  · rw [if_pos hroom, if_neg (by omega)]
    rfl
  rw [if_neg hroom]
  simp only [out_bind, out_emit, ok_bind]
  rw [addW_of_lt (by omega), hp, if_neg (imageAddress_file_ne_zero (by omega))]
  simp only [out_bind, out_emit, ok_bind]
  by_cases hlist : sizeofSignatureList ≤ f.mem.u32 (p + 16) ∧ f.mem.u32 (p + 16) ≤ secSize - o
  · rw [if_pos hlist, if_neg (by omega)]
    split_ifs with hwrap
    · rfl
    · rw [out_bind, appendCerts_out]
      rfl
  · rw [if_neg hlist, if_pos (by omega)]
    rfl

lemma dbLoop_out {o n : ℕ} (ho : o ≤ secSize) (hn : secSize - o < n)
    (hraw : secSize ≠ 0 → (sectionAt f.mem row).pointerToRawData + secSize ≤ f.datasize) :
    (Run.loop (dbRound alloc f row secSize) n (o, user)).out =
      (addLists alloc user (words IsSignatureList
        (f.mem.slice ((sectionAt f.mem row).pointerToRawData + o) (secSize - o)))).map some := by
  induction n generalizing o user with
  | zero => omega
  | succ n ih =>
    rw [loop_succ_out, dbRound_out ho hraw rfl]
    set p := (sectionAt f.mem row).pointerToRawData + o with hp
    by_cases hlist : sizeofSignatureList ≤ f.mem.u32 (p + 16) ∧ f.mem.u32 (p + 16) ≤ secSize - o
    · rw [if_pos hlist]
      have hpos : 0 < f.mem.u32 (p + 16) := lt_of_lt_of_le (by decide) hlist.1
      obtain ⟨hword, -⟩ := starts_slice_iff.mpr ⟨hlist.1, hlist.2, rfl⟩
      have hsplit : f.mem.slice p (secSize - o) = f.mem.slice p (f.mem.u32 (p + 16)) ++
          f.mem.slice (p + f.mem.u32 (p + 16)) (secSize - (o + f.mem.u32 (p + 16))) := by
        rw [← slice_add]
        congr 1
        omega
      rw [hsplit, words_append isSignatureList_isPrefixCode hword, addLists, length_slice]
      split_ifs with hwrap
      · rfl
      cases haddList : addList alloc user (f.mem.slice p (f.mem.u32 (p + 16))) with
      | error e => rfl
      | ok u =>
        have hnext := @ih u (o + f.mem.u32 (p + 16)) (by omega) (by omega)
        rw [← Nat.add_assoc, ← hp] at hnext
        exact hnext
    · rw [if_neg hlist, words_eq_nil isSignatureList_isPrefixCode]
      · rfl
      · intro w hw hstarts
        obtain ⟨hmin, hle, -⟩ := starts_slice_iff.mp ⟨hw, hstarts⟩
        exact hlist ⟨hmin, hle⟩

lemma certStep_out (hraw : (f.row c i).sizeOfRawData ≠ 0 →
      (f.row c i).pointerToRawData + (f.row c i).sizeOfRawData ≤ f.datasize) :
    (certStep alloc f c user i).out =
      if (f.row c i).name = dbName then addLists alloc user (f.dbLists (f.row c i))
      else .ok user := by
  unfold certStep
  simp only [out_bind, out_emit, ok_bind]
  by_cases hname : (f.row c i).name = dbName
  · rw [if_neg (not_not.mpr hname), if_pos hname, out_bind,
      dbLoop_out (Nat.zero_le _) (by omega)]
    · show (addLists alloc user (f.dbLists (f.row c i))).map some >>= _ = _
      cases addLists alloc user (f.dbLists (f.row c i)) with
      | error e => rfl
      | ok u => rfl
    · intro hne
      have hle : min (f.row c i).virtualSize (f.row c i).sizeOfRawData ≤
        (f.row c i).sizeOfRawData := Nat.min_le_right _ _
      have hfits := hraw (by omega)
      show (f.row c i).pointerToRawData + _ ≤ _
      omega
  · rw [if_pos hname, if_neg hname]
    rfl

lemma certSteps_out {l : List ℕ} (hraw : ∀ i ∈ l, (f.row c i).sizeOfRawData ≠ 0 →
      (f.row c i).pointerToRawData + (f.row c i).sizeOfRawData ≤ f.datasize) :
    (l.foldlM (certStep alloc f c) user).out =
      (((l.map (f.row c)).filter fun s => s.name = dbName).map f.dbLists).foldlM
        (addLists alloc) user := by
  induction l generalizing user with
  | nil => rfl
  | cons i l ih =>
    rw [foldlM_cons, out_bind, certStep_out (hraw i mem_cons_self), map_cons]
    have hrest := fun u : UserCert => @ih u fun j hj => hraw j (mem_cons_of_mem _ hj)
    by_cases hname : (f.row c i).name = dbName
    · rw [if_pos hname, filter_cons_of_pos (by simpa using hname), map_cons,
        foldlM_cons]
      simp only [hrest]
    · rw [if_neg hname, filter_cons_of_neg (by simpa using hname), ok_bind, hrest]

end

/-- One call of `load_cert_file`: the file, unless it cannot be read, the memory, and all else that
decides whether the file is verified. -/
structure CertCall where
  env : HandleEnv
  /-- For which sizes there is memory. -/
  alloc : ℕ → Bool
  file : Option File

def userAfter : Except (UserCert × CertStop) UserCert → UserCert
  | .ok user => user
  | .error (user, _) => user

def CertCall.after (call : CertCall) (user : UserCert) : UserCert :=
  match call.file with
  | none => user
  | some f => userAfter (loadCertFile call.env call.alloc f user).out

noncomputable def CertCall.lists (call : CertCall) : List (List (List UInt8)) :=
  match call.file with
  | none => []
  | some f =>
    match verifyImage call.env f with
    | .ok c => ((f.sections c).filter fun s => s.name = dbName).map f.dbLists
    | .error _ => []

lemma CertCall.after_eq (call : CertCall) (user : UserCert) :
    call.after user = userAfter (call.lists.foldlM (addLists call.alloc) user) := by
  unfold CertCall.after CertCall.lists
  cases call.file with
  | none => rfl
  | some f =>
    simp only
    unfold loadCertFile
    rw [out_bind, out_lift]
    cases hverify : verifyImage call.env f with
    | error e => rfl
    | ok c =>
      obtain ⟨hread, r, input, hhash⟩ := verifyImage_ok hverify
      obtain ⟨-, hhashed⟩ := generateHash_ok hread hhash
      simp only [Except.mapError, ok_bind]
      rw [certSteps_out fun i hi => hhashed.raw_le _ (mem_map_of_mem hi)]
      rfl

/-! ## Pointer and size -/

structure UserCert.Paired (user : UserCert) : Prop where
  size_lt : user.size < 2 ^ 32
  pair : (user.pointer = .null ∧ user.size = 0) ∨
    ∃ data, user.pointer = .live data ∧ data.length = user.size

def Room (alloc : ℕ → Bool) (size : ℕ) (ws : List (List UInt8)) : Prop :=
  ∀ n < ws.length, size + (ws.take (n + 1)).flatten.length < 2 ^ 32 ∧
    alloc (size + (ws.take (n + 1)).flatten.length) = true

section

variable {alloc : ℕ → Bool} {user u : UserCert} {w : List UInt8} {ws : List (List UInt8)}
  {wss : List (List (List UInt8))}

section

variable (h : user.Paired)
include h

lemma UserCert.Paired.length_data : user.pointer.data.length = user.size := by
  rcases h.pair with ⟨hnull, hzero⟩ | ⟨data, hlive, hlength⟩
  · rw [hnull, hzero]
    rfl
  · rw [hlive]
    exact hlength

lemma UserCert.Paired.ne_freed : user.pointer ≠ .freed := by
  rcases h.pair with ⟨hnull, -⟩ | ⟨data, hlive, -⟩
  · rw [hnull]
    decide
  · rw [hlive]
    exact fun h => nomatch h

lemma UserCert.Paired.kept : user.pointer.kept user.size = user.pointer.data := by
  rw [UserCertPointer.kept, ← h.length_data, take_length, Nat.sub_self, replicate_zero,
    append_nil]

lemma addList_of_paired (halloc : alloc (user.size + w.length) = true) :
    addList alloc user w = .ok ⟨user.size + w.length, .live (user.pointer.data ++ w)⟩ := by
  unfold addList
  rw [if_neg h.ne_freed, if_neg (by simp [halloc]), h.kept]

lemma UserCert.Paired.append (hlt : user.size + w.length < 2 ^ 32) :
    (UserCert.mk (user.size + w.length) (.live (user.pointer.data ++ w))).Paired where
  size_lt := hlt
  pair := .inr ⟨_, rfl, by rw [length_append, h.length_data]⟩

lemma addList_unpaired (halloc : alloc (user.size + w.length) = false)
    (hw : w ≠ []) : ∃ e, addList alloc user w = .error e ∧ ¬ e.1.Paired := by
  unfold addList
  rw [if_neg h.ne_freed, if_pos halloc]
  refine ⟨_, rfl, fun hpaired => ?_⟩
  have hpos := length_pos_iff.mpr hw
  rcases hpaired.pair with ⟨-, hzero⟩ | ⟨data, hlive, -⟩
  · simp only at hzero
    omega
  cases hp : user.pointer with
  | null => simp [hp, release] at hlive
  | live data => simp [hp, release] at hlive
  | freed => simp [hp, release] at hlive

end

lemma addList_size (h : addList alloc user w = .ok u) : u.size = user.size + w.length := by
  unfold addList at h
  simp only at h
  split_ifs at h
  cases h
  rfl

lemma room_nil {size : ℕ} : Room alloc size [] := fun _ hn => absurd hn (Nat.not_lt_zero _)

lemma room_cons {size : ℕ} :
    Room alloc size (w :: ws) ↔ size + w.length < 2 ^ 32 ∧ alloc (size + w.length) = true ∧
      Room alloc (size + w.length) ws := by
  unfold Room
  constructor
  · intro h
    have hfirst := h 0 (Nat.zero_lt_succ _)
    simp only [Nat.zero_add, take_succ_cons, take_zero, flatten_cons,
      flatten_nil, append_nil] at hfirst
    refine ⟨hfirst.1, hfirst.2, fun n hn => ?_⟩
    have hnext := h (n + 1) (Nat.succ_lt_succ hn)
    rwa [take_succ_cons, flatten_cons, length_append, ← Nat.add_assoc] at hnext
  · rintro ⟨hlt, halloc, hrest⟩ n hn
    rw [take_succ_cons, flatten_cons, length_append, ← Nat.add_assoc]
    cases n with
    | zero => simpa using ⟨hlt, halloc⟩
    | succ n => exact hrest n (Nat.lt_of_succ_lt_succ hn)

lemma Room.total_lt {size : ℕ} (hsize : size < 2 ^ 32) (h : Room alloc size ws) :
    size + ws.flatten.length < 2 ^ 32 := by
  induction ws generalizing size with
  | nil => simpa using hsize
  | cons w ws ih =>
    obtain ⟨hlt, -, hrest⟩ := room_cons.mp h
    have htotal := ih hlt hrest
    rw [flatten_cons, length_append]
    omega

lemma addLists_eq (h : user.size + ws.flatten.length < 2 ^ 32) :
    addLists alloc user ws = ws.foldlM (addList alloc) user := by
  induction ws generalizing user with
  | nil => rfl
  | cons w ws ih =>
    rw [flatten_cons, length_append] at h
    rw [addLists, if_neg (by omega), foldlM_cons]
    cases hadd : addList alloc user w with
    | error e => rfl
    | ok u =>
      have hsize := addList_size hadd
      exact ih (by omega)

lemma foldlM_addList_size (h : ws.foldlM (addList alloc) user = .ok u) :
    u.size = user.size + ws.flatten.length := by
  induction ws generalizing user with
  | nil =>
    cases h
    simp
  | cons w ws ih =>
    rw [foldlM_cons] at h
    obtain ⟨v, hv, h⟩ := bind_eq_ok.mp h
    rw [ih h, addList_size hv, flatten_cons, length_append, Nat.add_assoc]

lemma foldlM_addLists_eq (h : user.size + wss.flatten.flatten.length < 2 ^ 32) :
    wss.foldlM (addLists alloc) user = wss.flatten.foldlM (addList alloc) user := by
  induction wss generalizing user with
  | nil => rfl
  | cons ws wss ih =>
    rw [flatten_cons, flatten_append, length_append] at h
    rw [foldlM_cons, flatten_cons, foldlM_append, addLists_eq (by omega)]
    cases hadd : ws.foldlM (addList alloc) user with
    | error e => rfl
    | ok u =>
      have hsize := foldlM_addList_size hadd
      exact ih (by omega)

lemma foldlM_addList_of_room (hpaired : user.Paired) (h : Room alloc user.size ws) :
    ∃ u, ws.foldlM (addList alloc) user = .ok u ∧ u.Paired ∧
      u.pointer.data = user.pointer.data ++ ws.flatten := by
  induction ws generalizing user with
  | nil => exact ⟨user, rfl, hpaired, by simp⟩
  | cons w ws ih =>
    obtain ⟨hlt, halloc, hrest⟩ := room_cons.mp h
    obtain ⟨u, hu, hpaired', hdata⟩ := ih (hpaired.append hlt) hrest
    refine ⟨u, ?_, hpaired', ?_⟩
    · rw [foldlM_cons, addList_of_paired hpaired halloc]
      exact hu
    · rw [hdata, flatten_cons, ← append_assoc]
      rfl

lemma foldlM_addList_unpaired (hpaired : user.Paired) (hws : ∀ w ∈ ws, w ≠ [])
    (htotal : user.size + ws.flatten.length < 2 ^ 32) (h : ¬ Room alloc user.size ws) :
    ¬ (userAfter (ws.foldlM (addList alloc) user)).Paired := by
  induction ws generalizing user with
  | nil => exact absurd room_nil h
  | cons w ws ih =>
    rw [flatten_cons, length_append] at htotal
    have hlt : user.size + w.length < 2 ^ 32 := by omega
    rw [foldlM_cons]
    cases halloc : alloc (user.size + w.length) with
    | false =>
      obtain ⟨e, he, hunpaired⟩ := addList_unpaired hpaired halloc (hws w mem_cons_self)
      rw [he]
      exact hunpaired
    | true =>
      rw [addList_of_paired hpaired halloc]
      refine ih (hpaired.append hlt) (fun v hv => hws v (mem_cons_of_mem _ hv)) ?_ ?_
      · show user.size + w.length + ws.flatten.length < 2 ^ 32
        omega
      · exact fun hroom => h (room_cons.mpr ⟨hlt, halloc, hroom⟩)

end

/-- What a call should leave behind: a buffer, or `NULL`, with the previous content and the lists of
every `.db` section in order. -/
def CertCall.Appends (call : CertCall) (user user' : UserCert) : Prop :=
  user'.Paired ∧ user'.pointer.data = user.pointer.data ++ call.lists.flatten.flatten

def AppendsAlong : List CertCall → UserCert → Prop
  | [], _ => True
  | call :: calls, user =>
    call.Appends user (call.after user) ∧ AppendsAlong calls (call.after user)

/-- Every call of a sequence finds the memory that it asks for, from a buffer of `size` bytes on. -/
def RoomAlong : List CertCall → ℕ → Prop
  | [], _ => True
  | call :: calls, size =>
    Room call.alloc size call.lists.flatten ∧
      RoomAlong calls (size + call.lists.flatten.flatten.length)

section

variable {call : CertCall} {user : UserCert}

lemma CertCall.lists_ne_nil {w : List UInt8} (h : w ∈ call.lists.flatten) : w ≠ [] := by
  obtain ⟨ws, hws, hw⟩ := mem_flatten.mp h
  have hcode := isSignatureList_isPrefixCode
  unfold CertCall.lists at hws
  split at hws
  · cases hws
  case h_2 f _ =>
    split at hws
    · obtain ⟨s, -, rfl⟩ := mem_map.mp hws
      exact hcode.ne_nil ((words_isMaximal hcode (f.dbBytes s)).words w hw)
    · cases hws

lemma CertCall.Appends.size_eq (hpaired : user.Paired) (h : call.Appends user (call.after user)) :
    (call.after user).size = user.size + call.lists.flatten.flatten.length := by
  rw [← h.1.length_data, h.2, length_append, hpaired.length_data]

lemma CertCall.appends_iff (hpaired : user.Paired) :
    call.Appends user (call.after user) ↔ Room call.alloc user.size call.lists.flatten := by
  by_cases htotal : user.size + call.lists.flatten.flatten.length < 2 ^ 32
  · unfold CertCall.Appends
    rw [CertCall.after_eq, foldlM_addLists_eq htotal]
    constructor
    · rintro ⟨hafter, -⟩
      by_contra hroom
      exact foldlM_addList_unpaired hpaired (fun w hw => call.lists_ne_nil hw) htotal hroom hafter
    · intro hroom
      obtain ⟨u, hu, hu'⟩ := foldlM_addList_of_room hpaired hroom
      rw [hu]
      exact hu'
  · refine iff_of_false (fun h => ?_) fun h => htotal (h.total_lt hpaired.size_lt)
    have hsize := h.size_eq hpaired
    have hlt := h.1.size_lt
    omega

/-- Whenever `load_cert_file` returns, `user_cert` is a buffer of `user_cert_size` bytes with the
previous content and the new lists, exactly if there is memory for every size that is asked for, and
all lists have less than `2 ^ 32` bytes. -/
theorem userCert_along_iff (calls : List CertCall) (hpaired : user.Paired) :
    AppendsAlong calls user ↔ RoomAlong calls user.size := by
  induction calls generalizing user with
  | nil => exact Iff.rfl
  | cons call calls ih =>
    unfold AppendsAlong RoomAlong
    constructor
    · rintro ⟨happends, hrest⟩
      refine ⟨(CertCall.appends_iff hpaired).mp happends, ?_⟩
      rw [← happends.size_eq hpaired]
      exact (ih happends.1).mp hrest
    · rintro ⟨hroom, hrest⟩
      have happends := (CertCall.appends_iff hpaired).mpr hroom
      refine ⟨happends, (ih happends.1).mpr ?_⟩
      rwa [happends.size_eq hpaired]

end

def twoListsFile : File := certFile 6 56

def twoListsEnv : HandleEnv := secureEnv (twoListsFile.mem.slice 312 32)

def twoLists (alloc : ℕ → Bool) : CertCall where
  env := twoListsEnv
  alloc := alloc
  file := some twoListsFile

/-- There is memory for 28 bytes, but not for 56: the buffer with the first list has been freed, and
the size is 56. -/
theorem userCert_left_freed : (twoLists fun n => n == 28).after ⟨0, .null⟩ = ⟨56, .freed⟩ ∧
      ¬ AppendsAlong [twoLists fun n => n == 28] ⟨0, .null⟩ := by
  have hafter : (twoLists fun n => n == 28).after ⟨0, .null⟩ = ⟨56, .freed⟩ := by decide +kernel
  refine ⟨hafter, ?_⟩
  rintro ⟨⟨hpaired, -⟩, -⟩
  rw [hafter] at hpaired
  exact hpaired.ne_freed rfl

lemma length_dbLists_le (f : File) (s : SectionHeader) :
    (f.dbLists s).flatten.length ≤ s.sizeOfRawData := by
  have hstarts := (words_isMaximal isSignatureList_isPrefixCode (f.dbBytes s)).starts.length_le
  rw [Pe.File.dbBytes, length_slice] at hstarts
  exact hstarts.trans (Nat.min_le_right _ _)

lemma twoLists_length (alloc : ℕ → Bool) : (twoLists alloc).lists.flatten.flatten.length ≤ 56 := by
  have hverify : verifyImage twoListsEnv twoListsFile = .ok (twoListsFile.context 64) := by
    decide +kernel
  obtain ⟨s, hsections, hname, hraw⟩ : ∃ s, twoListsFile.sections (twoListsFile.context 64) = [s] ∧
      s.name = dbName ∧ s.sizeOfRawData = 56 := by
    refine ⟨twoListsFile.row (twoListsFile.context 64) 0, ?_, by decide +kernel, by decide +kernel⟩
    rw [File.sections, show (twoListsFile.context 64).numberOfSections = 1 by decide +kernel]
    rfl
  have hlists : (twoLists alloc).lists = [twoListsFile.dbLists s] := by
    unfold CertCall.lists
    simp [twoLists, hverify, hsections, hname]
  rw [hlists, flatten_singleton, ← hraw]
  exact length_dbLists_le _ _

lemma roomAlong_singleton {call : CertCall} {size : ℕ} :
    RoomAlong [call] size ↔ Room call.alloc size call.lists.flatten :=
  and_iff_left trivial

lemma room_of_total {alloc : ℕ → Bool} (halloc : ∀ n, alloc n = true) {s n : ℕ}
    {ws : List (List UInt8)} (hle : ws.flatten.length ≤ n) (h : s + n < 2 ^ 32) :
    Room alloc s ws := by
  intro k _
  have hstarts := ((List.take_prefix (k + 1) ws).flatten).length_le
  exact ⟨by omega, halloc _⟩

theorem userCert_along_twoLists :
    (UserCert.mk 0 .null).Paired ∧ ((twoLists fun _ => true).after ⟨0, .null⟩).size = 56 ∧
      AppendsAlong [twoLists fun _ => true] ⟨0, .null⟩ := by
  have hpaired : (UserCert.mk 0 .null).Paired := ⟨by decide, .inl ⟨rfl, rfl⟩⟩
  refine ⟨hpaired, by decide +kernel, ?_⟩
  have halloc : ∀ n, (twoLists fun _ => true).alloc n = true := fun _ => rfl
  have hroom := room_of_total (s := 0) halloc (twoLists_length fun _ => true) (by decide)
  exact (userCert_along_iff [twoLists fun _ => true] hpaired).mpr (roomAlong_singleton.mpr hroom)

end Shim
