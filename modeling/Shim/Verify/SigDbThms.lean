import Shim.Verify.SigDb

/-!
# What the database searches guarantee

* **Safety**: `check_db_hash_in_ram` and `check_db_cert_in_ram` return, without a division by zero or
  a read behind the buffer, iff the size fields of every list that they get to keep to the buffer.
* **Completeness**: on a buffer that holds signature lists (`SigDb.Holds`), `check_db_cert_in_ram`
  finds an accepted certificate iff there is one *in a first slot*, and `check_db_hash_in_ram` a hash
  in any place.
-/

namespace Shim.Verify

open Shim.Lib List SigDb

/-! ## Safety -/

section

def SafeIn {α : Type} (x : Run Access Fault α) (n : ℕ) : Prop :=
  (∃ a, x.Yields a) ∧ ∀ off len, x.Emits (.read off len) → off + len ≤ n

/-- The walk gets to `o`: it follows the size fields past lists without a hit. -/
def SigDb.Walked (db : SigDb) (hit : ℕ → Prop) (o : ℕ) : Prop :=
  Relation.ReflTransGen (fun o o' => db.Follows o o' ∧ ¬ hit o) 0 o

variable {db : SigDb} {look : ℕ → Run Access Fault Bool} {hit ok : ℕ → Prop}

lemma SigDb.walked_of_reaches (hlook : ∀ o b, (look o).Yields b → (b = true ↔ hit o)) {o : ℕ}
    (h : Run.Reaches (db.listRound look) 0 o) : db.Walked hit o := by
  refine Relation.ReflTransGen.mono ?_ _ _ h
  intro o o' hnext
  obtain ⟨hfollows, hfalse⟩ := listRound_continues.mp hnext
  exact ⟨hfollows, fun hhit => by simpa using (hlook o false hfalse).mpr hhit⟩

/-- The first field of every list that is got to is in the buffer, the look at it is safe, and a
list without a hit is not empty. -/
theorem SigDb.checkDbInRam_safe_iff (hlook : ∀ o b, (look o).Yields b → (b = true ↔ hit o))
    (hok : ∀ o, SafeIn (look o) db.size ↔ ok o) :
    SafeIn (db.checkDbInRam look) db.size ↔ ∀ o, db.Walked hit o → o < db.size → o + 20 ≤ db.size ∧
        (db.signatureListSize o ≤ db.size - o → ok o ∧ (¬ hit o → db.signatureListSize o ≠ 0)) := by
  constructor
  · rintro ⟨hret, hreads⟩
    have hret' := checkDbInRam_returns_iff.mp hret
    -- with no fault on the way, the run itself gets to every list
    have hreach : ∀ o, db.Walked hit o → Run.Reaches (db.listRound look) 0 o := by
      intro o ho
      induction ho with
      | refl => exact .refl
      | tail _ hstep ih =>
        obtain ⟨⟨hlt, hfit, heq⟩, hmiss⟩ := hstep
        obtain ⟨⟨b, hb⟩, -⟩ := hret' _ ih hlt hfit
        have hfalse : b = false := by
          by_contra hne
          exact hmiss ((hlook _ b hb).mp (by simpa using hne))
        rw [hfalse] at hb
        exact ih.tail (listRound_continues.mpr ⟨⟨hlt, hfit, heq⟩, hb⟩)
    intro o ho hlt
    have ho' := hreach o ho
    refine ⟨?_, fun hfit => ⟨(hok o).mp ⟨(hret' o ho' hlt hfit).1, ?_⟩, fun hmiss => ?_⟩⟩
    · have hread := hreads (o + 16) 4
        (checkDbInRam_emits.mpr ⟨o, ho', listRound_emits.mpr ⟨hlt, .inl rfl⟩⟩)
      omega
    · intro off len hemit
      exact hreads off len
        (checkDbInRam_emits.mpr ⟨o, ho', listRound_emits.mpr ⟨hlt, .inr ⟨hfit, hemit⟩⟩⟩)
    · obtain ⟨⟨b, hb⟩, hzero⟩ := hret' o ho' hlt hfit
      have hfalse : b = false := by
        by_contra hne
        exact hmiss ((hlook _ b hb).mp (by simpa using hne))
      rw [hfalse] at hb
      exact hzero hb
  · intro h
    refine ⟨checkDbInRam_returns_iff.mpr fun o ho hlt hfit => ?_, fun off len hemit => ?_⟩
    · obtain ⟨hsafe, hzero⟩ := (h o (walked_of_reaches hlook ho) hlt).2 hfit
      refine ⟨((hok o).mpr hsafe).1, fun hfalse => hzero fun hhit => ?_⟩
      simpa using (hlook o false hfalse).mpr hhit
    · obtain ⟨o, ho, hemit⟩ := checkDbInRam_emits.mp hemit
      obtain ⟨hlt, hemit⟩ := listRound_emits.mp hemit
      obtain ⟨hhead, hrest⟩ := h o (walked_of_reaches hlook ho) hlt
      rcases hemit with heq | ⟨hfit, hemit⟩
      · rw [Access.read.injEq] at heq
        omega
      · exact ((hok o).mpr (hrest hfit).1).2 off len hemit

/-- The list at `o` keeps to the buffer: its header is in the buffer, its entries have a size, and
every entry up to a hit is in the buffer. -/
structure SigDb.HashListOk (db : SigDb) (data : List UInt8) (certType : Guid) (o : ℕ) : Prop where
  header : o + 28 ≤ db.size
  entrySize : db.signatureSize o ≠ 0
  entries : db.signatureType o = certType → ∀ i < db.certCount o,
    (∀ j < i, ¬ db.EntryIs o j data) → db.slot o i + 16 + data.length ≤ db.size ∧
      (db.EntryIs o i data → db.slot o i + db.signatureSize o ≤ db.size)

structure SigDb.CertListOk (db : SigDb) (verbose : Bool) (o : ℕ) : Prop where
  type : o + 16 ≤ db.size
  header : db.signatureType o = certTypeX509Guid → o + 28 ≤ db.size
  magic : db.signatureType o = certTypeX509Guid → 4 ≤ db.certSize o → db.slot o 0 + 18 ≤ db.size
  length : db.signatureType o = certTypeX509Guid → 4 ≤ db.certSize o →
    db.mem (db.slot o 0 + 16) = 0x30 ∧ db.mem (db.slot o 0 + 17) = 0x82 → db.slot o 0 + 20 ≤ db.size
  cert : db.signatureType o = certTypeX509Guid → (verifyX509 (db.slotCert o) ∨ verbose) →
    db.slot o 0 + 16 + db.certSize o ≤ db.size

variable {data p7Data hash : List UInt8} {certType : Guid} {cr : Crypto} {verbose : Bool} {o : ℕ}

lemma hashLook_safe_iff :
    SafeIn (hashLook db data certType o) db.size ↔ db.HashListOk data certType o := by
  unfold SafeIn
  simp only [hashLook_yields, hashLook_emits, Access.read.injEq]
  constructor
  · rintro ⟨⟨b, hsize, -⟩, hreads⟩
    refine ⟨?_, hsize, fun htype i hi hfirst => ⟨?_, fun hentry => ?_⟩⟩
    · have := hreads (o + 20) 8 (.inl ⟨rfl, rfl⟩)
      omega
    · exact hreads _ _ (.inr ⟨hsize, .inr ⟨htype, i, hi, hfirst, .inl ⟨rfl, rfl⟩⟩⟩)
    · exact hreads _ _ (.inr ⟨hsize, .inr ⟨htype, i, hi, hfirst, .inr ⟨hentry, rfl, rfl⟩⟩⟩)
  · rintro ⟨hheader, hsize, hentries⟩
    refine ⟨?_, ?_⟩
    · by_cases hhas : db.HasHash data certType o
      · exact ⟨true, hsize, by simp [hhas]⟩
      · exact ⟨false, hsize, by simp [hhas]⟩
    · rintro off len (⟨rfl, rfl⟩ | ⟨-, ⟨rfl, rfl⟩ | ⟨htype, i, hi, hfirst, h⟩⟩)
      · omega
      · omega
      · obtain ⟨hin, hfound⟩ := hentries htype i hi hfirst
        rcases h with ⟨rfl, rfl⟩ | ⟨hentry, rfl, rfl⟩
        · exact hin
        · exact hfound hentry

lemma SigDb.certSize_of_accepts (h : verifyX509 (db.slotCert o) = true) :
    db.signatureSize o = 16 + db.certSize o := by
  obtain ⟨hge, -, hlen⟩ := (verifyX509_slice _ _ _).mp h
  have hb : (db.mem (db.slot o 0 + 16 + 2)).toNat < 256 := UInt8.toNat_lt _
  have hb' : (db.mem (db.slot o 0 + 16 + 3)).toNat < 256 := UInt8.toNat_lt _
  have hlt : db.signatureSize o < 2 ^ 32 := Mem.u32_lt _ _
  by_cases h16 : 16 ≤ db.signatureSize o
  · have hsub : db.certSize o = db.signatureSize o - 16 := subW_of_le (by omega) h16
    omega
  · have hsub : db.certSize o = db.signatureSize o + 2 ^ 64 - 16 :=
      subW_of_lt (by decide) (by omega)
    omega

lemma certLook_safe_iff :
    SafeIn (certLook db cr p7Data hash verbose o) db.size ↔ db.CertListOk verbose o := by
  unfold SafeIn
  simp only [certLook_yields, certLook_emits, verifyX509At_emits, Access.read.injEq]
  constructor
  · rintro ⟨-, hreads⟩
    refine ⟨hreads _ _ (.inl ⟨rfl, rfl⟩), fun htype => ?_, fun htype h4 => ?_,
      fun htype h4 hmagic => ?_, fun htype hcert => ?_⟩
    · have := hreads (o + 20) 8 (.inr ⟨htype, .inl ⟨rfl, rfl⟩⟩)
      omega
    · have := hreads _ _ (.inr ⟨htype, .inr (.inl ⟨h4, .inl ⟨rfl, rfl⟩⟩)⟩)
      omega
    · have := hreads _ _ (.inr ⟨htype, .inr (.inl ⟨h4, .inr ⟨hmagic, rfl, rfl⟩⟩)⟩)
      omega
    · exact hreads _ _ (.inr ⟨htype, .inr (.inr (.inl ⟨hcert, rfl, rfl⟩))⟩)
  · rintro ⟨htype, hheader, hmagic, hlength, hcert⟩
    refine ⟨?_, ?_⟩
    · by_cases hhas : db.HasCert cr p7Data hash o
      · exact ⟨true, by simp [hhas]⟩
      · exact ⟨false, by simp [hhas]⟩
    · intro off len hread
      rcases hread with ⟨hoff, hlen⟩ | ⟨hx, h⟩
      · rw [hoff, hlen]
        exact htype
      rcases h with ⟨hoff, hlen⟩ | ⟨h4, ⟨hoff, hlen⟩ | ⟨hm, hoff, hlen⟩⟩ | ⟨hc, hoff, hlen⟩ |
        ⟨hacc, hoff, hlen⟩
      · have := hheader hx
        omega
      · have := hmagic hx h4
        omega
      · have := hlength hx h4 hm
        omega
      · rw [hoff, hlen]
        exact hcert hx hc
      · -- what is measured is the entry: the owner and the certificate
        have hx509 : verifyX509 (db.slotCert o) = true := by
          unfold Crypto.accepts at hacc
          simp only [Bool.and_eq_true] at hacc
          exact hacc.1.1
        have hin := hcert hx (.inl hx509)
        have hsize := certSize_of_accepts hx509
        omega

/-- Every list that the search gets to keeps to the buffer, and its size is not zero unless the
search ends there. -/
def SigDb.HashWalkOk (db : SigDb) (data : List UInt8) (certType : Guid) : Prop :=
  ∀ o, db.Walked (db.HasHash data certType) o → o < db.size → o + 20 ≤ db.size ∧
    (db.signatureListSize o ≤ db.size - o → db.HashListOk data certType o ∧
      (¬ db.HasHash data certType o → db.signatureListSize o ≠ 0))

def SigDb.CertWalkOk (db : SigDb) (cr : Crypto) (p7Data hash : List UInt8) (verbose : Bool) :
    Prop :=
  ∀ o, db.Walked (db.HasCert cr p7Data hash) o → o < db.size → o + 20 ≤ db.size ∧
    (db.signatureListSize o ≤ db.size - o → db.CertListOk verbose o ∧
      (¬ db.HasCert cr p7Data hash o → db.signatureListSize o ≠ 0))

/-- Both searches return, without a division by zero and without a read behind the end of the
buffer, iff the size fields of the lists they get to keep to the buffer. -/
theorem checkDb_safe_iff (db : SigDb) (data : List UInt8) (certType : Guid) (cr : Crypto)
    (p7Data hash : List UInt8) (verbose : Bool) :
    (SafeIn (checkDbHashInRam db data certType) db.size ↔ db.HashWalkOk data certType) ∧
      (SafeIn (checkDbCertInRam db cr p7Data hash verbose) db.size ↔
        db.CertWalkOk cr p7Data hash verbose) :=
  ⟨checkDbInRam_safe_iff (fun _ _ h => (hashLook_yields.mp h).2) fun _ => hashLook_safe_iff,
    checkDbInRam_safe_iff (fun _ _ h => certLook_yields.mp h) fun _ => certLook_safe_iff⟩

def rejectAll : Crypto where
  verifyEku _ := false
  authenticodeVerify _ _ _ := false

def zeroDb : SigDb := ⟨fun _ => 0, 28⟩

def shortDb : SigDb := ⟨fun _ => 0, 4⟩

/-- On `zeroDb` the one search divides by zero and the other never ends; on `shortDb` both read 16
bytes behind the end. -/
theorem checkDb_unsafe :
    (checkDbHashInRam zeroDb (List.replicate 32 0) certSha256Guid).out = .error .divideError ∧
      (checkDbCertInRam zeroDb rejectAll [] [] false).out = .error .diverges ∧
      (∀ n, (Run.loop (zeroDb.listRound (certLook zeroDb rejectAll [] [] false)) n 0).out =
        .ok none) ∧
      (checkDbHashInRam shortDb (List.replicate 32 0) certSha256Guid).Emits (.read 16 4) ∧
      (checkDbCertInRam shortDb rejectAll [] [] false).Emits (.read 16 4) := by
  refine ⟨by decide +kernel, by decide +kernel, fun n => ?_, by decide +kernel, by decide +kernel⟩
  have hstep : Run.Continues (zeroDb.listRound (certLook zeroDb rejectAll [] [] false)) 0 0 := by
    show _ = _
    decide +kernel
  induction n with
  | zero => rfl
  | succ n ih =>
    unfold Run.loop
    show (Run.bind _ _).out = _
    unfold Run.Continues Run.Yields at hstep
    simp only [Run.bind, hstep]
    exact ih

end

/-! ## Completeness -/

/-- An `EFI_SIGNATURE_LIST` as an object: entries of one size, each an owner GUID and its data. -/
structure SignatureList where
  type : Guid
  header : List UInt8
  entrySize : ℕ
  entries : List (List UInt8)
  entrySize_ge : 16 ≤ entrySize
  entrySize_lt : entrySize < 2 ^ 32
  length_entry : ∀ e ∈ entries, e.length = entrySize
  size_lt : 28 + header.length + entries.length * entrySize < 2 ^ 32

namespace SignatureList

/-- A list without a header. -/
def plain (type : Guid) (n : ℕ) (entries : List (List UInt8)) (h : 16 ≤ n ∧ n < 2 ^ 32 ∧
    (∀ e ∈ entries, e.length = n) ∧ 28 + entries.length * n < 2 ^ 32) : SignatureList :=
  ⟨type, [], n, entries, h.1, h.2.1, h.2.2.1, h.2.2.2⟩

def size (l : SignatureList) : ℕ := 28 + l.header.length + l.entries.length * l.entrySize

def HasEntry (l : SignatureList) (cr : Crypto) (p7Data hash : List UInt8) : Prop :=
  l.type = certTypeX509Guid ∧ ∃ e ∈ l.entries, cr.accepts p7Data hash (e.drop 16)

def HasFirst (l : SignatureList) (cr : Crypto) (p7Data hash : List UInt8) : Prop :=
  l.type = certTypeX509Guid ∧ ∃ e ∈ l.entries.head?, cr.accepts p7Data hash (e.drop 16)

end SignatureList

structure SigDb.HoldsList (db : SigDb) (o : ℕ) (l : SignatureList) : Prop where
  type : db.signatureType o = l.type
  size : db.signatureListSize o = l.size
  headerSize : db.signatureHeaderSize o = l.header.length
  entrySize : db.signatureSize o = l.entrySize
  header : db.mem.slice (o + 28) l.header.length = l.header
  entries : ∀ i, (hi : i < l.entries.length) → db.mem.slice (db.slot o i) l.entrySize = l.entries[i]

/-- The buffer from `o` on is a concatenation of signature lists. -/
def SigDb.HoldsFrom (db : SigDb) : ℕ → List SignatureList → Prop
  | o, [] => o = db.size
  | o, l :: ls => db.HoldsList o l ∧ db.HoldsFrom (o + l.size) ls

def SigDb.Holds (db : SigDb) (ls : List SignatureList) : Prop := db.HoldsFrom 0 ls

def listOffsets : ℕ → List SignatureList → List (ℕ × SignatureList)
  | _, [] => []
  | o, l :: ls => (o, l) :: listOffsets (o + l.size) ls

/-- Behind the header of an X.509 list without entries there are bytes that pass for a certificate.
-/
def SigDb.HasBehindEmpty (db : SigDb) (ls : List SignatureList) (cr : Crypto)
    (p7Data hash : List UInt8) : Prop :=
  ∃ p ∈ listOffsets 0 ls, p.2.type = certTypeX509Guid ∧ p.2.entries = [] ∧
    cr.accepts p7Data hash (db.slotCert p.1)

section

variable {db : SigDb} {cr : Crypto} {p7Data hash : List UInt8} {verbose : Bool} {o : ℕ}
  {l : SignatureList} {ls : List SignatureList}

lemma listOffsets_map_snd (o : ℕ) (ls : List SignatureList) :
    (listOffsets o ls).map Prod.snd = ls := by
  induction ls generalizing o with
  | nil => rfl
  | cons l ls ih => simp [listOffsets, ih]

lemma SigDb.HoldsFrom.le_size (h : db.HoldsFrom o ls) : o ≤ db.size := by
  induction ls generalizing o with
  | nil => exact le_of_eq h
  | cons l ls ih =>
    have := ih h.2
    omega

lemma SigDb.HoldsFrom.holdsList (h : db.HoldsFrom o ls) {p : ℕ × SignatureList}
    (hp : p ∈ listOffsets o ls) : db.HoldsList p.1 p.2 := by
  induction ls generalizing o with
  | nil => simp [listOffsets] at hp
  | cons l ls ih =>
    rcases mem_cons.mp hp with rfl | hp
    · exact h.1
    · exact ih h.2 hp

lemma SigDb.HoldsList.fits (h : db.HoldsList o l) (hnext : db.HoldsFrom (o + l.size) ls) :
    o < db.size ∧ db.signatureListSize o ≤ db.size - o := by
  have hle := hnext.le_size
  have hpos : 28 ≤ l.size := by
    unfold SignatureList.size
    omega
  rw [h.size]
  omega

lemma SigDb.loop_of_holdsFrom {look : ℕ → Run Access Fault Bool} {hit : ℕ → Prop}
    [DecidablePred hit] (hlook : ∀ p ∈ listOffsets o ls, (look p.1).Yields (decide (hit p.1)))
    (h : db.HoldsFrom o ls) :
    ∃ n, (Run.loop (db.listRound look) n o).Yields
      (some (if ∃ p ∈ listOffsets o ls, hit p.1 then .dataFound else .dataNotFound)) := by
  induction ls generalizing o with
  | nil =>
    refine ⟨1, Run.loop_yields_succ.mpr (.inl ?_)⟩
    rw [listRound_yields_inr]
    have hend : o = db.size := h
    exact .inl ⟨by omega, by simp [listOffsets]⟩
  | cons l ls ih =>
    obtain ⟨hfirst, hrest⟩ := forall_mem_cons.mp hlook
    have hin := h.1.fits h.2
    by_cases hhit : hit o
    · refine ⟨1, Run.loop_yields_succ.mpr (.inl ?_)⟩
      rw [listRound_yields_inr]
      refine .inr ⟨hin, by simpa [hhit] using hfirst, ?_⟩
      rw [if_pos ⟨(o, l), by simp [listOffsets], hhit⟩]
    obtain ⟨n, hn⟩ := ih hrest h.2
    refine ⟨n + 1, Run.loop_yields_succ.mpr (.inr ⟨o + l.size, ?_, ?_⟩)⟩
    · rw [listRound_continues]
      exact ⟨⟨hin.1, hin.2, by rw [h.1.size]⟩, by simpa [hhit] using hfirst⟩
    · have hiff : (∃ p ∈ listOffsets o (l :: ls), hit p.1) ↔
          ∃ p ∈ listOffsets (o + l.size) ls, hit p.1 := by
        simp [listOffsets, hhit]
      simpa only [hiff] using hn

lemma SigDb.checkDbInRam_of_holds (look : ℕ → Run Access Fault Bool) (hit : ℕ → Prop)
    [DecidablePred hit] (hlook : ∀ p ∈ listOffsets 0 ls, (look p.1).Yields (decide (hit p.1)))
    (h : db.Holds ls) :
    (db.checkDbInRam look).Yields
      (if ∃ p ∈ listOffsets 0 ls, hit p.1 then .dataFound else .dataNotFound) := by
  obtain ⟨n, hn⟩ := loop_of_holdsFrom hlook h
  rw [checkDbInRam_yields, Run.loop_yields listRound_variant (by omega)]
  exact Run.reaches_of_loop_yields hn

lemma SigDb.checkDbInRam_iff_of_holds (look : ℕ → Run Access Fault Bool) (hit : ℕ → Prop)
    (hlook : ∀ p ∈ listOffsets 0 ls, ∀ b, (b = true ↔ hit p.1) → (look p.1).Yields b)
    (h : db.Holds ls) :
    ((db.checkDbInRam look).Yields .dataFound ↔ ∃ p ∈ listOffsets 0 ls, hit p.1) ∧
      ((db.checkDbInRam look).Yields .dataNotFound ↔ ¬ ∃ p ∈ listOffsets 0 ls, hit p.1) := by
  classical
  have hrun := checkDbInRam_of_holds look hit (fun p hp => hlook p hp _ (by simp)) h
  by_cases hex : ∃ p ∈ listOffsets 0 ls, hit p.1
  · rw [if_pos hex] at hrun
    exact ⟨iff_of_true hrun hex, iff_of_false (fun hy => by cases hy.unique hrun) (not_not.mpr hex)⟩
  · rw [if_neg hex] at hrun
    exact ⟨iff_of_false (fun hy => by cases hy.unique hrun) hex, iff_of_true hrun hex⟩

lemma exists_listOffsets (P : SignatureList → Prop) :
    (∃ l ∈ ls, P l) ↔ ∃ p ∈ listOffsets 0 ls, P p.2 := by
  conv_lhs => rw [← listOffsets_map_snd 0 ls]
  simp only [mem_map]
  constructor
  · rintro ⟨l, ⟨p, hp, rfl⟩, hl⟩
    exact ⟨p, hp, hl⟩
  · rintro ⟨p, hp, hl⟩
    exact ⟨p.2, ⟨p, hp, rfl⟩, hl⟩

lemma SigDb.HoldsList.slotCert_eq (h : db.HoldsList o l) {e : List UInt8}
    (he : l.entries.head? = some e) : db.slotCert o = e.drop 16 := by
  obtain ⟨rest, hrest⟩ : ∃ rest, l.entries = e :: rest := by
    cases hl : l.entries with
    | nil => simp [hl] at he
    | cons a rest => exact ⟨rest, by simpa [hl] using he⟩
  have h0 : db.mem.slice (db.slot o 0) l.entrySize = e := by
    have := h.entries 0 (by simp [hrest])
    simpa [hrest] using this
  have hsize : db.certSize o = l.entrySize - 16 := by
    unfold certSize
    rw [h.entrySize]
    exact subW_of_le (by have := l.entrySize_lt; omega) l.entrySize_ge
  have hsplit : l.entrySize = 16 + (l.entrySize - 16) := by
    have := l.entrySize_ge
    omega
  unfold slotCert
  rw [hsize, ← h0, hsplit, Mem.slice_add]
  simp

lemma SigDb.HoldsList.hasCert_iff (h : db.HoldsList o l) : db.HasCert cr p7Data hash o ↔
      l.HasFirst cr p7Data hash ∨ (l.type = certTypeX509Guid ∧ l.entries = [] ∧
        cr.accepts p7Data hash (db.slotCert o)) := by
  unfold SigDb.HasCert SignatureList.HasFirst
  rw [h.type]
  cases hl : l.entries with
  | nil => simp
  | cons e rest =>
    rw [h.slotCert_eq (e := e) (by simp [hl])]
    simp

/-- On a well-formed database an accepted certificate is found iff it stands first in its list (or
an empty list passes for one). -/
theorem checkDbCertInRam_of_holds (h : db.Holds ls) :
    (checkDbCertInRam db cr p7Data hash verbose).Yields .dataFound ↔
      (∃ l ∈ ls, l.HasFirst cr p7Data hash) ∨ db.HasBehindEmpty ls cr p7Data hash := by
  have hfound := (checkDbInRam_iff_of_holds (certLook db cr p7Data hash verbose)
    (db.HasCert cr p7Data hash) (fun _ _ _ hb => certLook_yields.mpr hb) h).1
  rw [checkDbCertInRam, hfound, exists_listOffsets fun l => l.HasFirst cr p7Data hash]
  unfold SigDb.HasBehindEmpty
  constructor
  · rintro ⟨p, hp, hcert⟩
    rcases (SigDb.HoldsFrom.holdsList h hp).hasCert_iff.mp hcert with hfirst | hempty
    · exact .inl ⟨p, hp, hfirst⟩
    · exact .inr ⟨p, hp, hempty⟩
  · rintro (⟨p, hp, hfirst⟩ | ⟨p, hp, hempty⟩)
    · exact ⟨p, hp, (SigDb.HoldsFrom.holdsList h hp).hasCert_iff.mpr (.inl hfirst)⟩
    · exact ⟨p, hp, (SigDb.HoldsFrom.holdsList h hp).hasCert_iff.mpr (.inr hempty)⟩

/-- A certificate is found iff *some* entry of the database has one that is accepted, exactly for
the databases in which an accepted one, if any, stands first in a list, and no empty X.509 list is
followed by bytes that pass for one. -/
theorem checkDbCertInRam_found_iff_some_entry (cr : Crypto) (p7Data hash : List UInt8)
    (verbose : Bool) {db : SigDb} {ls : List SignatureList} (h : db.Holds ls) :
    ((checkDbCertInRam db cr p7Data hash verbose).Yields .dataFound ↔
        ∃ l ∈ ls, l.HasEntry cr p7Data hash) ↔
      ((∃ l ∈ ls, l.HasEntry cr p7Data hash) →
        (∃ l ∈ ls, l.HasFirst cr p7Data hash) ∨ db.HasBehindEmpty ls cr p7Data hash) ∧
      (db.HasBehindEmpty ls cr p7Data hash → ∃ l ∈ ls, l.HasEntry cr p7Data hash) := by
  have hfirst : (∃ l ∈ ls, l.HasFirst cr p7Data hash) → ∃ l ∈ ls, l.HasEntry cr p7Data hash := by
    rintro ⟨l, hl, htype, e, he, hacc⟩
    exact ⟨l, hl, htype, e, mem_of_mem_head? he, hacc⟩
  rw [checkDbCertInRam_of_holds h]
  constructor
  · intro hiff
    exact ⟨hiff.mpr, fun hempty => hiff.mp (.inr hempty)⟩
  · rintro ⟨hentry, hempty⟩
    exact ⟨fun hor => hor.elim hfirst hempty, hentry⟩

def tinyCert (x : UInt8) : List UInt8 := [0x30, 0x82, 0x00, 0x01, x]

def tinyCrypto : Crypto where
  verifyEku _ := true
  authenticodeVerify _ cert _ := cert = tinyCert 2

/-- An X.509 list with two certificates. -/
def secondEntryList : SignatureList := .plain certTypeX509Guid 21
  [List.replicate 16 0 ++ tinyCert 1, List.replicate 16 0 ++ tinyCert 2] (by decide)

def secondEntryDb : SigDb where
  mem := fun i => (certTypeX509Guid ++ [70, 0, 0, 0] ++ [0, 0, 0, 0] ++ [21, 0, 0, 0] ++
    secondEntryList.entries.flatten).getD i 0
  size := 70

lemma secondEntryDb_holds : secondEntryDb.Holds [secondEntryList] := by
  refine ⟨⟨by decide +kernel, by decide +kernel, by decide +kernel, by decide +kernel,
    by decide +kernel, ?_⟩, by unfold SigDb.HoldsFrom; decide +kernel⟩
  show ∀ i, (hi : i < 2) → _
  decide +kernel

/-- The certificate that verifies the signature is the second entry of a list: stored like this in
`dbx`, it does not revoke anything. -/
theorem checkDbCertInRam_misses_second_entry :
    secondEntryDb.Holds [secondEntryList] ∧ secondEntryList.HasEntry tinyCrypto [] [] ∧
      (checkDbCertInRam secondEntryDb tinyCrypto [] [] false).Yields .dataNotFound := by
  refine ⟨secondEntryDb_holds, ⟨rfl, List.replicate 16 0 ++ tinyCert 2, ?_, ?_⟩, ?_⟩
  · decide +kernel
  · decide +kernel
  · show _ = _
    decide +kernel

theorem checkDbCertInRam_found_iff_some_entry_secondEntryDb :
    secondEntryDb.Holds [secondEntryList] ∧
      (((checkDbCertInRam secondEntryDb tinyCrypto [] [] false).Yields .dataFound ↔
          ∃ l ∈ [secondEntryList], l.HasEntry tinyCrypto [] []) ↔
        ((∃ l ∈ [secondEntryList], l.HasEntry tinyCrypto [] []) →
          (∃ l ∈ [secondEntryList], l.HasFirst tinyCrypto [] []) ∨
            secondEntryDb.HasBehindEmpty [secondEntryList] tinyCrypto [] []) ∧
        (secondEntryDb.HasBehindEmpty [secondEntryList] tinyCrypto [] [] →
          ∃ l ∈ [secondEntryList], l.HasEntry tinyCrypto [] [])) :=
  ⟨secondEntryDb_holds,
    checkDbCertInRam_found_iff_some_entry tinyCrypto [] [] false secondEntryDb_holds⟩

/-! ### Hashes -/

def SignatureList.HasHash (l : SignatureList) (data : List UInt8) (certType : Guid) : Prop :=
  l.type = certType ∧ ∃ e ∈ l.entries, e.drop 16 = data

lemma SigDb.HoldsList.certCount_eq (h : db.HoldsList o l) : db.certCount o = l.entries.length := by
  have hpos : 0 < l.entrySize := Nat.lt_of_lt_of_le (by decide) l.entrySize_ge
  have hsize : l.size = 28 + l.header.length + l.entries.length * l.entrySize := rfl
  have hlt : l.size < 2 ^ 32 := l.size_lt
  have hbehind : subW 64 l.size 28 = l.size - 28 := subW_of_le (by omega) (by omega)
  unfold certCount
  rw [h.size, h.headerSize, h.entrySize, hbehind, subW_of_le (by omega) (by omega)]
  refine Nat.div_eq_of_eq_mul_left hpos ?_
  omega

lemma SigDb.HoldsList.entryIs_iff {data : List UInt8} {i : ℕ} (h : db.HoldsList o l)
    (hsize : l.entrySize = 16 + data.length) (hi : i < l.entries.length) :
    db.EntryIs o i data ↔ l.entries[i].drop 16 = data := by
  have hentry := h.entries i hi
  rw [hsize, Mem.slice_add] at hentry
  unfold SigDb.EntryIs
  rw [← hentry, drop_left' (Mem.length_slice _ _ _)]

lemma SigDb.HoldsList.hasHash_iff {data : List UInt8} {certType : Guid} (h : db.HoldsList o l)
    (hsize : l.type = certType → l.entrySize = 16 + data.length) :
    db.HasHash data certType o ↔ l.HasHash data certType := by
  unfold SigDb.HasHash SignatureList.HasHash
  rw [h.type, h.certCount_eq]
  refine and_congr_right fun htype => ?_
  constructor
  · rintro ⟨i, hi, hentry⟩
    exact ⟨l.entries[i], getElem_mem hi, (h.entryIs_iff (hsize htype) hi).mp hentry⟩
  · rintro ⟨e, he, hdata⟩
    obtain ⟨i, hi, rfl⟩ := getElem_of_mem he
    exact ⟨i, hi, (h.entryIs_iff (hsize htype) hi).mpr hdata⟩

/-- On a well-formed database `check_db_hash_in_ram` returns, and it finds the hash iff a list of the
type asked for has an entry with it, in any place. -/
theorem checkDbHashInRam_iff_of_holds (data : List UInt8) (certType : Guid) {db : SigDb}
    {ls : List SignatureList} (h : db.Holds ls)
    (hsize : ∀ l ∈ ls, l.type = certType → l.entrySize = 16 + data.length) :
    ((checkDbHashInRam db data certType).Yields .dataFound ↔
      ∃ l ∈ ls, l.type = certType ∧ ∃ e ∈ l.entries, e.drop 16 = data) ∧
    ((checkDbHashInRam db data certType).Yields .dataNotFound ↔
      ¬ ∃ l ∈ ls, l.type = certType ∧ ∃ e ∈ l.entries, e.drop 16 = data) := by
  have hmem : ∀ p ∈ listOffsets 0 ls, p.2 ∈ ls := by
    intro p hp
    rw [← listOffsets_map_snd 0 ls]
    exact mem_map_of_mem hp
  have hlook : ∀ p ∈ listOffsets 0 ls, ∀ b, (b = true ↔ db.HasHash data certType p.1) →
      (hashLook db data certType p.1).Yields b := by
    intro p hp b hb
    refine hashLook_yields.mpr ⟨?_, hb⟩
    rw [(SigDb.HoldsFrom.holdsList h hp).entrySize]
    exact Nat.ne_of_gt (Nat.lt_of_lt_of_le (by decide) p.2.entrySize_ge)
  have hiff : (∃ p ∈ listOffsets 0 ls, db.HasHash data certType p.1) ↔
      ∃ l ∈ ls, l.HasHash data certType := by
    rw [exists_listOffsets fun l => l.HasHash data certType]
    refine exists_congr fun p => and_congr_right fun hp => ?_
    exact (SigDb.HoldsFrom.holdsList h hp).hasHash_iff (hsize p.2 (hmem p hp))
  obtain ⟨hfound, hnot⟩ := checkDbInRam_iff_of_holds (hashLook db data certType) _ hlook h
  rw [hiff] at hfound hnot
  exact ⟨hfound, hnot⟩

theorem checkDbHashInRam_finds_second_entry : (secondEntryDb.Holds [secondEntryList] ∧
      ∀ l ∈ [secondEntryList], l.type = certTypeX509Guid → l.entrySize = 16 + (tinyCert 2).length) ∧
    (checkDbHashInRam secondEntryDb (tinyCert 2) certTypeX509Guid).Yields .dataFound ∧
    (checkDbHashInRam secondEntryDb (tinyCert 3) certTypeX509Guid).Yields .dataNotFound := by
  have hsize : ∀ l ∈ [secondEntryList], l.type = certTypeX509Guid →
      l.entrySize = 16 + (tinyCert 2).length := by decide +kernel
  refine ⟨⟨secondEntryDb_holds, hsize⟩, ?_, ?_⟩
  · exact (checkDbHashInRam_iff_of_holds (tinyCert 2) certTypeX509Guid secondEntryDb_holds hsize).1.mpr
      (by decide +kernel)
  · exact (checkDbHashInRam_iff_of_holds (tinyCert 3) certTypeX509Guid secondEntryDb_holds hsize).2.mpr
      (by decide +kernel)

end

end Shim.Verify
