import Shim.Lib.Loop
import Shim.Lib.Mem
import Shim.Lib.Word

/-!
# Searching a signature database

`check_db_hash_in_ram` and `check_db_cert_in_ram` share the walk over a chain of
`EFI_SIGNATURE_LIST`s (`SigDb.checkDbInRam`) and differ in what they look for in one list
(`hashLook`, `certLook`).
-/

namespace Shim.Verify

open Shim.Lib Run

/-- The content of a database variable or vendor table: `dbsize` bytes, and whatever lies behind. -/
structure SigDb where
  /-- The memory, by offset from the first list. -/
  mem : Mem
  size : ℕ

abbrev Guid := List UInt8

def certTypeX509Guid : Guid :=
  [0xa1, 0x59, 0xc0, 0xa5, 0xe4, 0x94, 0xa7, 0x4a, 0x87, 0xb5, 0xab, 0x15, 0x5c, 0x2b, 0xf0, 0x72]

def certSha256Guid : Guid :=
  [0x26, 0x16, 0xc4, 0xc1, 0x4c, 0x50, 0x92, 0x40, 0xac, 0xa9, 0x41, 0xf9, 0x36, 0x93, 0x43, 0x28]

def certSha1Guid : Guid :=
  [0x12, 0xa5, 0x6c, 0x82, 0x10, 0xcf, 0xc9, 0x4a, 0xb1, 0x87, 0xbe, 0x01, 0x49, 0x66, 0x31, 0xbd]

inductive CheckStatus where
  | dataFound
  | dataNotFound
  | varNotFound
  deriving DecidableEq, Repr

/-- The ways in which a search does not return: the processor traps, or the loop never ends. -/
inductive Fault where
  | divideError
  | diverges
  deriving DecidableEq, Repr

/-- The callees from the crypto library: the extended key usage of a certificate, and whether it
verifies a signature over a hash. -/
structure Crypto where
  verifyEku : (cert : List UInt8) → Bool
  authenticodeVerify : (p7Data trustedCert imageHash : List UInt8) → Bool

/-- `sizeof (EFI_SIGNATURE_LIST)` -/
def sizeofSignatureList : ℕ := 28

namespace SigDb

variable (db : SigDb) (o i : ℕ)

def signatureType : Guid := db.mem.slice o 16

def signatureListSize : ℕ := db.mem.u32 (o + 16)

def signatureHeaderSize : ℕ := db.mem.u32 (o + 20)

def signatureSize : ℕ := db.mem.u32 (o + 24)

def certCount : ℕ :=
  subW 64 (subW 64 (db.signatureListSize o) 28) (db.signatureHeaderSize o) / db.signatureSize o

def slot : ℕ := o + 28 + db.signatureHeaderSize o + i * db.signatureSize o

def listRound (look : ℕ → Run Access Fault Bool) (o : ℕ) : Run Access Fault (ℕ ⊕ CheckStatus) :=
  if db.size ≤ o then return .inr .dataNotFound
  else do
    .emit (.read (o + 16) 4)
    if db.size - o < db.signatureListSize o then return .inr .dataNotFound
    else
      if ← look o then return .inr .dataFound
      else return .inl (o + db.signatureListSize o)

/-- The loop. Only a list of size zero does not bring the end nearer, and then every round is the
same: `size + 1` rounds tell whether the loop ends. -/
def checkDbInRam (look : ℕ → Run Access Fault Bool) : Run Access Fault CheckStatus := do
  match ← Run.loop (db.listRound look) (db.size + 1) 0 with
  | some rc => return rc
  | none => .fail .diverges

end SigDb

section

variable (db : SigDb)

def scanHash (data : List UInt8) (o : ℕ) : ℕ → ℕ → Run Access Fault Bool
  | 0, _ => return false
  | n + 1, i => do
      .emit (.read (db.slot o i + 16) data.length)
      if db.mem.slice (db.slot o i + 16) data.length = data then
        -- `tpm_measure_variable`
        .emit (.read (db.slot o i) (db.signatureSize o))
        return true
      else scanHash data o n (i + 1)

def hashLook (data : List UInt8) (certType : Guid) (o : ℕ) : Run Access Fault Bool := do
  .emit (.read (o + 20) 8)
  .check (db.signatureSize o = 0) .divideError
  .emit (.read o 16)
  if db.signatureType o = certType then scanHash db data o (db.certCount o) 0
  else return false

def verifyX509 (cert : List UInt8) : Bool :=
  match cert with
  | a :: b :: c :: d :: rest =>
    a = 0x30 && b = 0x82 && c.toNat * 256 + d.toNat = rest.length
  | _ => false

/-- `verify_x509` in memory: the first two bytes are read if there are four at all, the length field
if they are right. -/
def verifyX509At (cert certSize : ℕ) : Run Access Fault Bool :=
  if certSize < 4 then return false
  else do
    .emit (.read cert 2)
    if db.mem cert ≠ 0x30 ∨ db.mem (cert + 1) ≠ 0x82 then return false
    else
      .emit (.read (cert + 2) 2)
      return (db.mem (cert + 2)).toNat * 256 + (db.mem (cert + 3)).toNat = certSize - 4

def certLook (cr : Crypto) (p7Data hash : List UInt8) (verbose : Bool) (o : ℕ) :
    Run Access Fault Bool := do
  .emit (.read o 16)
  if db.signatureType o = certTypeX509Guid then
    .emit (.read (o + 20) 8)
    let cert := db.slot o 0 + 16
    let certSize := subW 64 (db.signatureSize o) 16
    if ← verifyX509At db cert certSize then
      .emit (.read cert certSize)
      if cr.verifyEku (db.mem.slice cert certSize) &&
          cr.authenticodeVerify p7Data (db.mem.slice cert certSize) hash then
        .emit (.read (db.slot o 0) (db.signatureSize o))
        return true
      else return false
    else if verbose then
      -- `dhexdumpat`
      .emit (.read cert certSize)
      return false
    else return false
  else return false

def checkDbHashInRam (data : List UInt8) (certType : Guid) : Run Access Fault CheckStatus :=
  db.checkDbInRam (hashLook db data certType)

def checkDbCertInRam (cr : Crypto) (p7Data hash : List UInt8) (verbose : Bool) :
    Run Access Fault CheckStatus :=
  db.checkDbInRam (certLook db cr p7Data hash verbose)

end

/-! ## A search as a whole -/

namespace SigDb

def Follows (db : SigDb) (o o' : ℕ) : Prop :=
  o < db.size ∧ db.signatureListSize o ≤ db.size - o ∧ o' = o + db.signatureListSize o

def IsList (db : SigDb) (o : ℕ) : Prop :=
  Relation.ReflTransGen db.Follows 0 o ∧ o < db.size ∧ db.signatureListSize o ≤ db.size - o

variable {db : SigDb} {look : ℕ → Run Access Fault Bool} {o o' n : ℕ} {r : Access}

lemma listRound_continues :
    Run.Continues (db.listRound look) o o' ↔ db.Follows o o' ∧ (look o).Yields false := by
  unfold Run.Continues listRound Follows
  by_cases hend : db.size ≤ o
  · simp [hend]
  by_cases hfit : db.size - o < db.signatureListSize o
  · simp [hend, hfit]
  · simp only [hend, hfit, if_false, yields_bind, yields_emit, true_and, exists_const]
    constructor
    · rintro ⟨b, hb, h⟩
      cases b with
      | false =>
        rw [if_neg (by decide), yields_pure, Sum.inl.injEq] at h
        exact ⟨⟨by omega, by omega, h.symm⟩, hb⟩
      | true =>
        rw [if_pos rfl, yields_pure] at h
        cases h
    · rintro ⟨⟨-, -, rfl⟩, h⟩
      exact ⟨false, h, by simp⟩

lemma listRound_yields_inr {rc : CheckStatus} : (db.listRound look o).Yields (.inr rc) ↔
      (¬ (o < db.size ∧ db.signatureListSize o ≤ db.size - o) ∧ rc = .dataNotFound) ∨
        (o < db.size ∧ db.signatureListSize o ≤ db.size - o) ∧ (look o).Yields true ∧
          rc = .dataFound := by
  unfold listRound
  by_cases hend : db.size ≤ o
  · have hlt : ¬ o < db.size := by omega
    simp [hend, hlt, eq_comm]
  have hlt : o < db.size := by omega
  by_cases hfit : db.size - o < db.signatureListSize o
  · have hle : ¬ db.signatureListSize o ≤ db.size - o := by omega
    simp [hend, hfit, hle, eq_comm]
  have hle : db.signatureListSize o ≤ db.size - o := by omega
  simp only [hend, hfit, if_false, yields_bind, yields_emit, true_and, exists_const,
    hlt, hle, not_true_eq_false, false_and, false_or]
  constructor
  · rintro ⟨b, hb, h⟩
    cases b with
    | false =>
      rw [if_neg (by decide), yields_pure] at h
      cases h
    | true =>
      rw [if_pos rfl, yields_pure, Sum.inr.injEq] at h
      exact ⟨hb, h.symm⟩
  · rintro ⟨h, rfl⟩
    exact ⟨true, h, by simp⟩

lemma listRound_emits : (db.listRound look o).Emits r ↔ o < db.size ∧ (r = .read (o + 16) 4 ∨
        db.signatureListSize o ≤ db.size - o ∧ (look o).Emits r) := by
  unfold listRound
  by_cases hend : db.size ≤ o
  · have hlt : ¬ o < db.size := by omega
    simp [hend, hlt]
  have hlt : o < db.size := by omega
  by_cases hfit : db.size - o < db.signatureListSize o
  · have hle : ¬ db.signatureListSize o ≤ db.size - o := by omega
    simp [hend, hfit, hle, hlt]
  have hle : db.signatureListSize o ≤ db.size - o := by omega
  simp only [hend, hfit, if_false, emits_bind, emits_emit, yields_emit, true_and,
    exists_const, hlt, hle]
  refine or_congr_right ⟨?_, Or.inl⟩
  rintro (h | ⟨b, -, h⟩)
  · exact h
  · cases b with
    | false => exact absurd h (by simp)
    | true => exact absurd h (by simp)

lemma listRound_variant : Run.Variant (db.listRound look) (db.size - ·) := by
  intro o o' h
  obtain ⟨⟨hlt, hfit, rfl⟩, -⟩ := listRound_continues.mp h
  rcases Nat.eq_zero_or_pos (db.signatureListSize o) with h0 | hpos
  · exact .inl (by omega)
  · exact .inr (by show db.size - _ < db.size - _; omega)

lemma checkDbInRam_yields {rc : CheckStatus} : (db.checkDbInRam look).Yields rc ↔
      (Run.loop (db.listRound look) (db.size + 1) 0).Yields (some rc) := by
  unfold checkDbInRam
  rw [yields_bind]
  constructor
  · rintro ⟨_ | rc', h, h'⟩
    · exact absurd h' yields_fail
    · rw [yields_pure] at h'
      rwa [← h']
  · intro h
    exact ⟨some rc, h, by simp⟩

lemma checkDbInRam_emits : (db.checkDbInRam look).Emits r ↔
      ∃ o, Run.Reaches (db.listRound look) 0 o ∧ (db.listRound look o).Emits r := by
  unfold checkDbInRam
  rw [emits_bind, loop_emits listRound_variant (by omega)]
  refine ⟨?_, Or.inl⟩
  rintro (h | ⟨_ | rc, -, h⟩)
  · exact h
  · exact absurd h emits_fail
  · exact absurd h emits_pure

lemma checkDbInRam_returns_iff : (∃ rc, (db.checkDbInRam look).Yields rc) ↔
      ∀ o, Run.Reaches (db.listRound look) 0 o → o < db.size →
        db.signatureListSize o ≤ db.size - o →
          (∃ b, (look o).Yields b) ∧ ((look o).Yields false → db.signatureListSize o ≠ 0) := by
  simp only [checkDbInRam_yields]
  rw [loop_returns_iff listRound_variant (by omega)]
  refine forall_congr' fun o => forall_congr' fun _ => ?_
  constructor
  · rintro ⟨⟨x, hx⟩, hloop⟩ hlt hfit
    refine ⟨?_, fun hfalse hzero => hloop ?_⟩
    · rcases x with o' | rc
      · exact ⟨false, (listRound_continues.mp hx).2⟩
      · rcases listRound_yields_inr.mp hx with ⟨hend, -⟩ | ⟨-, h, -⟩
        · exact absurd ⟨hlt, hfit⟩ hend
        · exact ⟨true, h⟩
    · exact listRound_continues.mpr ⟨⟨hlt, hfit, by omega⟩, hfalse⟩
  · intro h
    by_cases hin : o < db.size ∧ db.signatureListSize o ≤ db.size - o
    · obtain ⟨⟨b, hb⟩, hzero⟩ := h hin.1 hin.2
      refine ⟨?_, fun hloop => ?_⟩
      · cases b with
        | false => exact ⟨.inl _, listRound_continues.mpr ⟨⟨hin.1, hin.2, rfl⟩, hb⟩⟩
        | true => exact ⟨.inr _, listRound_yields_inr.mpr (.inr ⟨hin, hb, rfl⟩)⟩
      · obtain ⟨⟨-, -, heq⟩, hfalse⟩ := listRound_continues.mp hloop
        exact hzero hfalse (by omega)
    · refine ⟨⟨.inr _, listRound_yields_inr.mpr (.inl ⟨hin, rfl⟩)⟩, fun hloop => ?_⟩
      obtain ⟨⟨hlt, hfit, -⟩, -⟩ := listRound_continues.mp hloop
      exact hin ⟨hlt, hfit⟩

lemma follows_of_reaches (h : Run.Reaches (db.listRound look) 0 o) :
    Relation.ReflTransGen db.Follows 0 o :=
  Relation.ReflTransGen.mono (fun _ _ h => (listRound_continues.mp h).1) _ _ h

lemma checkDbInRam_found (h : (db.checkDbInRam look).Yields .dataFound) :
    ∃ o, db.IsList o ∧ (look o).Yields true := by
  obtain ⟨o, hreach, ho⟩ := reaches_of_loop_yields (checkDbInRam_yields.mp h)
  rcases listRound_yields_inr.mp ho with ⟨-, hrc⟩ | ⟨⟨hlt, hfit⟩, hlook, -⟩
  · cases hrc
  · exact ⟨o, ⟨follows_of_reaches hreach, hlt, hfit⟩, hlook⟩

lemma checkDbInRam_notFound (h : (db.checkDbInRam look).Yields .dataNotFound)
    (ho : db.IsList o) : (look o).Yields false := by
  obtain ⟨hchain, hlt, hfit⟩ := ho
  have hloop : ∃ n, (Run.loop (db.listRound look) n 0).Yields (some .dataNotFound) :=
    ⟨_, checkDbInRam_yields.mp h⟩
  -- along the chain every list sends the loop on to the next one
  have hrest : ∃ n, (Run.loop (db.listRound look) n o).Yields (some .dataNotFound) := by
    clear hlt hfit
    induction hchain with
    | refl => exact hloop
    | tail _ hnext ih =>
      obtain ⟨n, hn⟩ := ih
      cases n with
      | zero =>
        rw [Run.loop, yields_pure] at hn
        cases hn
      | succ n =>
        rcases loop_yields_succ.mp hn with hn | ⟨d, hd, hn⟩
        · rcases listRound_yields_inr.mp hn with ⟨hend, -⟩ | ⟨-, -, hrc⟩
          · exact absurd ⟨hnext.1, hnext.2.1⟩ hend
          · cases hrc
        · have heq := (listRound_continues.mp hd).1.2.2
          rw [hnext.2.2, ← heq]
          exact ⟨n, hn⟩
  obtain ⟨n, hn⟩ := hrest
  cases n with
  | zero =>
    rw [Run.loop, yields_pure] at hn
    cases hn
  | succ n =>
    rcases loop_yields_succ.mp hn with hn | ⟨d, hd, -⟩
    · rcases listRound_yields_inr.mp hn with ⟨hend, -⟩ | ⟨-, -, hrc⟩
      · exact absurd ⟨hlt, hfit⟩ hend
      · cases hrc
    · exact (listRound_continues.mp hd).2

end SigDb

/-! ## One list -/

def Crypto.accepts (cr : Crypto) (p7Data hash cert : List UInt8) : Bool :=
  verifyX509 cert && cr.verifyEku cert && cr.authenticodeVerify p7Data cert hash

namespace SigDb

variable (db : SigDb)

def EntryIs (o i : ℕ) (data : List UInt8) : Prop :=
  db.mem.slice (db.slot o i + 16) data.length = data

def HasHash (data : List UInt8) (certType : Guid) (o : ℕ) : Prop :=
  db.signatureType o = certType ∧ ∃ i < db.certCount o, db.EntryIs o i data

def certSize (o : ℕ) : ℕ := subW 64 (db.signatureSize o) 16

def slotCert (o : ℕ) : List UInt8 := db.mem.slice (db.slot o 0 + 16) (db.certSize o)

def HasCert (cr : Crypto) (p7Data hash : List UInt8) (o : ℕ) : Prop :=
  db.signatureType o = certTypeX509Guid ∧ cr.accepts p7Data hash (db.slotCert o)

end SigDb

section

variable {db : SigDb} {data p7Data hash : List UInt8} {certType : Guid} {cr : Crypto}
  {verbose b : Bool} {o i n cert certSize : ℕ} {r : Access}

lemma scanHash_yields :
    (scanHash db data o n i).Yields b ↔ (b = true ↔ ∃ j < n, db.EntryIs o (i + j) data) := by
  induction n generalizing i with
  | zero => simp [scanHash, eq_comm]
  | succ n ih =>
    have ih' := ih (i := i + 1)
    simp only [Nat.add_right_comm i 1] at ih'
    unfold scanHash
    rw [yields_bind, Nat.exists_lt_succ_left]
    simp only [yields_emit, true_and, exists_const, Nat.add_zero, ← Nat.add_assoc]
    by_cases hentry : db.EntryIs o i data
    · have hif := hentry
      unfold SigDb.EntryIs at hif
      simp only [if_pos hif, hentry, true_or, iff_true]
      simp [eq_comm]
    · have hif := hentry
      unfold SigDb.EntryIs at hif
      simp only [if_neg hif, hentry, false_or]
      exact ih'

lemma scanHash_emits : (scanHash db data o n i).Emits r ↔
      ∃ j < n, (∀ k < j, ¬ db.EntryIs o (i + k) data) ∧
        (r = .read (db.slot o (i + j) + 16) data.length ∨
          db.EntryIs o (i + j) data ∧ r = .read (db.slot o (i + j)) (db.signatureSize o)) := by
  induction n generalizing i with
  | zero => simp [scanHash]
  | succ n ih =>
    have ih' := ih (i := i + 1)
    simp only [Nat.add_right_comm i 1] at ih'
    unfold scanHash
    rw [emits_bind, Nat.exists_lt_succ_left]
    simp only [emits_emit, yields_emit, true_and, exists_const, Nat.not_lt_zero,
      false_implies, implies_true, Nat.add_zero, Nat.forall_lt_succ_left, ← Nat.add_assoc]
    by_cases hentry : db.EntryIs o i data
    · have hif := hentry
      unfold SigDb.EntryIs at hif
      simp only [if_pos hif, hentry, true_and, not_true_eq_false, false_and, and_false,
        exists_false, or_false]
      simp
    · have hif := hentry
      unfold SigDb.EntryIs at hif
      simp only [if_neg hif, hentry, false_and, or_false, not_false_eq_true, true_and]
      exact or_congr_right ih'

lemma hashLook_yields : (hashLook db data certType o).Yields b ↔
      db.signatureSize o ≠ 0 ∧ (b = true ↔ db.HasHash data certType o) := by
  unfold hashLook SigDb.HasHash
  simp only [yields_bind, yields_emit, yields_check, true_and, exists_const]
  refine and_congr_right fun _ => ?_
  by_cases htype : db.signatureType o = certType
  · simp only [htype, if_true, true_and, scanHash_yields, Nat.zero_add]
  · simp [htype, eq_comm]

lemma hashLook_emits : (hashLook db data certType o).Emits r ↔
      r = .read (o + 20) 8 ∨ db.signatureSize o ≠ 0 ∧ (r = .read o 16 ∨
        db.signatureType o = certType ∧ ∃ i < db.certCount o,
          (∀ j < i, ¬ db.EntryIs o j data) ∧ (r = .read (db.slot o i + 16) data.length ∨
            db.EntryIs o i data ∧ r = .read (db.slot o i) (db.signatureSize o))) := by
  unfold hashLook
  simp only [emits_bind, emits_emit, yields_emit, emits_check, yields_check,
    true_and, exists_const, false_or]
  refine or_congr_right (and_congr_right fun _ => or_congr_right ?_)
  by_cases htype : db.signatureType o = certType
  · simp only [htype, if_true, true_and, scanHash_emits, Nat.zero_add]
  · simp [htype]

lemma verifyX509_slice (m : Mem) (cert certSize : ℕ) : verifyX509 (m.slice cert certSize) = true ↔
      4 ≤ certSize ∧ (m cert = 0x30 ∧ m (cert + 1) = 0x82) ∧
        (m (cert + 2)).toNat * 256 + (m (cert + 3)).toNat = certSize - 4 := by
  by_cases hsize : 4 ≤ certSize
  · obtain ⟨k, rfl⟩ := Nat.exists_eq_add_of_le hsize
    have hslice : m.slice cert (4 + k) =
        m cert :: m (cert + 1) :: m (cert + 2) :: m (cert + 3) :: m.slice (cert + 4) k := by
      rw [Mem.slice_add]
      rfl
    rw [hslice]
    simp [verifyX509, and_assoc]
  · simp only [hsize, false_and, iff_false]
    have hlen : (m.slice cert certSize).length < 4 := by simpa using hsize
    match hm : m.slice cert certSize with
    | [] => simp [verifyX509]
    | [_] => simp [verifyX509]
    | [_, _] => simp [verifyX509]
    | [_, _, _] => simp [verifyX509]
    | _ :: _ :: _ :: _ :: _ =>
      rw [hm] at hlen
      simp only [List.length_cons] at hlen
      omega

lemma verifyX509At_yields : (verifyX509At db cert certSize).Yields b ↔
      (b = true ↔ verifyX509 (db.mem.slice cert certSize) = true) := by
  rw [verifyX509_slice]
  unfold verifyX509At
  by_cases hsize : certSize < 4
  · have hle : ¬ 4 ≤ certSize := by omega
    simp [hsize, hle, eq_comm]
  have hle : 4 ≤ certSize := by omega
  simp only [hsize, if_false, hle, true_and, yields_bind, yields_emit, exists_const]
  by_cases hmagic : db.mem cert ≠ 0x30 ∨ db.mem (cert + 1) ≠ 0x82
  · have hmagic' : ¬ (db.mem cert = 0x30 ∧ db.mem (cert + 1) = 0x82) := by tauto
    simp only [if_pos hmagic, hmagic', false_and, yields_pure, iff_false]
    simp [eq_comm]
  have hmagic' : db.mem cert = 0x30 ∧ db.mem (cert + 1) = 0x82 := by tauto
  rw [if_neg hmagic]
  simp only [yields_bind, yields_emit, true_and, exists_const, yields_pure, hmagic']
  cases b with
  | false => simp
  | true => simp

lemma verifyX509At_emits : (verifyX509At db cert certSize).Emits r ↔
      4 ≤ certSize ∧ (r = .read cert 2 ∨
        (db.mem cert = 0x30 ∧ db.mem (cert + 1) = 0x82) ∧ r = .read (cert + 2) 2) := by
  unfold verifyX509At
  by_cases hsize : certSize < 4
  · have hle : ¬ 4 ≤ certSize := by omega
    simp [hsize, hle]
  have hle : 4 ≤ certSize := by omega
  simp only [hsize, if_false, hle, true_and, emits_bind, emits_emit, yields_emit,
    exists_const]
  refine or_congr_right ?_
  by_cases hmagic : db.mem cert ≠ 0x30 ∨ db.mem (cert + 1) ≠ 0x82
  · have hmagic' : ¬ (db.mem cert = 0x30 ∧ db.mem (cert + 1) = 0x82) := by tauto
    simp [hmagic, hmagic']
  · have hmagic' : db.mem cert = 0x30 ∧ db.mem (cert + 1) = 0x82 := by tauto
    simp [hmagic']

lemma certLook_yields :
    (certLook db cr p7Data hash verbose o).Yields b ↔ (b = true ↔ db.HasCert cr p7Data hash o) := by
  unfold certLook SigDb.HasCert Crypto.accepts SigDb.slotCert SigDb.certSize
  simp only [yields_bind, yields_emit, true_and, exists_const]
  by_cases htype : db.signatureType o = certTypeX509Guid
  · simp only [htype, if_true, true_and, yields_bind, yields_emit, exists_const,
      verifyX509At_yields]
    by_cases hx : verifyX509 (db.mem.slice (db.slot o 0 + 16) (subW 64 (db.signatureSize o) 16))
    · simp only [hx, iff_true, exists_eq_left, if_true, yields_bind, yields_emit, true_and,
        exists_const, Bool.true_and]
      split_ifs with hcr
      · simp [hcr, eq_comm]
      · simp only [hcr, yields_pure]
        simp [eq_comm]
    · simp only [hx, Bool.false_eq_true, iff_false, Bool.not_eq_true, exists_eq_left, if_false,
        Bool.false_and]
      cases verbose with
      | false => simp [eq_comm]
      | true => simp [eq_comm]
  · simp only [htype, if_false, yields_pure, false_and, iff_false]
    simp [eq_comm]

lemma certLook_emits : (certLook db cr p7Data hash verbose o).Emits r ↔
      r = .read o 16 ∨ db.signatureType o = certTypeX509Guid ∧ (r = .read (o + 20) 8 ∨
        (verifyX509At db (db.slot o 0 + 16) (db.certSize o)).Emits r ∨
        ((verifyX509 (db.slotCert o) ∨ verbose) ∧ r = .read (db.slot o 0 + 16) (db.certSize o)) ∨
        cr.accepts p7Data hash (db.slotCert o) ∧ r = .read (db.slot o 0) (db.signatureSize o)) := by
  unfold certLook Crypto.accepts SigDb.slotCert SigDb.certSize
  simp only [emits_bind, emits_emit, yields_emit, true_and, exists_const]
  refine or_congr_right ?_
  by_cases htype : db.signatureType o = certTypeX509Guid
  · simp only [htype, if_true, true_and, emits_bind, emits_emit, yields_emit,
      exists_const, verifyX509At_yields]
    refine or_congr_right (or_congr_right ?_)
    by_cases hx : verifyX509 (db.mem.slice (db.slot o 0 + 16) (subW 64 (db.signatureSize o) 16))
    · simp only [hx, iff_true, exists_eq_left, if_true, emits_bind, emits_emit,
        yields_emit, true_and, true_or, exists_const, Bool.true_and]
      refine or_congr_right ?_
      split_ifs with hcr
      · simp [hcr]
      · simp [hcr]
    · simp only [hx, Bool.false_eq_true, iff_false, Bool.not_eq_true, exists_eq_left, if_false,
        Bool.false_and, false_or, false_and, or_false]
      cases verbose with
      | false => simp
      | true => simp
  · simp [htype]

end

end Shim.Verify
