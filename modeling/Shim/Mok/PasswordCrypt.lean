import Shim.Mok.Prompt

/-!
# Hashing a password

An authentication variable names a method, a number of rounds and a salt, and holds the hash that a
password must have. Every read of `match_password` and its callees is an event with the object that is
read and its size. The tables and the rounds of Blowfish are a parameter: they touch arrays of a fixed
size at constant or masked places. So are the digests.

* `matchPwCrypt_inside_iff` — when all reads are inside the objects, whatever is typed.
* `matchPwCrypt_value` — without the reads, the function is the one that the prompts use.
-/

namespace Shim.Mok

open Lib List Run Mem

/-- The objects that are read. -/
inductive Buffer where
  | pwCrypt
  | password
  | pwAscii
  | hash
  | altResult
  | tmpResult
  | pBytes
  | sBytes
  | result
  | flagsBySubtype
  | bfAtoi64
  deriving DecidableEq, Repr

/-- A read of `len` bytes at `off` of an object of `size` bytes. -/
structure Read where
  buffer : Buffer
  size : ℕ
  off : ℕ
  len : ℕ
  deriving DecidableEq, Repr

/-- The read stays in the object. -/
def Read.Inside (r : Read) : Prop := r.off + r.len ≤ r.size

instance (r : Read) : Decidable r.Inside := inferInstanceAs (Decidable (_ ≤ _))

/-- An object with its size; behind it the memory goes on. -/
structure Object where
  buffer : Buffer
  size : ℕ
  bytes : Mem

/-- Read bytes. -/
def Object.read (o : Object) (off len : ℕ) : Run Read Empty (List UInt8) := do
  .emit ⟨o.buffer, o.size, off, len⟩
  return o.bytes.slice off len

/-- Read a number. -/
def Object.load (o : Object) (off w : ℕ) : Run Read Empty ℕ := do
  .emit ⟨o.buffer, o.size, off, w⟩
  return o.bytes.load off w

/-- A hash function with digests of one size. -/
structure Digest where
  size : ℕ
  digest : List UInt8 → List UInt8
  length_digest : ∀ data, (digest data).length = size
  size_pos : 0 < size

/-- `Sha256Update`, on the bytes hashed so far. -/
def update (o : Object) (off len : ℕ) (ctx : List UInt8) : Run Read Empty (List UInt8) :=
  return ctx ++ (← o.read off len)

/-- `Sha256Final` into the buffer `b`. -/
def Digest.final (d : Digest) (b : Buffer) (ctx : List UInt8) : Object :=
  ⟨b, d.size, ofBytes (d.digest ctx)⟩

/-- The sizes of the pieces that a loop takes: `size` bytes as long as there are `more`, then the
rest. -/
def blocks (size : ℕ) (more : ℕ → Bool) : ℕ → ℕ → List ℕ
  | 0, cnt => [cnt]
  | fuel + 1, cnt => if more cnt then size :: blocks size more fuel (cnt - size) else [cnt]

/-- The values of `cnt` in the loop that halves it. -/
def halvings : ℕ → ℕ → List ℕ
  | 0, _ => []
  | fuel + 1, cnt => if 0 < cnt then cnt :: halvings fuel (cnt / 2) else []

section

variable (alloc : Buffer → ℕ → Bool) (d : Digest)

/-- `p_bytes` or `s_bytes`: a buffer of `n` bytes is filled from `tmp_result`. Nobody looks whether
there is a buffer. -/
def fillBytes (b : Buffer) (tmp : Object) (n : ℕ) : Run Read Empty Object := do
  let bytes ← (blocks d.size (d.size ≤ ·) n n).foldlM (fun ctx len => update tmp 0 len ctx) []
  return ⟨b, if alloc b n then n else 0, ofBytes bytes⟩

/-- A round of the last loop. -/
def shaRound (pBytes sBytes : Object) (keyLen saltSize : ℕ) (alt : Object) (cnt : ℕ) :
    Run Read Empty Object := do
  let ctx ← ite (cnt % 2 ≠ 0) (update pBytes 0 keyLen []) (update alt 0 d.size [])
  let ctx ← ite (cnt % 3 ≠ 0) (update sBytes 0 saltSize ctx) (pure ctx)
  let ctx ← ite (cnt % 7 ≠ 0) (update pBytes 0 keyLen ctx) (pure ctx)
  let ctx ← ite (cnt % 2 ≠ 0) (update alt 0 d.size ctx) (update pBytes 0 keyLen ctx)
  return d.final .altResult ctx

/-- `sha256_crypt` and `sha512_crypt`, which differ in their digest. -/
def shaCrypt (key : Object) (keyLen : ℕ) (salt : Object) (saltOff saltSize rounds : ℕ) :
    Run Read Empty (List UInt8) := do
  let ctx ← update key 0 keyLen []
  let ctx ← update salt saltOff saltSize ctx
  let altCtx ← update key 0 keyLen []
  let altCtx ← update salt saltOff saltSize altCtx
  let altCtx ← update key 0 keyLen altCtx
  let alt := d.final .altResult altCtx
  let ctx ← (blocks d.size (d.size < ·) keyLen keyLen).foldlM (fun ctx len => update alt 0 len ctx) ctx
  let ctx ← (halvings keyLen keyLen).foldlM (fun ctx cnt =>
    if cnt % 2 ≠ 0 then update alt 0 d.size ctx else update key 0 keyLen ctx) ctx
  let alt := d.final .altResult ctx
  let altCtx ← (List.range keyLen).foldlM (fun ctx _ => update key 0 keyLen ctx) []
  let pBytes ← fillBytes alloc d .pBytes (d.final .tmpResult altCtx) keyLen
  let first ← alt.load 0 1
  let altCtx ← (List.range (16 + first)).foldlM (fun ctx _ => update salt saltOff saltSize ctx) []
  let sBytes ← fillBytes alloc d .sBytes (d.final .tmpResult altCtx) saltSize
  let alt ← (List.range rounds).foldlM (shaRound d pBytes sBytes keyLen saltSize) alt
  alt.read 0 d.size

end

/-! ## Blowfish -/

/-- The Blowfish tables and rounds. -/
structure Blowfish where
  /-- The 24 bytes of `data.binary.output`, from the salt, the 72 characters of the key, the flags and
  the number of rounds. -/
  output : (salt key : List UInt8) → (flags count : ℕ) → List UInt8
  /-- The test on a fixed key, with the third character of the setting. -/
  selfTest : ℕ → Bool

/-- `BF_itoa64` -/
def bfItoa64 : List UInt8 :=
  "./ABCDEFGHIJKLMNOPQRSTUVWXYZabcdefghijklmnopqrstuvwxyz0123456789".toList.map
    fun c => UInt8.ofNat c.toNat

/-- `BF_atoi64` -/
def bfAtoi64 : List ℕ :=
  [64, 64, 64, 64, 64, 64, 64, 64, 64, 64, 64, 64, 64, 64, 0, 1,
   54, 55, 56, 57, 58, 59, 60, 61, 62, 63, 64, 64, 64, 64, 64, 64,
   64, 2, 3, 4, 5, 6, 7, 8, 9, 10, 11, 12, 13, 14, 15, 16,
   17, 18, 19, 20, 21, 22, 23, 24, 25, 26, 27, 64, 64, 64, 64, 64,
   64, 28, 29, 30, 31, 32, 33, 34, 35, 36, 37, 38, 39, 40, 41, 42,
   43, 44, 45, 46, 47, 48, 49, 50, 51, 52, 53, 64, 64, 64, 64, 64]

/-- `flags_by_subtype` -/
def flagsBySubtype : List ℕ :=
  [2, 0, 0, 0, 0, 0, 0, 0, 0, 0, 0, 0, 0, 0, 0, 0, 0, 0, 0, 0, 0, 0, 0, 1, 4, 0]

/-- `BF_atoi64[i]` -/
def atoi64At (i : ℕ) : Run Read Empty ℕ := do
  .emit ⟨.bfAtoi64, 0x60, i, 1⟩
  return bfAtoi64.getD i 0

/-- `flags_by_subtype[i]` -/
def flagsAt (i : ℕ) : Run Read Empty ℕ := do
  .emit ⟨.flagsBySubtype, 26, i, 1⟩
  return flagsBySubtype.getD i 0

/-- The macro `BF_safe_atoi64`. -/
def bfSafeAtoi64 (c : ℕ) : Run Read Empty (Option ℕ) :=
  let tmp := subW 32 c 0x20
  if 0x60 ≤ tmp then return none
  else do
    let v ← atoi64At tmp
    if 63 < v then return none else return some v

/-- `BF_decode`: the values of `n` characters. -/
def bfDecode (src : Object) (off : ℕ) : ℕ → Run Read Empty (Option (List ℕ))
  | 0 => return some []
  | n + 1 => do
    let c ← src.load off 1
    match ← bfSafeAtoi64 c with
    | none => return none
    | some v =>
      match ← bfDecode src (off + 1) n with
      | none => return none
      | some vs => return some (v :: vs)

/-- The bytes of four characters each. -/
def bfPack : List ℕ → List UInt8
  | c1 :: c2 :: c3 :: c4 :: rest =>
    UInt8.ofNat (c1 * 4 ||| (c2 &&& 0x30) / 16) ::
    UInt8.ofNat ((c2 &&& 0x0f) * 16 ||| (c3 &&& 0x3c) / 4) ::
    UInt8.ofNat ((c3 &&& 0x03) * 64 ||| c4) :: bfPack rest
  | [c1, c2] => [UInt8.ofNat (c1 * 4 ||| (c2 &&& 0x30) / 16)]
  | _ => []

/-- `BF_encode` -/
def bfEncode : List UInt8 → List UInt8
  | a :: b :: c :: rest =>
    bfItoa64.getD (a.toNat / 4) 0 ::
    bfItoa64.getD ((a.toNat &&& 0x03) * 16 ||| b.toNat / 16) 0 ::
    bfItoa64.getD ((b.toNat &&& 0x0f) * 4 ||| c.toNat / 64) 0 ::
    bfItoa64.getD (c.toNat &&& 0x3f) 0 :: bfEncode rest
  | [a, b] =>
    [bfItoa64.getD (a.toNat / 4) 0, bfItoa64.getD ((a.toNat &&& 0x03) * 16 ||| b.toNat / 16) 0,
     bfItoa64.getD ((b.toNat &&& 0x0f) * 4) 0]
  | [a] => [bfItoa64.getD (a.toNat / 4) 0, bfItoa64.getD ((a.toNat &&& 0x03) * 16) 0]
  | [] => []

/-- The characters of the key that `BF_set_key` takes: the key over and over with its NUL. -/
def bfSetKey (key : Object) : ℕ → ℕ → Run Read Empty (List UInt8)
  | 0, _ => return []
  | n + 1, ptr => do
    let c ← key.read ptr 1
    let rest ← bfSetKey key n (if c = [0] then 0 else ptr + 1)
    return c ++ rest

/-- Tests joined by `||`: the first that fails ends them. -/
def allPass : List (Run Read Empty Bool) → Run Read Empty Bool
  | [] => return true
  | test :: tests => do if ← test then allPass tests else return false

/-- A test of one character. -/
def charTest (setting : Object) (off : ℕ) (p : ℕ → Bool) : Run Read Empty Bool :=
  return p (← setting.load off 1)

/-- `flags_by_subtype[setting[2] - 'a']` -/
def subtypeTest (setting : Object) (off : ℕ) : Run Read Empty Bool := do
  let c ← setting.load (off + 2) 1
  let flags ← flagsAt (subW 32 c 0x61)
  return flags ≠ 0

/-- The cost is not above 31. -/
def costTest (setting : Object) (off : ℕ) : Run Read Empty Bool := do
  if ← charTest setting (off + 4) (· = 0x33) then charTest setting (off + 5) (· ≤ 0x31)
  else return true

/-- The tests of `BF_crypt` on the setting. -/
def settingTests (setting : Object) (off : ℕ) : List (Run Read Empty Bool) :=
  let test := fun i p => charTest setting (off + i) p
  [test 0 (· = 0x24), test 1 (· = 0x32), test 2 (0x61 ≤ ·), test 2 (· ≤ 0x7a),
   subtypeTest setting off, test 3 (· = 0x24),
   test 4 (0x30 ≤ ·), test 4 (· ≤ 0x33), test 5 (0x30 ≤ ·), test 5 (· ≤ 0x39),
   costTest setting off, test 6 (· = 0x24)]

/-- `BF_crypt` -/
def bfCrypt (b : Blowfish) (key setting : Object) (off min : ℕ) :
    Run Read Empty (Option (List UInt8)) := do
  if ← allPass (settingTests setting off) then
    let c4 ← setting.load (off + 4) 1
    let c5 ← setting.load (off + 5) 1
    let count := 2 ^ ((c4 - 0x30) * 10 + (c5 - 0x30))
    if count < min then return none
    else
      match ← bfDecode setting (off + 7) 22 with
      | none => return none
      | some cs =>
        let c2 ← setting.load (off + 2) 1
        let flags ← flagsAt (subW 32 c2 0x61)
        let chars ← bfSetKey key 72 0
        let head ← setting.read off 28
        let c28 ← setting.load (off + 28) 1
        let last ← atoi64At (subW 64 c28 0x20)
        return some (head ++ [bfItoa64.getD (last &&& 0x30) 0] ++
          bfEncode ((b.output (bfPack cs) chars flags count).take 23) ++ [0])
  else return none

/-- `_crypt_output_magic` -/
def cryptOutputMagic (setting : Object) (off : ℕ) : Run Read Empty Unit := do
  let c0 ← setting.load off 1
  if c0 = 0x2a then discard <| setting.load (off + 1) 1 else return ()

/-- `crypt_blowfish_rn` -/
def cryptBlowfishRn (b : Blowfish) (key setting : Object) (off : ℕ) :
    Run Read Empty (Option (List UInt8)) := do
  cryptOutputMagic setting off
  match ← bfCrypt b key setting off 16 with
  | none =>
    if b.selfTest 0x61 then return none
    else do
      cryptOutputMagic setting off
      return none
  | some output =>
    let c2 ← setting.load (off + 2) 1
    if b.selfTest c2 then return some output
    else do
      cryptOutputMagic setting off
      return none

/-- `BF_RESULT_SIZE` -/
def bfResultSize : ℕ := 7 + 22 + 31 + 1

/-- `blowfish_crypt` -/
def blowfishCrypt (b : Blowfish) (key setting : Object) (off : ℕ) :
    Run Read Empty (Except EfiStatus (List UInt8)) := do
  match ← cryptBlowfishRn b key setting off with
  | none => return .error .unsupported
  | some output =>
    let result : Object := ⟨.result, bfResultSize, ofBytes output⟩
    return .ok (← result.read (7 + 22) bfResultSize)

/-- The digests, Blowfish and the allocations. -/
structure CryptEnv where
  sha256 : Digest
  sha512 : Digest
  size256 : sha256.size = 32
  size512 : sha512.size = 64
  blowfish : Blowfish
  /-- `AllocatePool` for `p_bytes` and `s_bytes`. -/
  alloc : Buffer → ℕ → Bool

/-- `sha256_crypt` -/
def sha256Crypt (env : CryptEnv) := shaCrypt env.alloc env.sha256

/-- `sha512_crypt` -/
def sha512Crypt (env : CryptEnv) := shaCrypt env.alloc env.sha512

/-- The offset of `salt`. -/
def saltOffset : ℕ := 12

/-- The offset of `hash`. -/
def hashOffset : ℕ := 44

/-- The number of rounds is cut to the 32 bits of a parameter. -/
def passwordCrypt (env : CryptEnv) (password : Object) (pwLength : ℕ) (pwCrypt : Object) :
    Run Read Empty (Except EfiStatus (List UInt8)) := do
  let method ← pwCrypt.load 0 2
  match method with
  | 0 | 1 | 2 => return .error .unsupported
  | 3 => do
    let saltSize ← pwCrypt.load 10 2
    let iterCount ← pwCrypt.load 2 8
    return .ok (← sha256Crypt env password pwLength pwCrypt saltOffset saltSize (iterCount % 2 ^ 32))
  | 4 => do
    let saltSize ← pwCrypt.load 10 2
    let iterCount ← pwCrypt.load 2 8
    return .ok (← sha512Crypt env password pwLength pwCrypt saltOffset saltSize (iterCount % 2 ^ 32))
  | 5 => do
    let saltSize ← pwCrypt.load 10 2
    if saltSize ≠ 7 + 22 + 1 then return .error .invalidParameter
    else blowfishCrypt env.blowfish password pwCrypt saltOffset
  | _ => return .error .invalidParameter

/-- One password that is typed. -/
def pwAttempt (env : CryptEnv) (pwCrypt : Object) (authSize : ℕ) (typed : List UInt16) :
    Run Read Empty Bool :=
  if typed.length < passwordMin ∨ passwordMax < typed.length then return false
  else do
    let password : Object := ⟨.password, 2 * passwordMax, ofBytes (wideBytes (typed.map UInt16.toNat))⟩
    discard <| password.read 0 (2 * typed.length)
    let pwAscii : Object := ⟨.pwAscii, typed.length + 1, ofBytes (asciiBytes typed ++ [0])⟩
    match ← passwordCrypt env pwAscii typed.length pwCrypt with
    | .error _ => return false
    | .ok bytes =>
      let hash : Object := ⟨.hash, 128, ofBytes bytes⟩
      let expected ← pwCrypt.read hashOffset authSize
      let got ← hash.read 0 authSize
      return expected = got

/-- The loop over the attempts. -/
def pwAttempts (attempt : List UInt16 → Run Read Empty Bool) (typed : ℕ → List UInt16) :
    ℕ → ℕ → Run Read Empty EfiStatus
  | 0, _ => return .accessDenied
  | n + 1, k => do
    if ← attempt (typed k) then return .success else pwAttempts attempt typed n (k + 1)

/-- `match_password` with a `PASSWORD_CRYPT`. -/
def matchPwCrypt (env : CryptEnv) (pwCrypt : Object) (typed : ℕ → List UInt16) :
    Run Read Empty EfiStatus := do
  let method ← pwCrypt.load 0 2
  let authSize := getHashSize method
  if authSize = 0 then return .invalidParameter
  else pwAttempts (pwAttempt env pwCrypt authSize) typed 3 0

/-! ## The reads of the SHA methods -/

section

variable {o : Object} {off len w : ℕ} {ctx : List UInt8}

@[simp] lemma only_read : Only Read.Inside (o.read off len) ↔ off + len ≤ o.size := by
  simp [Object.read, Read.Inside]

@[simp] lemma value_read : (o.read off len).value = o.bytes.slice off len := by
  simp [Object.read]

@[simp] lemma only_load : Only Read.Inside (o.load off w) ↔ off + w ≤ o.size := by
  simp [Object.load, Read.Inside]

@[simp] lemma value_load : (o.load off w).value = o.bytes.load off w := by
  simp [Object.load]

@[simp] lemma only_update : Only Read.Inside (update o off len ctx) ↔ off + len ≤ o.size := by
  simp [update]

@[simp] lemma only_updates {l : List ℕ} :
    Only Read.Inside (l.foldlM (fun ctx len => update o 0 len ctx) ctx) ↔ ∀ n ∈ l, n ≤ o.size :=
  only_foldlM_iff (I := fun _ => True) (fun _ _ _ => trivial) (fun _ _ _ => by simp) trivial

@[simp] lemma only_update_range {n : ℕ} :
    Only Read.Inside ((List.range n).foldlM (fun ctx _ => update o off len ctx) ctx) ↔
      (0 < n → off + len ≤ o.size) := by
  rw [only_foldlM_iff (I := fun _ => True) (P := fun _ => off + len ≤ o.size)
    (fun _ _ _ => trivial) (fun _ _ _ => by simp) trivial]
  constructor
  · intro h hn
    exact h 0 (mem_range.mpr hn)
  · intro h k hk
    exact h (Nat.zero_lt_of_lt (mem_range.mp hk))

end

section

variable {d : Digest} {alloc : Buffer → ℕ → Bool} {key salt alt pBytes sBytes tmp : Object}
variable {keyLen saltOff saltSize rounds cnt n : ℕ}

lemma le_of_mem_blocks {size : ℕ} {more : ℕ → Bool} (hmore : ∀ c, more c = false → c ≤ size)
    (hsize : 0 < size) {fuel : ℕ} (hfuel : cnt ≤ fuel) : ∀ k ∈ blocks size more fuel cnt, k ≤ size := by
  induction fuel generalizing cnt with
  | zero =>
    intro k hk
    rw [mem_singleton.mp hk]
    omega
  | succ fuel ih =>
    rw [blocks]
    split
    · intro k hk
      rcases mem_cons.mp hk with rfl | hk
      · exact Nat.le_refl _
      · exact ih (by omega) k hk
    · intro k hk
      rw [mem_singleton.mp hk]
      exact hmore cnt (Bool.eq_false_of_not_eq_true ‹_›)

lemma only_fillBytes (htmp : tmp.size = d.size) {b : Buffer} :
    Only Read.Inside (fillBytes alloc d b tmp n) := by
  simp only [fillBytes, only_bind, only_updates, only_pure, and_true]
  rw [htmp]
  exact le_of_mem_blocks (fun c hc => by simp at hc; omega) d.size_pos (Nat.le_refl _)

@[simp] lemma size_fillBytes {b : Buffer} :
    (fillBytes alloc d b tmp n).value.size = if alloc b n then n else 0 := by
  simp [fillBytes]

lemma size_shaRound : (shaRound d pBytes sBytes keyLen saltSize alt cnt).value.size = d.size := by
  simp [shaRound, Digest.final]

lemma only_shaRound (halt : alt.size = d.size) :
    Only Read.Inside (shaRound d pBytes sBytes keyLen saltSize alt cnt) ↔
      keyLen ≤ pBytes.size ∧ (cnt % 3 ≠ 0 → saltSize ≤ sBytes.size) := by
  simp only [shaRound, only_bind, only_ite, only_update, only_pure, halt]
  by_cases h2 : cnt % 2 = 0
  · simp [h2]
    tauto
  · simp [h2]
    tauto

lemma only_shaRounds (halt : alt.size = d.size) : Only Read.Inside
        ((List.range rounds).foldlM (shaRound d pBytes sBytes keyLen saltSize) alt) ↔
      (0 < rounds → keyLen ≤ pBytes.size) ∧ (1 < rounds → saltSize ≤ sBytes.size) := by
  have hround : ∀ (o : Object) (cnt : ℕ), o.size = d.size →
      (Only Read.Inside (shaRound d pBytes sBytes keyLen saltSize o cnt) ↔
        keyLen ≤ pBytes.size ∧ (cnt % 3 ≠ 0 → saltSize ≤ sBytes.size)) :=
    fun o cnt h => only_shaRound h
  rw [only_foldlM_iff (fun _ _ _ => size_shaRound) hround halt]
  constructor
  · intro h
    refine ⟨fun hpos => (h 0 (mem_range.mpr hpos)).1, fun hone => ?_⟩
    exact (h 1 (mem_range.mpr hone)).2 (by decide)
  · rintro ⟨hp, hs⟩ cnt hcnt
    have hlt := mem_range.mp hcnt
    exact ⟨hp (by omega), fun h3 => hs (by omega)⟩

lemma size_shaRounds (halt : alt.size = d.size) :
    ((List.range rounds).foldlM (shaRound d pBytes sBytes keyLen saltSize) alt).value.size =
      d.size :=
  value_foldlM (I := fun o : Object => o.size = d.size) (fun _ _ _ => size_shaRound) halt

lemma only_halvings {ctx : List UInt8} (hkey : keyLen ≤ key.size) (halt : alt.size = d.size)
    (l : List ℕ) :
    Only Read.Inside (l.foldlM (fun ctx cnt =>
      if cnt % 2 ≠ 0 then update alt 0 d.size ctx else update key 0 keyLen ctx) ctx) := by
  rw [only_foldlM_iff (I := fun _ => True) (P := fun _ => True) (fun _ _ _ => trivial) ?_ trivial]
  · exact fun _ _ => trivial
  · intro ctx cnt _
    simp [only_ite, halt, hkey]

/-- A SHA method reads inside its objects iff key and salt do, and there is memory for the copies.
-/
theorem shaCrypt_inside_iff (hkey : keyLen ≤ key.size) (hpos : 0 < keyLen) :
    Only Read.Inside (shaCrypt alloc d key keyLen salt saltOff saltSize rounds) ↔
      saltOff + saltSize ≤ salt.size ∧ (0 < rounds → alloc .pBytes keyLen = true) ∧
      (1 < rounds → saltSize = 0 ∨ alloc .sBytes saltSize = true) := by
  have hblocks : ∀ k ∈ blocks d.size (d.size < ·) keyLen keyLen, k ≤ d.size :=
    le_of_mem_blocks (fun c hc => by simpa using hc) d.size_pos (Nat.le_refl _)
  have hfill : ∀ b n, n ≤ (if alloc b n then n else 0) ↔ n = 0 ∨ alloc b n = true := by
    intro b n
    split <;> simp [*]
  have hfinal : ∀ b ctx, (d.final b ctx).size = d.size := fun _ _ => rfl
  have hsize := d.size_pos
  simp only [shaCrypt, only_bind, only_update, only_updates, only_halvings hkey (hfinal _ _),
    only_update_range, only_fillBytes (hfinal _ _), only_load, only_shaRounds (hfinal _ _),
    size_fillBytes, only_read, size_shaRounds (hfinal _ _), hfinal, hfill, Nat.zero_add, hkey,
    hpos.ne', false_or, true_and, Nat.le_refl, and_true]
  constructor
  · rintro ⟨hsalt, -, -, -, -, -, hp, hs⟩
    exact ⟨hsalt, hp, hs⟩
  · rintro ⟨hsalt, hp, hs⟩
    exact ⟨hsalt, hsalt, hblocks, fun _ => trivial, hsize, fun _ => hsalt, hp, hs⟩

end

/-! ## The reads of Blowfish -/

/-- A character of the alphabet of the salt: a dot, a slash, a digit or a letter. -/
def IsBf64 (c : ℕ) : Prop := (0x2e ≤ c ∧ c ≤ 0x39) ∨ (0x41 ≤ c ∧ c ≤ 0x5a) ∨ (0x61 ≤ c ∧ c ≤ 0x7a)

instance (c : ℕ) : Decidable (IsBf64 c) := inferInstanceAs (Decidable (_ ∨ _ ∨ _))

lemma IsBf64.bounds {c : ℕ} (h : IsBf64 c) : 0x20 ≤ c ∧ c < 0x80 := by
  unfold IsBf64 at h
  omega

/-- The setting passes the tests of its first characters. -/
structure HeadValid (c : ℕ → ℕ) : Prop where
  dollar0 : c 0 = 0x24
  two : c 1 = 0x32
  subtype : c 2 = 0x61 ∨ c 2 = 0x78 ∨ c 2 = 0x79
  dollar3 : c 3 = 0x24
  tens : 0x30 ≤ c 4 ∧ c 4 ≤ 0x33
  units : 0x30 ≤ c 5 ∧ c 5 ≤ 0x39
  cost_le : (c 4 - 0x30) * 10 + (c 5 - 0x30) ≤ 31
  dollar6 : c 6 = 0x24

/-- Blowfish accepts the setting. -/
structure SettingValid (c : ℕ → ℕ) : Prop extends HeadValid c where
  le_cost : 4 ≤ (c 4 - 0x30) * 10 + (c 5 - 0x30)
  salt : ∀ i < 22, IsBf64 (c (7 + i))

section

variable {b : Blowfish} {key setting : Object} {off keyLen n : ℕ}

/-- A character of the setting. -/
def settingChar (setting : Object) (off i : ℕ) : ℕ := (setting.bytes (off + i)).toNat

section

variable {c : ℕ} {t : Run Read Empty Bool} {ts : List (Run Read Empty Bool)} {p : ℕ → Bool}

lemma settingChar_lt (i : ℕ) : settingChar setting off i < 256 := (setting.bytes _).toNat_lt

@[simp] lemma load_settingChar {i : ℕ} :
    setting.bytes.load (off + i) 1 = settingChar setting off i := by
  simp [Mem.load, settingChar]

@[simp] lemma only_atoi64At {i : ℕ} : Only Read.Inside (atoi64At i) ↔ i < 0x60 := by
  simp [atoi64At, Read.Inside]

@[simp] lemma only_flagsAt {i : ℕ} : Only Read.Inside (flagsAt i) ↔ i < 26 := by
  simp [flagsAt, Read.Inside]

@[simp] lemma value_flagsAt {i : ℕ} : (flagsAt i).value = flagsBySubtype.getD i 0 := by
  simp [flagsAt]

@[simp] lemma only_bfSafeAtoi64 : Only Read.Inside (bfSafeAtoi64 c) := by
  simp only [bfSafeAtoi64, only_ite, only_bind, only_atoi64At, only_pure]
  simp

lemma isSome_bfSafeAtoi64 (hc : c < 256) : (bfSafeAtoi64 c).value.isSome = true ↔ IsBf64 c := by
  have : ∀ c : Fin 256, (bfSafeAtoi64 c).value.isSome = true ↔ IsBf64 c := by decide +kernel
  exact this ⟨c, hc⟩

lemma only_bfDecode (h : off + n ≤ setting.size) : Only Read.Inside (bfDecode setting off n) := by
  induction n generalizing off with
  | zero => exact only_pure
  | succ n ih =>
    have hrest : Only Read.Inside (bfDecode setting (off + 1) n) := ih (by omega)
    rw [bfDecode, only_bind, only_bind]
    refine ⟨only_load.mpr (by omega), only_bfSafeAtoi64, ?_⟩
    split
    · exact only_pure
    · rw [only_bind]
      refine ⟨hrest, ?_⟩
      split <;> exact only_pure

lemma isSome_bfDecode : (bfDecode setting off n).value.isSome = true ↔
      ∀ i < n, IsBf64 (settingChar setting off i) := by
  induction n generalizing off with
  | zero => simp [bfDecode]
  | succ n ih =>
    have hchar : (setting.load off 1).value = settingChar setting off 0 := by
      simp [Mem.load, settingChar]
    have hnext : ∀ i, settingChar setting off (i + 1) = settingChar setting (off + 1) i := by
      intro i
      rw [settingChar, settingChar, Nat.add_right_comm, Nat.add_assoc off i 1]
    rw [Nat.forall_lt_succ_left']
    simp only [hnext]
    rw [← ih, ← isSome_bfSafeAtoi64 (settingChar_lt 0), bfDecode, value_bind, value_bind,
      hchar]
    cases (bfSafeAtoi64 (settingChar setting off 0)).value with
    | none => simp
    | some v =>
      simp only [value_bind, Option.isSome_some, true_and]
      cases (bfDecode setting (off + 1) n).value with
      | none => simp
      | some vs => simp

/-! ### The tests of a setting -/

lemma only_allPass_cons {E : Read → Prop} :
    Run.Only E (allPass (t :: ts)) ↔ Run.Only E t ∧ (t.value = true → Run.Only E (allPass ts)) := by
  rw [allPass, only_bind, only_ite]
  simp

lemma value_allPass_cons :
    (allPass (t :: ts)).value = true ↔ t.value = true ∧ (allPass ts).value = true := by
  rw [allPass, value_bind]
  cases t.value <;> simp

@[simp] lemma only_charTest :
    Only Read.Inside (charTest setting off p) ↔ off + 1 ≤ setting.size := by
  simp [charTest]

@[simp] lemma value_charTest {i : ℕ} :
    (charTest setting (off + i) p).value = p (settingChar setting off i) := by
  simp [charTest]

end

lemma only_subtypeTest (hin : off + 2 + 1 ≤ setting.size)
    (hlo : 0x61 ≤ settingChar setting off 2) (hhi : settingChar setting off 2 ≤ 0x7a) :
    Only Read.Inside (subtypeTest setting off) := by
  simp only [subtypeTest, only_bind, only_load, value_load, load_settingChar, only_flagsAt,
    only_pure, and_true]
  rw [subW_of_le (by omega) hlo]
  exact ⟨hin, by omega⟩

lemma value_subtypeTest (hlo : 0x61 ≤ settingChar setting off 2)
    (hhi : settingChar setting off 2 ≤ 0x7a) :
    (subtypeTest setting off).value = true ↔
      settingChar setting off 2 = 0x61 ∨ settingChar setting off 2 = 0x78 ∨
        settingChar setting off 2 = 0x79 := by
  have hall : ∀ i : Fin 26, flagsBySubtype.getD i 0 ≠ 0 ↔
      i.val + 0x61 = 0x61 ∨ i.val + 0x61 = 0x78 ∨ i.val + 0x61 = 0x79 := by decide
  have hc := hall ⟨settingChar setting off 2 - 0x61, by omega⟩
  simp only [Nat.sub_add_cancel hlo] at hc
  simp only [subtypeTest, value_bind, value_load, load_settingChar, value_flagsAt,
    value_pure, decide_eq_true_eq]
  rw [subW_of_le (by omega) hlo]
  exact hc

lemma only_costTest (h4 : off + 4 + 1 ≤ setting.size) (h5 : off + 5 + 1 ≤ setting.size) :
    Only Read.Inside (costTest setting off) := by
  simp [costTest, only_ite, h4, h5]

lemma value_costTest : (costTest setting off).value = true ↔
      (settingChar setting off 4 = 0x33 → settingChar setting off 5 ≤ 0x31) := by
  rw [costTest, value_bind, value_charTest, value_ite, value_charTest]
  by_cases h : settingChar setting off 4 = 0x33 <;> simp [h]

lemma only_settingTests (h : off + 29 ≤ setting.size) :
    Only Read.Inside (allPass (settingTests setting off)) := by
  have hin : ∀ i < 29, off + i + 1 ≤ setting.size := fun i hi => by omega
  simp only [settingTests, only_allPass_cons, only_charTest, value_charTest, decide_eq_true_eq]
  -- the table of the flags is read for a letter only
  exact ⟨hin 0 (by omega), fun _ => ⟨hin 1 (by omega), fun _ => ⟨hin 2 (by omega), fun hlo =>
    ⟨hin 2 (by omega), fun hhi => ⟨only_subtypeTest (hin 2 (by omega)) hlo hhi, fun _ =>
    ⟨hin 3 (by omega), fun _ => ⟨hin 4 (by omega), fun _ => ⟨hin 4 (by omega), fun _ =>
    ⟨hin 5 (by omega), fun _ => ⟨hin 5 (by omega), fun _ =>
    ⟨only_costTest (hin 4 (by omega)) (hin 5 (by omega)), fun _ =>
    ⟨hin 6 (by omega), fun _ => only_pure⟩⟩⟩⟩⟩⟩⟩⟩⟩⟩⟩⟩

lemma value_settingTests :
    (allPass (settingTests setting off)).value = true ↔ HeadValid (settingChar setting off) := by
  have hnil : (allPass []).value = true := rfl
  simp only [settingTests, value_allPass_cons, value_charTest, decide_eq_true_eq, value_costTest,
    hnil]
  constructor
  · rintro ⟨h0, h1, hlo, hhi, h2, h3, h4, h4', h5, h5', hcost, h6, -⟩
    exact ⟨h0, h1, (value_subtypeTest hlo hhi).mp h2, h3, ⟨h4, h4'⟩, ⟨h5, h5'⟩, by omega, h6⟩
  · intro h
    have hsub := h.subtype
    have hcost := h.cost_le
    have h5 := h.units
    have hlo : 0x61 ≤ settingChar setting off 2 := by omega
    have hhi : settingChar setting off 2 ≤ 0x7a := by omega
    exact ⟨h.dollar0, h.two, hlo, hhi, (value_subtypeTest hlo hhi).mpr hsub, h.dollar3, h.tens.1,
      h.tens.2, h5.1, h5.2, by omega, h.dollar6, trivial⟩

lemma settingChar_add (i j : ℕ) :
    settingChar setting (off + i) j = settingChar setting off (i + j) := by
  rw [settingChar, settingChar, Nat.add_assoc]

lemma isSome_bfCrypt : (bfCrypt b key setting off 16).value.isSome = true ↔
      SettingValid (settingChar setting off) := by
  have hcount : ∀ k, 2 ^ k < 16 ↔ k < 4 := by
    intro k
    exact Nat.pow_lt_pow_iff_right (a := 2) (n := k) (m := 4) (by decide)
  have hdecode : (bfDecode setting (off + 7) 22).value.isSome = true ↔
      ∀ i < 22, IsBf64 (settingChar setting off (7 + i)) := by
    simp only [isSome_bfDecode, settingChar_add]
  rw [bfCrypt, value_bind]
  by_cases htests : (allPass (settingTests setting off)).value = true
  · have hhead := value_settingTests.mp htests
    simp only [htests, if_true, value_bind, value_load, load_settingChar, value_ite, hcount]
    split
    · have hle : ¬ SettingValid (settingChar setting off) := fun h => by
        have := h.le_cost
        omega
      simp [hle]
    cases hcs : (bfDecode setting (off + 7) 22).value with
    | none =>
      have hsalt : ¬ SettingValid (settingChar setting off) := fun h => by
        have := hdecode.mpr h.salt
        simp [hcs] at this
      simp [hsalt]
    | some cs =>
      have hsalt := hdecode.mp (by rw [hcs]; rfl)
      simp only [value_bind, value_pure, Option.isSome_some, true_iff]
      exact ⟨hhead, by omega, hsalt⟩
  · have hhead : ¬ SettingValid (settingChar setting off) := fun h =>
      htests (value_settingTests.mpr h.toHeadValid)
    simp [htests, hhead]

lemma only_bfSetKey (hsize : keyLen < key.size) (hnul : key.bytes keyLen = 0) {ptr : ℕ}
    (hptr : ptr ≤ keyLen) : Only Read.Inside (bfSetKey key n ptr) := by
  induction n generalizing ptr with
  | zero => exact only_pure
  | succ n ih =>
    rw [bfSetKey, only_bind, only_bind, only_read]
    refine ⟨by omega, ih ?_, only_pure⟩
    split
    · exact Nat.zero_le _
    rename_i hne
    have : ptr ≠ keyLen := by
      rintro rfl
      apply hne
      simp [slice, hnul]
    omega

section

variable (hin : off + 29 ≤ setting.size)
include hin

lemma only_bfCrypt (hsize : keyLen < key.size)
    (hnul : key.bytes keyLen = 0) {min : ℕ} :
    Only Read.Inside (bfCrypt b key setting off min) := by
  rw [bfCrypt, only_bind, only_ite]
  refine ⟨only_settingTests hin, fun htests => ?_, fun _ => only_pure⟩
  have hsub := (value_settingTests.mp htests).subtype
  simp only [only_bind, only_load, only_ite, only_pure, implies_true, true_and]
  refine ⟨by omega, by omega, fun _ => ⟨only_bfDecode (by omega), ?_⟩⟩
  cases hcs : (bfDecode setting (off + 7) 22).value with
  | none => exact only_pure
  | some cs =>
    have hsalt : IsBf64 (settingChar setting (off + 7) 21) :=
      isSome_bfDecode.mp (by rw [hcs]; rfl) 21 (by decide)
    rw [settingChar_add] at hsalt
    have hlast := hsalt.bounds
    simp only [only_bind, only_load, value_load, load_settingChar, only_flagsAt, only_read,
      only_atoi64At, only_pure, and_true]
    have h2 : subW 32 (settingChar setting off 2) 0x61 < 26 := by
      rw [subW_of_le (by omega) (by omega)]
      omega
    have h28 : subW 64 (settingChar setting off 28) 0x20 < 0x60 := by
      rw [subW_of_le (by omega) hlast.1]
      omega
    exact ⟨by omega, h2, only_bfSetKey hsize hnul (Nat.zero_le _), by omega, by omega, h28⟩

lemma only_cryptOutputMagic : Only Read.Inside (cryptOutputMagic setting off) := by
  simp only [cryptOutputMagic, only_bind, only_ite, only_load, only_pure,
    only_discard]
  exact ⟨by omega, fun _ => by omega, fun _ => trivial⟩

lemma only_cryptBlowfishRn (hsize : keyLen < key.size)
    (hnul : key.bytes keyLen = 0) :
    Only Read.Inside (cryptBlowfishRn b key setting off) := by
  have hmagic := only_cryptOutputMagic hin
  rw [cryptBlowfishRn, only_bind, only_bind]
  refine ⟨hmagic, only_bfCrypt hin hsize hnul, ?_⟩
  split
  · simp [only_ite, hmagic]
  · simp [only_ite, hmagic]
    omega

end

lemma isSome_cryptBlowfishRn : (cryptBlowfishRn b key setting off).value.isSome = true ↔
      SettingValid (settingChar setting off) ∧ b.selfTest (settingChar setting off 2) = true := by
  have hcrypt : (bfCrypt b key setting off 16).value.isSome = true ↔
      SettingValid (settingChar setting off) := isSome_bfCrypt
  rw [cryptBlowfishRn, value_bind, value_bind, ← hcrypt]
  cases (bfCrypt b key setting off 16).value with
  | none => simp [value_ite]
  | some output => simp [value_ite]

/-- The copy of the hash reads 61 bytes from the middle of 61 bytes, so the reads are inside iff
there is no hash. -/
theorem blowfishCrypt_inside_iff (hin : off + 29 ≤ setting.size) (hsize : keyLen < key.size)
    (hnul : key.bytes keyLen = 0) :
    Only Read.Inside (blowfishCrypt b key setting off) ↔
      ¬ (SettingValid (settingChar setting off) ∧ b.selfTest (settingChar setting off 2) = true) := by
  have hsome : (cryptBlowfishRn b key setting off).value.isSome = true ↔
      SettingValid (settingChar setting off) ∧ b.selfTest (settingChar setting off 2) = true :=
    isSome_cryptBlowfishRn
  rw [← hsome, blowfishCrypt, only_bind]
  cases (cryptBlowfishRn b key setting off).value with
  | none => simp [only_cryptBlowfishRn hin hsize hnul]
  | some output => simp [bfResultSize]

end

/-! ## The reads of `match_password` -/

/-- `iter_count`, as the methods get it. -/
def cryptRounds (pw : Mem) : ℕ := pw.u64 2 % 2 ^ 32

/-- `salt_size` -/
def cryptSaltSize (pw : Mem) : ℕ := pw.u16 10

/-- A character of `salt`. -/
def cryptSaltChar (pw : Mem) (i : ℕ) : ℕ := (pw (saltOffset + i)).toNat

/-- A SHA method needs a salt that ends inside the structure, and memory for the copies that its
rounds read; Blowfish must not accept the salt. -/
structure CryptSafe (env : CryptEnv) (pw : Mem) (pwLength : ℕ) : Prop where
  salt : pw.u16 0 = 3 ∨ pw.u16 0 = 4 → cryptSaltSize pw ≤ 160
  pBytes : pw.u16 0 = 3 ∨ pw.u16 0 = 4 → 0 < cryptRounds pw → env.alloc .pBytes pwLength = true
  sBytes : pw.u16 0 = 3 ∨ pw.u16 0 = 4 → 1 < cryptRounds pw →
    cryptSaltSize pw = 0 ∨ env.alloc .sBytes (cryptSaltSize pw) = true
  blowfish : pw.u16 0 = 5 → cryptSaltSize pw = 30 →
    ¬ (SettingValid (cryptSaltChar pw) ∧ env.blowfish.selfTest (cryptSaltChar pw 2) = true)

/-- A variable of the right size. -/
def pwCryptObject (pw : Mem) : Object := ⟨.pwCrypt, passwordCryptSize, pw⟩

section

variable {env : CryptEnv} {pw : Mem} {password : Object} {pwLength : ℕ}

lemma cryptSafe_of_method (h3 : pw.u16 0 ≠ 3) (h4 : pw.u16 0 ≠ 4) (h5 : pw.u16 0 ≠ 5) :
    CryptSafe env pw pwLength where
  salt h := absurd h (not_or.mpr ⟨h3, h4⟩)
  pBytes h := absurd h (not_or.mpr ⟨h3, h4⟩)
  sBytes h := absurd h (not_or.mpr ⟨h3, h4⟩)
  blowfish h := absurd h h5

lemma shaMethod_inside_iff {d : Digest} (hmethod : pw.u16 0 = 3 ∨ pw.u16 0 = 4)
    (hsize : pwLength < password.size) (hpos : 0 < pwLength) :
    Only Read.Inside (shaCrypt env.alloc d password pwLength (pwCryptObject pw) saltOffset
        (cryptSaltSize pw) (cryptRounds pw)) ↔ CryptSafe env pw pwLength := by
  have h5 : pw.u16 0 ≠ 5 := by omega
  have hsalt : saltOffset + cryptSaltSize pw ≤ (pwCryptObject pw).size ↔ cryptSaltSize pw ≤ 160 := by
    show 12 + cryptSaltSize pw ≤ 172 ↔ _
    omega
  rw [shaCrypt_inside_iff hsize.le hpos, hsalt]
  constructor
  · rintro ⟨hs, hp, hb⟩
    exact ⟨fun _ => hs, fun _ => hp, fun _ => hb, fun h => absurd h h5⟩
  · intro h
    exact ⟨h.salt hmethod, h.pBytes hmethod, h.sBytes hmethod⟩

lemma blowfishMethod_inside_iff (hmethod : pw.u16 0 = 5) (hsaltSize : cryptSaltSize pw = 30)
    (hsize : pwLength < password.size) (hnul : password.bytes pwLength = 0) :
    Only Read.Inside (blowfishCrypt env.blowfish password (pwCryptObject pw) saltOffset) ↔
      CryptSafe env pw pwLength := by
  have hsha : ¬ (pw.u16 0 = 3 ∨ pw.u16 0 = 4) := by omega
  have hin : saltOffset + 29 ≤ (pwCryptObject pw).size := show 12 + 29 ≤ 172 by decide
  rw [blowfishCrypt_inside_iff hin hsize hnul]
  constructor
  · intro h
    exact ⟨fun hm => absurd hm hsha, fun hm => absurd hm hsha, fun hm => absurd hm hsha, fun _ _ => h⟩
  · intro h
    exact h.blowfish hmethod hsaltSize

lemma passwordCrypt_inside_iff (hsize : pwLength < password.size)
    (hnul : password.bytes pwLength = 0) (hpos : 0 < pwLength) :
    Only Read.Inside (passwordCrypt env password pwLength (pwCryptObject pw)) ↔
      CryptSafe env pw pwLength := by
  have hin : ∀ {off w : ℕ}, off + w ≤ passwordCryptSize →
      Only Read.Inside ((pwCryptObject pw).load off w) := fun h => only_load.mpr h
  have hmethod : ((pwCryptObject pw).load 0 2).value = pw.u16 0 := value_load
  have hsaltSize : ((pwCryptObject pw).load 10 2).value = cryptSaltSize pw := value_load
  have hiter : ((pwCryptObject pw).load 2 8).value = pw.u64 2 := value_load
  rw [passwordCrypt, only_bind, hmethod]
  simp only [hin (show 0 + 2 ≤ passwordCryptSize by decide), true_and]
  split
  case h_4 h =>
    simp only [only_bind, only_pure, hin (show 10 + 2 ≤ passwordCryptSize by decide),
      hin (show 2 + 8 ≤ passwordCryptSize by decide), hsaltSize, hiter, true_and, and_true]
    exact shaMethod_inside_iff (.inl h) hsize hpos
  case h_5 h =>
    simp only [only_bind, only_pure, hin (show 10 + 2 ≤ passwordCryptSize by decide),
      hin (show 2 + 8 ≤ passwordCryptSize by decide), hsaltSize, hiter, true_and, and_true]
    exact shaMethod_inside_iff (.inr h) hsize hpos
  case h_6 h =>
    simp only [only_bind, hin (show 10 + 2 ≤ passwordCryptSize by decide), hsaltSize, true_and]
    by_cases h30 : cryptSaltSize pw = 30
    · rw [if_neg (by omega)]
      exact blowfishMethod_inside_iff h h30 hsize hnul
    rw [if_pos (by omega)]
    have hsafe : CryptSafe env pw pwLength :=
      ⟨fun hm => by omega, fun hm => by omega, fun hm => by omega, fun _ h' => absurd h' h30⟩
    simp [hsafe]
  case h_7 h0 h1 h2 h3 h4 h5 =>
    have hsafe : CryptSafe env pw pwLength := cryptSafe_of_method h3 h4 h5
    simp [hsafe]
  all_goals
    rename_i h
    have hsafe : CryptSafe env pw pwLength := cryptSafe_of_method (by omega) (by omega) (by omega)
    simp [hsafe]

lemma getHashSize_le (method : ℕ) : getHashSize method ≤ 64 := by
  unfold getHashSize
  split_ifs <;> omega

lemma getHashSize_eq_zero {method : ℕ} :
    getHashSize method = 0 ↔ method ≠ 3 ∧ method ≠ 4 ∧ method ≠ 5 := by
  unfold getHashSize
  split_ifs <;> simp_all

lemma pwAttempt_inside_iff {typed : List UInt16} {authSize : ℕ} (hauth : authSize ≤ 64)
    (hmin : passwordMin ≤ typed.length) (hmax : typed.length ≤ passwordMax) :
    Only Read.Inside (pwAttempt env (pwCryptObject pw) authSize typed) ↔
      CryptSafe env pw typed.length := by
  have hlength : ¬ (typed.length < passwordMin ∨ passwordMax < typed.length) := by omega
  have hread : Only Read.Inside ((pwCryptObject pw).read hashOffset authSize) := by
    rw [only_read]
    show 44 + authSize ≤ 172
    omega
  have hascii : (asciiBytes typed).length = typed.length := length_map _
  have hnul : ofBytes (asciiBytes typed ++ [0]) typed.length = 0 := by
    rw [ofBytes, ← hascii]
    simp
  rw [pwAttempt, if_neg hlength]
  simp only [only_bind, only_discard, only_read, Nat.zero_add]
  rw [passwordCrypt_inside_iff (Nat.lt_succ_self _) hnul hmin]
  constructor
  · rintro ⟨-, h, -⟩
    exact h
  · intro h
    refine ⟨by omega, h, ?_⟩
    split
    · exact only_pure
    · simp only [only_bind, hread, only_read, only_pure, true_and, and_true]
      omega

lemma only_pwAttempt {authSize : ℕ} (hauth : authSize ≤ 64)
    (hsafe : ∀ n, passwordMin ≤ n → n ≤ passwordMax → CryptSafe env pw n) (typed : List UInt16) :
    Only Read.Inside (pwAttempt env (pwCryptObject pw) authSize typed) := by
  by_cases hlength : typed.length < passwordMin ∨ passwordMax < typed.length
  · rw [pwAttempt, if_pos hlength]
    exact only_pure
  · rw [not_or, Nat.not_lt, Nat.not_lt] at hlength
    exact (pwAttempt_inside_iff hauth hlength.1 hlength.2).mpr (hsafe _ hlength.1 hlength.2)

lemma only_pwAttempts {attempt : List UInt16 → Run Read Empty Bool}
    (h : ∀ typed, Only Read.Inside (attempt typed)) (typed : ℕ → List UInt16) (n k : ℕ) :
    Only Read.Inside (pwAttempts attempt typed n k) := by
  induction n generalizing k with
  | zero => exact only_pure
  | succ n ih =>
    rw [pwAttempts, only_bind, only_ite]
    exact ⟨h _, fun _ => only_pure, fun _ => ih (k + 1)⟩

lemma only_matchPwCrypt_iff (typed : ℕ → List UInt16) :
    Only Read.Inside (matchPwCrypt env (pwCryptObject pw) typed) ↔
      (getHashSize (pw.u16 0) ≠ 0 → Only Read.Inside
        (pwAttempts (pwAttempt env (pwCryptObject pw) (getHashSize (pw.u16 0))) typed 3 0)) := by
  have hmethod : ((pwCryptObject pw).load 0 2).value = pw.u16 0 := value_load
  have hin : Only Read.Inside ((pwCryptObject pw).load 0 2) :=
    only_load.mpr (show 0 + 2 ≤ 172 by decide)
  rw [matchPwCrypt, only_bind, hmethod]
  simp only [hin, true_and, only_ite, only_pure, implies_true, ne_eq]

lemma cryptSafe_of_matchPwCrypt {typed : ℕ → List UInt16}
    (hmin : passwordMin ≤ (typed 0).length) (hmax : (typed 0).length ≤ passwordMax)
    (h : Only Read.Inside (matchPwCrypt env (pwCryptObject pw) typed)) :
    CryptSafe env pw (typed 0).length := by
  by_cases hzero : getHashSize (pw.u16 0) = 0
  · obtain ⟨h3, h4, h5⟩ := getHashSize_eq_zero.mp hzero
    exact cryptSafe_of_method h3 h4 h5
  · have hloop := (only_matchPwCrypt_iff typed).mp h hzero
    rw [pwAttempts, only_bind] at hloop
    exact (pwAttempt_inside_iff (getHashSize_le _) hmin hmax).mp hloop.1

end

/-! ## Without the reads -/

/-- What `password_crypt` returns. -/
def hashBytes (env : CryptEnv) (password pw : List UInt8) : Except EfiStatus (List UInt8) :=
  (passwordCrypt env ⟨.pwAscii, password.length + 1, ofBytes (password ++ [0])⟩ password.length
    (pwCryptObject (ofBytes pw))).value

section

variable {env : CryptEnv} {password : Object} {pwLength : ℕ} {pw : List UInt8}

lemma length_shaCrypt {alloc : Buffer → ℕ → Bool} {d : Digest} {key salt : Object}
    {keyLen saltOff saltSize rounds : ℕ} :
    (shaCrypt alloc d key keyLen salt saltOff saltSize rounds).value.length = d.size := by
  simp [shaCrypt]

lemma length_blowfishCrypt {b : Blowfish} {key setting : Object} {off : ℕ} {hash : List UInt8}
    (h : (blowfishCrypt b key setting off).value = .ok hash) : hash.length = bfResultSize := by
  rw [blowfishCrypt, value_bind] at h
  split at h
  · simp at h
  · simp at h
    simp [← h]

lemma le_length_passwordCrypt {pwCrypt : Object} {hash : List UInt8}
    (h : (passwordCrypt env password pwLength pwCrypt).value = .ok hash) :
    getHashSize (pwCrypt.bytes.u16 0) ≤ hash.length := by
  have hmethod : (pwCrypt.load 0 2).value = pwCrypt.bytes.u16 0 := value_load
  rw [passwordCrypt, value_bind, hmethod] at h
  split at h
  case h_4 hm =>
    simp only [value_bind, value_pure, Except.ok.injEq, sha256Crypt] at h
    rw [← h, length_shaCrypt, hm, env.size256]
    decide
  case h_5 hm =>
    simp only [value_bind, value_pure, Except.ok.injEq, sha512Crypt] at h
    rw [← h, length_shaCrypt, hm, env.size512]
    decide
  case h_6 hm =>
    rw [value_bind, value_ite] at h
    split at h
    · simp at h
    · rw [length_blowfishCrypt h, hm]
      decide
  all_goals simp at h

lemma value_pwAttempt (hlength : pw.length = passwordCryptSize) (typed : List UInt16) :
    (pwAttempt env (pwCryptObject (ofBytes pw)) (getHashSize ((ofBytes pw).u16 0))
      typed).value =
    passwordMatches (fun p => hashBytes env (asciiBytes p) pw) (pw.drop 44)
      (getHashSize ((ofBytes pw).u16 0)) typed := by
  have hascii : (asciiBytes typed).length = typed.length := length_map _
  have hauth := getHashSize_le ((ofBytes pw).u16 0)
  set n := getHashSize ((ofBytes pw).u16 0)
  have hread : ((pwCryptObject (ofBytes pw)).read hashOffset n).value = (pw.drop 44).take n := by
    rw [value_read]
    apply slice_ofBytes_of_le
    rw [hlength]
    show 44 + _ ≤ 172
    omega
  rw [pwAttempt, passwordMatches, value_ite, value_pure]
  split
  · rfl
  simp only [value_bind]
  have hhash : hashBytes env (asciiBytes typed) pw = (passwordCrypt env
      ⟨.pwAscii, typed.length + 1, ofBytes (asciiBytes typed ++ [0])⟩ typed.length
      (pwCryptObject (ofBytes pw))).value := by
    rw [hashBytes, hascii]
  rw [hhash]
  cases h : (passwordCrypt env
      ⟨.pwAscii, typed.length + 1, ofBytes (asciiBytes typed ++ [0])⟩ typed.length
      (pwCryptObject (ofBytes pw))).value with
  | error e => simp
  | ok bytes =>
    have hlen : n ≤ bytes.length := le_length_passwordCrypt h
    simp only [value_bind, value_pure, hread, value_read]
    rw [slice_ofBytes_of_le (by omega), drop_zero]
    exact decide_eq_decide.mpr eq_comm

lemma value_pwAttempts {attempt : List UInt16 → Run Read Empty Bool} {isRight : List UInt16 → Bool}
    (h : ∀ typed, (attempt typed).value = isRight typed) (typed : ℕ → List UInt16) (n k : ℕ) :
    (pwAttempts attempt typed n k).value = askPassword isRight typed n k := by
  induction n generalizing k with
  | zero => exact value_pure
  | succ n ih =>
    rw [pwAttempts, value_bind, h, value_ite, ih, value_pure, askPassword]

lemma matchPwCrypt_value (penv : PromptEnv) (hcrypto : penv.crypto.passwordCrypt = hashBytes env)
    (hlength : pw.length = passwordCryptSize) :
    (matchPwCrypt env (pwCryptObject (ofBytes pw)) penv.typed).value =
      matchPassword penv (some pw) [] none := by
  have hmethod : ((pwCryptObject (ofBytes pw)).load 0 2).value = (ofBytes pw).u16 0 :=
    value_load
  rw [matchPwCrypt, value_bind, hmethod, matchPassword, hcrypto]
  simp only [value_ite, value_pure, value_pwAttempts (value_pwAttempt hlength)]

end

/-- For a variable of the right size, whatever is in it and behind it: the functions read inside
their objects for every password that can be typed iff the fields are safe for every length of one.
-/
theorem matchPwCrypt_inside_iff (env : CryptEnv) (pw : Mem) :
    (∀ typed, Only Read.Inside (matchPwCrypt env (pwCryptObject pw) typed)) ↔
      ∀ n, passwordMin ≤ n → n ≤ passwordMax → CryptSafe env pw n := by
  constructor
  · intro h n hmin hmax
    have hlength : (List.replicate n (0x61 : UInt16)).length = n := length_replicate
    have hsafe := cryptSafe_of_matchPwCrypt (hlength.symm ▸ hmin) (hlength.symm ▸ hmax)
      (h fun _ => List.replicate n 0x61)
    rwa [hlength] at hsafe
  · intro hsafe typed
    rw [only_matchPwCrypt_iff]
    intro _
    exact only_pwAttempts (only_pwAttempt (getHashSize_le _) hsafe) typed 3 0

/-- Digests of zeros only. -/
def zeroCrypt : CryptEnv where
  sha256 := ⟨32, fun _ => List.replicate 32 0, fun _ => length_replicate, by decide⟩
  sha512 := ⟨64, fun _ => List.replicate 64 0, fun _ => length_replicate, by decide⟩
  size256 := rfl
  size512 := rfl
  blowfish := ⟨fun _ _ _ _ => List.replicate 24 0, fun _ => true⟩
  alloc := fun _ _ => true

/-- A variable with a salt of 200 bytes. -/
def longSalt : List UInt8 :=
  [3, 0, 1, 0, 0, 0, 0, 0, 0, 0, 200, 0] ++ List.replicate 160 0

/-- A variable with a setting that Blowfish accepts. -/
def blowfishSalt : List UInt8 :=
  [5, 0, 1, 0, 0, 0, 0, 0, 0, 0, 30, 0, 0x24, 0x32, 0x61, 0x24, 0x30, 0x34, 0x24] ++
    List.replicate 22 0x2e ++ List.replicate 131 0

/-- The salt of the first variable ends behind the structure, and is read there; for the second the
hash is copied from behind the output of Blowfish. -/
theorem matchPwCrypt_reads_outside : (longSalt.length = passwordCryptSize ∧
      (matchPwCrypt zeroCrypt (pwCryptObject (ofBytes longSalt)) fun _ => [0x61]).Emits
        ⟨.pwCrypt, 172, 12, 200⟩ ∧
      ∀ env, ¬ Only Read.Inside
        (matchPwCrypt env (pwCryptObject (ofBytes longSalt)) fun _ => [0x61])) ∧
    (blowfishSalt.length = passwordCryptSize ∧
      (matchPwCrypt zeroCrypt (pwCryptObject (ofBytes blowfishSalt)) fun _ => [0x61]).Emits
        ⟨.result, 61, 29, 61⟩) ∧
    ¬ (⟨.pwCrypt, 172, 12, 200⟩ : Read).Inside ∧ ¬ (⟨.result, 61, 29, 61⟩ : Read).Inside := by
  refine ⟨⟨by decide +kernel, by decide +kernel, ?_⟩, ⟨by decide +kernel, by decide +kernel⟩,
    by decide, by decide⟩
  intro env h
  have hsafe := cryptSafe_of_matchPwCrypt (by decide) (by decide) h
  exact absurd (hsafe.salt (.inl (by decide +kernel))) (by decide +kernel)

end Shim.Mok
