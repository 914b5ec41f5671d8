import Shim.Mok.PasswordCrypt

/-!
# The SHA methods compute SHA-crypt

`sha256_crypt` and `sha512_crypt` are the algorithm that is published as SHA-crypt, up to the encoding of
the digest. `reference` is this algorithm, for any hash function.
-/

namespace Shim.Mok

open Lib List Run Mem

def Digest.sequence (d : Digest) (digest : List UInt8) (n : ℕ) : List UInt8 :=
  (List.replicate (n / d.size) digest).flatten ++ digest.take (n % d.size)

section

variable (d : Digest) (key salt : List UInt8)

def digestB : List UInt8 := d.digest (key ++ salt ++ key)

def digestA : List UInt8 :=
  d.digest (key ++ salt ++ d.sequence (digestB d key salt) key.length ++
    (Nat.digits 2 key.length).flatMap fun bit => if bit = 1 then digestB d key salt else key)

def sequenceP : List UInt8 :=
  d.sequence (d.digest (List.replicate key.length key).flatten) key.length

def sequenceS : List UInt8 :=
  d.sequence (d.digest (List.replicate (16 + ((digestA d key salt).headD 0).toNat) salt).flatten)
    salt.length

def referenceRound (p s digest : List UInt8) (r : ℕ) : List UInt8 :=
  d.digest ((if r % 2 = 1 then p else digest) ++ (if r % 3 = 0 then [] else s) ++
    (if r % 7 = 0 then [] else p) ++ if r % 2 = 1 then digest else p)

def reference (rounds : ℕ) : List UInt8 :=
  (List.range rounds).foldl (referenceRound d (sequenceP d key) (sequenceS d key salt))
    (digestA d key salt)

end

lemma Digest.length_sequence (d : Digest) {digest : List UInt8} (h : digest.length = d.size)
    (n : ℕ) : (d.sequence digest n).length = n := by
  have hmod := Nat.mod_lt n d.size_pos
  rw [Digest.sequence, length_append, length_take, h, Nat.min_eq_left hmod.le,
    length_flatten, map_replicate, h, sum_replicate, smul_eq_mul, Nat.div_add_mod']

/-! ## The loops -/

section

variable {d : Digest} {digest ctx : List UInt8} {o : Object} {cnt fuel : ℕ}

@[simp] lemma value_update {off len : ℕ} :
    (update o off len ctx).value = ctx ++ o.bytes.slice off len := by
  simp [update]

lemma value_foldlM_append {α : Type} {step : List UInt8 → α → Run Read Empty (List UInt8)}
    {g : α → List UInt8} (h : ∀ ctx a, (step ctx a).value = ctx ++ g a) (l : List α) :
    (l.foldlM step ctx).value = ctx ++ l.flatMap g := by
  induction l generalizing ctx with
  | nil => simp
  | cons a l ih => rw [foldlM_cons, value_bind, h, ih, flatMap_cons, append_assoc]

lemma slice_final (b : Buffer) {n : ℕ} (hn : n ≤ d.size) :
    (d.final b ctx).bytes.slice 0 n = (d.digest ctx).take n := by
  rw [Digest.final, slice_ofBytes_of_le (by rw [d.length_digest]; omega), drop_zero]

lemma slice_final_self (b : Buffer) : (d.final b ctx).bytes.slice 0 d.size = d.digest ctx := by
  rw [slice_final b (Nat.le_refl _), take_of_length_le (d.length_digest _).le]

lemma sequence_of_le (hdigest : digest.length = d.size) (h : cnt ≤ d.size) :
    d.sequence digest cnt = digest.take cnt := by
  rcases Nat.lt_or_eq_of_le h with hlt | rfl
  · rw [Digest.sequence, Nat.div_eq_of_lt hlt, Nat.mod_eq_of_lt hlt, replicate_zero,
      flatten_nil, nil_append]
  · rw [Digest.sequence, Nat.div_self d.size_pos, Nat.mod_self, take_of_length_le hdigest.le]
    simp

lemma sequence_of_ge (h : d.size ≤ cnt) :
    d.sequence digest cnt = digest ++ d.sequence digest (cnt - d.size) := by
  unfold Digest.sequence
  rw [Nat.div_eq_sub_div d.size_pos h, Nat.mod_eq_sub_mod h, replicate_succ,
    flatten_cons, append_assoc]

lemma flatMap_blocks {more : ℕ → Bool} (hmore : ∀ c, more c = true → d.size ≤ c)
    (hless : ∀ c, more c = false → c ≤ d.size) (hdigest : digest.length = d.size)
    (hfuel : cnt ≤ fuel) :
    (blocks d.size more fuel cnt).flatMap (fun n => digest.take n) = d.sequence digest cnt := by
  have hsize := d.size_pos
  induction fuel generalizing cnt with
  | zero =>
    rw [sequence_of_le hdigest (by omega)]
    simp [blocks]
  | succ fuel ih =>
    cases hcnt : more cnt with
    | true =>
      rw [blocks, if_pos hcnt, flatMap_cons, ih (by omega), sequence_of_ge (hmore cnt hcnt),
        take_of_length_le hdigest.le]
    | false =>
      rw [blocks, if_neg (by simp [hcnt]), sequence_of_le hdigest (hless cnt hcnt)]
      simp

lemma flatMap_halvings (b key : List UInt8) (hfuel : cnt ≤ fuel) :
    (halvings fuel cnt).flatMap (fun c => if c % 2 ≠ 0 then b else key) =
      (Nat.digits 2 cnt).flatMap fun bit => if bit = 1 then b else key := by
  induction fuel generalizing cnt with
  | zero =>
    obtain rfl := Nat.le_zero.mp hfuel
    simp [halvings]
  | succ fuel ih =>
    by_cases hcnt : 0 < cnt
    · rw [halvings, if_pos hcnt, Nat.digits_def' (by decide) hcnt, flatMap_cons,
        flatMap_cons, ih (by omega)]
      simp
    · simp [halvings, Nat.eq_zero_of_not_pos hcnt]

lemma value_blocks {more : ℕ → Bool} (hmore : ∀ c, more c = true → d.size ≤ c)
    (hless : ∀ c, more c = false → c ≤ d.size) (b : Buffer) (data : List UInt8) :
    ((blocks d.size more cnt cnt).foldlM (fun ctx len => update (d.final b data) 0 len ctx) ctx).value =
      ctx ++ d.sequence (d.digest data) cnt := by
  have hslice : ∀ n ∈ blocks d.size more cnt cnt,
      (d.final b data).bytes.slice 0 n = (d.digest data).take n := fun n hn =>
    slice_final b (le_of_mem_blocks hless d.size_pos (Nat.le_refl cnt) n hn)
  rw [value_foldlM_append (g := (d.final b data).bytes.slice 0) (fun _ _ => value_update),
    flatMap_congr hslice, flatMap_blocks hmore hless (d.length_digest data) (Nat.le_refl cnt)]

lemma slice_fillBytes {alloc : Buffer → ℕ → Bool} {b tmp : Buffer} (data : List UInt8) :
    (fillBytes alloc d b (d.final tmp data) cnt).value.bytes.slice 0 cnt =
      d.sequence (d.digest data) cnt := by
  have hbytes : (fillBytes alloc d b (d.final tmp data) cnt).value.bytes =
      ofBytes (d.sequence (d.digest data) cnt) := by
    simp only [fillBytes, value_bind, value_pure]
    rw [value_blocks (fun c hc => by simpa using hc) (fun c hc => by simp at hc; omega),
      nil_append]
  have hlength := d.length_sequence (d.length_digest data) cnt
  rw [hbytes, slice_ofBytes_of_le (by omega), drop_zero, take_of_length_le (by omega)]

end

section

variable {alloc : Buffer → ℕ → Bool} {d : Digest} {key salt pBytes sBytes alt : Object}
variable {keyLen saltOff saltSize rounds : ℕ} {p s digest : List UInt8}

section

variable (hp : pBytes.bytes.slice 0 keyLen = p) (hs : sBytes.bytes.slice 0 saltSize = s)
  (halt : alt.bytes.slice 0 d.size = digest)
include hp hs halt

lemma slice_shaRound (r : ℕ) :
    (shaRound d pBytes sBytes keyLen saltSize alt r).value.bytes.slice 0 d.size =
      referenceRound d p s digest r := by
  have hround : (shaRound d pBytes sBytes keyLen saltSize alt r).value = d.final .altResult
      ((if r % 2 = 1 then p else digest) ++ (if r % 3 = 0 then [] else s) ++
        (if r % 7 = 0 then [] else p) ++ if r % 2 = 1 then digest else p) := by
    simp only [shaRound, value_bind, value_ite, value_update, value_pure, hp, hs, halt]
    split_ifs <;> simp_all
  rw [hround, slice_final_self]
  rfl

lemma slice_shaRounds (l : List ℕ) :
    (l.foldlM (shaRound d pBytes sBytes keyLen saltSize) alt).value.bytes.slice 0 d.size =
      l.foldl (referenceRound d p s) digest := by
  induction l generalizing alt digest with
  | nil => simpa using halt
  | cons r l ih =>
    rw [foldlM_cons, value_bind, ih (slice_shaRound hp hs halt r), foldl_cons]

end

lemma value_update_range (o : Object) (off len n : ℕ) :
    ((List.range n).foldlM (fun ctx _ => update o off len ctx) []).value =
      (List.replicate n (o.bytes.slice off len)).flatten := by
  rw [value_foldlM_append (g := fun _ => o.bytes.slice off len) (fun _ _ => value_update),
    nil_append, flatMap_def, map_const', length_range]

lemma value_halvings (ctx data : List UInt8) : ((halvings keyLen keyLen).foldlM (fun ctx cnt =>
      if cnt % 2 ≠ 0 then update (d.final .altResult data) 0 d.size ctx
      else update key 0 keyLen ctx) ctx).value =
    ctx ++ (Nat.digits 2 keyLen).flatMap fun bit =>
      if bit = 1 then d.digest data else key.bytes.slice 0 keyLen := by
  rw [value_foldlM_append
    (g := fun c => if c % 2 ≠ 0 then d.digest data else key.bytes.slice 0 keyLen),
    flatMap_halvings _ _ (Nat.le_refl _)]
  intro ctx c
  split_ifs
  · rw [value_update, slice_final_self]
  · rw [value_update]

lemma value_shaCrypt : (shaCrypt alloc d key keyLen salt saltOff saltSize rounds).value =
      reference d (key.bytes.slice 0 keyLen) (salt.bytes.slice saltOff saltSize) rounds := by
  set k := key.bytes.slice 0 keyLen with hk
  set s := salt.bytes.slice saltOff saltSize with hs
  have hkeyLen : k.length = keyLen := length_slice ..
  have hsaltSize : s.length = saltSize := length_slice ..
  unfold shaCrypt
  simp only [value_bind, value_update, value_load, value_read, nil_append,
    value_update_range, ← hk, ← hs]
  rw [value_blocks (fun c hc => by simp at hc; omega) (fun c hc => by simpa using hc), value_halvings]
  have hA : d.digest (k ++ s ++ d.sequence (d.digest (k ++ s ++ k)) keyLen ++
      (Nat.digits 2 keyLen).flatMap fun bit => if bit = 1 then d.digest (k ++ s ++ k) else k) =
      digestA d k s := by
    rw [digestA, digestB, hkeyLen]
  have hfirst (data : List UInt8) :
      (d.final .altResult data).bytes.load 0 1 = ((d.digest data).headD 0).toNat := by
    simp [Mem.load, Digest.final, ofBytes, headD_eq_head?_getD, List.head?_eq_getElem?]
  refine slice_shaRounds ?_ ?_ ?_ _
  · rw [slice_fillBytes, sequenceP, hkeyLen]
  · rw [slice_fillBytes, hfirst, hA, sequenceS, hsaltSize]
  · rw [slice_final_self, hA]

end

/-- For all keys, salts and numbers of rounds, both functions return the digest of SHA-crypt, with
sequences as long as the key and the salt. -/
theorem shaCrypt_eq_reference (env : CryptEnv) (key salt : Object)
    (keyLen saltOff saltSize rounds : ℕ) :
    let k := key.bytes.slice 0 keyLen
    let s := salt.bytes.slice saltOff saltSize
    (sha256Crypt env key keyLen salt saltOff saltSize rounds).value = reference env.sha256 k s rounds ∧
      (sha512Crypt env key keyLen salt saltOff saltSize rounds).value =
        reference env.sha512 k s rounds ∧
      ∀ d, (sequenceP d k).length = keyLen ∧ (sequenceS d k s).length = saltSize := by
  refine ⟨value_shaCrypt, value_shaCrypt, fun d => ⟨?_, ?_⟩⟩
  · rw [sequenceP, d.length_sequence (d.length_digest _), length_slice]
  · rw [sequenceS, d.length_sequence (d.length_digest _), length_slice]

section

variable {env : CryptEnv} {pw : List UInt8} {d : Digest}

lemma askPassword_success_iff {isRight : List UInt16 → Bool} {typed : ℕ → List UInt16} (n k : ℕ) :
    askPassword isRight typed n k = .success ↔ ∃ j < n, isRight (typed (k + j)) = true := by
  induction n generalizing k with
  | zero => simp [askPassword]
  | succ n ih =>
    rw [askPassword]
    by_cases hright : isRight (typed k) = true
    · simp only [if_pos hright, true_iff]
      exact ⟨0, by omega, hright⟩
    rw [if_neg hright, ih]
    constructor
    · rintro ⟨j, hj, hok⟩
      exact ⟨j + 1, by omega, by rwa [show k + (j + 1) = k + 1 + j by omega]⟩
    · rintro ⟨_ | j, hj, hok⟩
      · exact absurd hok hright
      · exact ⟨j, by omega, by rwa [show k + 1 + j = k + (j + 1) by omega]⟩

/-- An authentication variable of the right size whose method is SHA-crypt with the digest `d` and
whose salt is in it. -/
structure ShaVariable (env : CryptEnv) (pw : List UInt8) (d : Digest) : Prop where
  length : pw.length = passwordCryptSize
  method : (ofBytes pw).u16 0 = 3 ∧ d = env.sha256 ∨ (ofBytes pw).u16 0 = 4 ∧ d = env.sha512
  salt : saltOffset + (ofBytes pw).u16 10 ≤ passwordCryptSize

def shaHash (d : Digest) (pw password : List UInt8) : List UInt8 :=
  reference d password ((pw.drop saltOffset).take ((ofBytes pw).u16 10))
    ((ofBytes pw).load 2 8 % 2 ^ 32)

lemma hashBytes_of_sha (h : ShaVariable env pw d) (password : List UInt8) :
    hashBytes env password pw = .ok (shaHash d pw password) := by
  have hload (off w : ℕ) : ((pwCryptObject (ofBytes pw)).load off w).value =
      (ofBytes pw).load off w := value_load
  have hkey : (ofBytes (password ++ [0])).slice 0 password.length = password := by
    rw [slice_ofBytes_of_le (by simp), drop_zero, take_left]
  have hbytes : (pwCryptObject (ofBytes pw)).bytes = ofBytes pw := rfl
  have hsalt := slice_ofBytes_of_le (h.length ▸ h.salt)
  unfold u16 at hsalt
  rcases h.method with ⟨hmethod, rfl⟩ | ⟨hmethod, rfl⟩ <;>
  · unfold u16 at hmethod
    rw [hashBytes, passwordCrypt, value_bind, hload, hmethod]
    simp only [value_bind, value_pure, hload, sha256Crypt, sha512Crypt, value_shaCrypt, hkey, hbytes]
    rw [shaHash, u16, hsalt]

lemma length_reference (d : Digest) (key salt : List UInt8) (rounds : ℕ) :
    (reference d key salt rounds).length = d.size := by
  cases rounds with
  | zero => exact d.length_digest _
  | succ n =>
    rw [reference, range_succ, foldl_append]
    exact d.length_digest _

/-- MokManager accepts a password for such a variable iff one of the first three that are typed has
a length that is allowed and the digest of SHA-crypt that is stored. -/
theorem matchPwCrypt_success_iff (h : ShaVariable env pw d) (typed : ℕ → List UInt16) :
    (matchPwCrypt env (pwCryptObject (ofBytes pw)) typed).value = .success ↔
      ∃ k < 3, passwordMin ≤ (typed k).length ∧ (typed k).length ≤ passwordMax ∧
        shaHash d pw (asciiBytes (typed k)) = (pw.drop hashOffset).take d.size := by
  have hsize : getHashSize ((ofBytes pw).u16 0) = d.size := by
    rcases h.method with ⟨hm, rfl⟩ | ⟨hm, rfl⟩
    · rw [hm, env.size256]
      rfl
    · rw [hm, env.size512]
      rfl
  have hpos := d.size_pos
  have hload : ((pwCryptObject (ofBytes pw)).load 0 2).value = (ofBytes pw).u16 0 :=
    value_load
  rw [matchPwCrypt, value_bind, hload, value_ite, if_neg (by omega),
    value_pwAttempts (value_pwAttempt h.length), askPassword_success_iff]
  refine exists_congr fun k => and_congr_right fun _ => ?_
  rw [Nat.zero_add, passwordMatches, hsize, hashBytes_of_sha h]
  by_cases hrange : (typed k).length < passwordMin ∨ passwordMax < (typed k).length
  · rw [if_pos hrange]
    constructor
    · simp
    · rintro ⟨hmin, hmax, -⟩
      omega
  · rw [if_neg hrange]
    have htake : (shaHash d pw (asciiBytes (typed k))).take d.size =
        shaHash d pw (asciiBytes (typed k)) := take_of_length_le (length_reference ..).le
    simp only [htake, decide_eq_true_eq]
    constructor
    · exact fun heq => ⟨by omega, by omega, heq⟩
    · exact fun heq => heq.2.2

end

def shortSalt : List UInt8 := [3, 0, 1, 0, 0, 0, 0, 0, 0, 0, 1, 0] ++ List.replicate 160 0

theorem matchPwCrypt_success_iff_shortSalt : ShaVariable zeroCrypt shortSalt zeroCrypt.sha256 ∧
    (matchPwCrypt zeroCrypt (pwCryptObject (ofBytes shortSalt)) fun _ => [0x61]).value =
      .success := by
  have hsha : ShaVariable zeroCrypt shortSalt zeroCrypt.sha256 :=
    ⟨rfl, .inl ⟨by decide +kernel, rfl⟩, by decide +kernel⟩
  refine ⟨hsha, (matchPwCrypt_success_iff hsha _).mpr ⟨0, by decide, ?_⟩⟩
  decide +kernel

end Shim.Mok
