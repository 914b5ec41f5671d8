import Shim.GeneratePath
import Shim.Lib.Loop

/-!
# The certificates and revocations beside shim

`load_unbundled_trust` goes over the directory that shim was started from twice: for
`revocations_sbat.efi`, and for the certificates. `Read` is an in/out call: it is given the size of
the buffer and stores the size of the entry, or of the buffer that it needs.
-/

namespace Shim.LoadOptions

open Lib List Run

def strCaseCmp : List UInt16 → List UInt16 → Except OutOfRange ℤ
  | c0 :: s0, c1 :: s1 =>
    if c0 = 0 ∨ c1 = 0 then .ok (c1.toNat - c0.toNat)
    else if upper c0 ≠ upper c1 then .ok ((upper c1).toNat - (upper c0).toNat)
    else strCaseCmp s0 s1
  | _, _ => .error ⟨0⟩

def sbatRevocationFile : List UInt16 :=
  [0x72, 0x65, 0x76, 0x6f, 0x63, 0x61, 0x74, 0x69, 0x6f, 0x6e, 0x73, 0x5f, 0x73, 0x62, 0x61, 0x74,
    0x2e, 0x65, 0x66, 0x69]

def skusiRevocationFile : List UInt16 :=
  [0x72, 0x65, 0x76, 0x6f, 0x63, 0x61, 0x74, 0x69, 0x6f, 0x6e, 0x73, 0x5f, 0x73, 0x6b, 0x75, 0x2e,
    0x65, 0x66, 0x69]

def shimCertificate : List UInt16 :=
  [0x73, 0x68, 0x69, 0x6d, 0x5f, 0x63, 0x65, 0x72, 0x74, 0x69, 0x66, 0x69, 0x63, 0x61, 0x74, 0x65]

def netbootName (digit : UInt16) : List UInt16 :=
  shimCertificate ++ [0x5f, digit, 0x2e, 0x65, 0x66, 0x69]

/-! ## The model -/

inductive RevocationFile where
  | sbat
  | skusi
  deriving DecidableEq, Repr

inductive TrustEvent where
  | loadRevocations (file : RevocationFile)
  | loadCert (name : List UInt16)
  deriving DecidableEq, Repr

/-- How `Read` returns on a directory: with an entry, with `EFI_BUFFER_TOO_SMALL`, or with another
error. `buffersize` is the new value of `*BufferSize`. -/
inductive ReadResult (δ : Type) where
  | success (buffersize : ℕ) (name : Text) (dir : δ)
  | bufferTooSmall (buffersize : ℕ) (dir : δ)
  | error (status : EfiStatus)

structure TrustEnv (δ : Type) where
  loadedImage : EfiStatus
  pathName : EfiStatus
  fileSystem : EfiStatus
  openVolume : EfiStatus
  openDir : Except EfiStatus δ
  reopenDir : Except EfiStatus δ
  secureMode : Bool
  read : δ → ℕ → ReadResult δ
  /-- Whether a call of `ReallocatePool` finds memory, by number. -/
  pool : ℕ → Bool
  /-- What `load_cert_file` returns for `netbootName`. -/
  netbootCert : UInt16 → EfiStatus

structure TrustState (δ : Type) where
  dir : δ
  buffersize : ℕ
  hasBuffer : Bool
  searchRevocations : Bool
  /-- How often `ReallocatePool` has been called. -/
  allocs : ℕ

section

variable {δ : Type} (env : TrustEnv δ)

def loadEntry (name : Text) : Run TrustEvent OutOfRange Unit := do
  let cert ← .lift (strnCaseCmp 16 name.buffer (shimCertificate ++ [0]))
  .emitIf (cert = 0) (.loadCert name.chars)
  let skusi ← .lift (strCaseCmp name.buffer (skusiRevocationFile ++ [0]))
  .emitIf (skusi = 0) (.loadRevocations .skusi)

def nextSize (old n : ℕ) : ℕ := if n = old then if n < 4 then 4 else n * 2 % 2 ^ 64 else n

def trustRound (s : TrustState δ) : Run TrustEvent OutOfRange (TrustState δ ⊕ EfiStatus) :=
  match env.read s.dir s.buffersize with
  | .bufferTooSmall n d =>
    if n = s.buffersize ∧ 1024 < nextSize s.buffersize n then return .inr .bufferTooSmall
    else if env.pool s.allocs = false then return .inr .bufferTooSmall
    else return .inl { s with
      dir := d, buffersize := nextSize s.buffersize n, hasBuffer := true, allocs := s.allocs + 1 }
  | .error status => return .inr status
  | .success n name d =>
    if n = 0 ∨ s.hasBuffer = false then
      if s.searchRevocations then
        match env.reopenDir with
        | .error status => return .inr status
        | .ok d => return .inl { s with dir := d, buffersize := n, searchRevocations := false }
      else return .inr .success
    else if s.searchRevocations then do
      let sbat ← .lift (strCaseCmp name.buffer (sbatRevocationFile ++ [0]))
      if sbat = 0 then do
        .emit (.loadRevocations .sbat)
        match env.reopenDir with
        | .error status => return .inr status
        | .ok d => do
            loadEntry name
            return .inl { s with dir := d, buffersize := n, searchRevocations := false }
      else return .inl { s with dir := d, buffersize := n }
    else do
      loadEntry name
      return .inl { s with dir := d, buffersize := n }

def netbootCerts : (left : ℕ) → (digit : UInt16) → Run TrustEvent OutOfRange Unit
  | 0, digit => .emit (.loadCert (netbootName digit))
  | left + 1, digit => do
      .emit (.loadCert (netbootName digit))
      if env.netbootCert digit = .success then netbootCerts left (digit + 1) else return ()

def loadUnbundledTrust (rounds : ℕ) : Run TrustEvent OutOfRange (Option EfiStatus) :=
  if env.loadedImage ≠ .success then return some env.loadedImage
  else if env.pathName ≠ .success then return some env.pathName
  else if env.fileSystem ≠ .success then do
    .emit (.loadRevocations .skusi)
    .emit (.loadRevocations .sbat)
    netbootCerts env 10 0x30
    return some env.fileSystem
  else if env.openVolume ≠ .success then return some env.openVolume
  else
    match env.openDir with
    | .error status => return some status
    | .ok d =>
      if env.secureMode = false then return some .success
      else Run.loop (trustRound env) rounds ⟨d, 0, false, true, 0⟩

end

structure FileInfo where
  name : Text
  size : ℕ
  size_pos : 0 < size

/-- The directory has these entries. `Read` returns the one at `pos`, or stores the size that it
needs and stays. -/
structure TrustEnv.Serves {δ : Type} (env : TrustEnv δ) (listing : List FileInfo) (pos : δ → ℕ) :
    Prop where
  loadedImage : env.loadedImage = .success
  pathName : env.pathName = .success
  fileSystem : env.fileSystem = .success
  openVolume : env.openVolume = .success
  openDir : ∃ d, env.openDir = .ok d ∧ pos d = 0
  reopenDir : ∃ d, env.reopenDir = .ok d ∧ pos d = 0
  read_entry : ∀ d b e, listing[pos d]? = some e → e.size ≤ b →
    ∃ d', env.read d b = .success e.size e.name d' ∧ pos d' = pos d + 1
  read_small : ∀ d b e, listing[pos d]? = some e → b < e.size →
    ∃ d', env.read d b = .bufferTooSmall e.size d' ∧ pos d' = pos d
  read_end : ∀ d b, listing[pos d]? = none →
    ∃ name d', env.read d b = .success 0 name d' ∧ pos d' = pos d

def IsShimCertificate (e : FileInfo) : Prop :=
  shimCertificate.map upper <+: e.name.chars.map upper

def IsNamed (file : List UInt16) (e : FileInfo) : Prop := e.name.chars.map upper = file.map upper

instance (e : FileInfo) : Decidable (IsShimCertificate e) := inferInstanceAs (Decidable (_ <+: _))

instance (file : List UInt16) (e : FileInfo) : Decidable (IsNamed file e) :=
  inferInstanceAs (Decidable (_ = _))

def entryLoads (e : FileInfo) : List TrustEvent :=
  (if IsShimCertificate e then [.loadCert e.name.chars] else []) ++
    if IsNamed skusiRevocationFile e then [.loadRevocations .skusi] else []

def sbatLoads (l : List FileInfo) : List TrustEvent :=
  if ∃ e ∈ l, IsNamed sbatRevocationFile e then [.loadRevocations .sbat] else []

def trustPlan (listing : List FileInfo) : List TrustEvent :=
  sbatLoads listing ++ listing.flatMap entryLoads

def certLoads (events : List TrustEvent) : List (List UInt16) :=
  events.filterMap fun
    | .loadCert name => some name
    | .loadRevocations _ => none

/-! ## The comparisons -/

lemma strnCaseCmp_swap (n : ℕ) (s t : List UInt16) :
    strnCaseCmp n s t = (strnCaseCmp n t s).map (- ·) := by
  induction n generalizing s t with
  | zero => rfl
  | succ n ih =>
    cases s with
    | nil => cases t <;> rfl
    | cons c s =>
      cases t with
      | nil => rfl
      | cons e t =>
        unfold strnCaseCmp
        simp only [or_comm (a := e = 0), ne_comm (a := upper e)]
        split_ifs
        · simp [Except.map]
        · simp [Except.map]
        · exact ih s t

lemma strnCaseCmp_front_iff {s t : List UInt16} (hs : 0 ∉ s) (ht : 0 ∉ t) :
    ∃ z, strnCaseCmp s.length (t ++ [0]) (s ++ [0]) = .ok z ∧
      (z = 0 ↔ s.map upper <+: t.map upper) := by
  obtain ⟨z, hz, hiff⟩ := strnCaseCmp_eq_zero_iff hs ht [] []
  refine ⟨-z, ?_, ?_⟩
  · rw [strnCaseCmp_swap, hz]
    rfl
  · rw [← hiff, neg_eq_zero]

lemma strCaseCmp_eq_zero_iff {s t : List UInt16} (hs : 0 ∉ s) (ht : 0 ∉ t) :
    ∃ z, strCaseCmp (s ++ [0]) (t ++ [0]) = .ok z ∧ (z = 0 ↔ s.map upper = t.map upper) := by
  have hzero : (0 : UInt16).toNat = 0 := rfl
  have hpos : ∀ {c : UInt16}, c ≠ 0 → c.toNat ≠ 0 := fun hc h => hc (UInt16.toNat_inj.mp h)
  induction s generalizing t with
  | nil =>
    cases t with
    | nil => exact ⟨0, rfl, iff_of_true rfl rfl⟩
    | cons e t =>
      have he := hpos (ne_of_not_mem_cons ht).symm
      refine ⟨_, if_pos (.inl rfl), iff_of_false (by omega) ?_⟩
      exact fun h => cons_ne_nil _ _ h.symm
  | cons c s ih =>
    have hc : c ≠ 0 := (ne_of_not_mem_cons hs).symm
    cases t with
    | nil =>
      have hc' := hpos hc
      exact ⟨_, if_pos (.inr rfl), iff_of_false (by omega) (cons_ne_nil _ _)⟩
    | cons e t =>
      have he : e ≠ 0 := (ne_of_not_mem_cons ht).symm
      rw [cons_append, cons_append, strCaseCmp, if_neg (by simp [hc, he]),
        map_cons, map_cons, List.cons.injEq]
      by_cases hup : upper c = upper e
      · rw [if_neg (not_not.mpr hup)]
        obtain ⟨z, hz, hiff⟩ := ih (not_mem_of_not_mem_cons hs) (not_mem_of_not_mem_cons ht)
        exact ⟨z, hz, by rw [hiff, and_iff_right hup]⟩
      · rw [if_pos hup]
        have hne : (upper c).toNat ≠ (upper e).toNat := fun h => hup (UInt16.toNat_inj.mp h)
        exact ⟨_, rfl, iff_of_false (by omega) fun h => hup h.1⟩

lemma strCaseCmp_isNamed {f : List UInt16} (hf : 0 ∉ f) (e : FileInfo) :
    ∃ z, strCaseCmp e.name.buffer (f ++ [0]) = .ok z ∧ (z = 0 ↔ IsNamed f e) :=
  strCaseCmp_eq_zero_iff e.name.noNul hf

lemma loadEntry_eq (e : FileInfo) : loadEntry e.name = ⟨entryLoads e, .ok ()⟩ := by
  obtain ⟨z, hz, hcert⟩ := strnCaseCmp_front_iff (s := shimCertificate) (by decide) e.name.noNul
  obtain ⟨y, hy, hskusi⟩ := strCaseCmp_isNamed (f := skusiRevocationFile) (by decide) e
  have hz' : strnCaseCmp 16 e.name.buffer (shimCertificate ++ [0]) = .ok z := hz
  unfold loadEntry
  rw [hz', hy, bind_of_ok rfl, bind_of_ok (a := ()) (by unfold emitIf; split <;> rfl),
    bind_of_ok rfl]
  unfold entryLoads emitIf
  by_cases hc : IsShimCertificate e
  · by_cases hs : IsNamed skusiRevocationFile e
    · rw [if_pos (hcert.mpr hc), if_pos (hskusi.mpr hs), if_pos hc, if_pos hs]
      rfl
    · rw [if_pos (hcert.mpr hc), if_neg (mt hskusi.mp hs), if_pos hc, if_neg hs]
      rfl
  · by_cases hs : IsNamed skusiRevocationFile e
    · rw [if_neg (mt hcert.mp hc), if_pos (hskusi.mpr hs), if_neg hc, if_pos hs]
      rfl
    · rw [if_neg (mt hcert.mp hc), if_neg (mt hskusi.mp hs), if_neg hc, if_neg hs]
      rfl

lemma entryLoads_of_sbat {e : FileInfo} (h : IsNamed sbatRevocationFile e) :
    entryLoads e = [] := by
  unfold IsNamed at h
  have hcert : ¬ IsShimCertificate e := by
    unfold IsShimCertificate
    rw [h]
    decide
  have hskusi : ¬ IsNamed skusiRevocationFile e := by
    unfold IsNamed
    rw [h]
    decide
  rw [entryLoads, if_neg hcert, if_neg hskusi]
  rfl

/-! ## The two passes -/

section

variable {δ : Type} {env : TrustEnv δ} {listing : List FileInfo} {pos : δ → ℕ}
  {s : TrustState δ} {e : FileInfo} {n : ℕ}

/-- The run returns, with loads of the plan in their order: all of them unless there is no memory
for a larger buffer. -/
structure Follows (env : TrustEnv δ) (r : Run TrustEvent OutOfRange (Option EfiStatus))
    (plan : List TrustEvent) : Prop where
  returns : ∃ status, r.Yields (some status)
  starts : r.trace <+: plan
  all : (∀ k, env.pool k = true) → r.trace = plan

lemma Follows.cons {r : Run TrustEvent OutOfRange (Option EfiStatus)} {plan : List TrustEvent}
    (h : Follows env r plan) (tr : List TrustEvent) :
    Follows env ⟨tr ++ r.trace, r.out⟩ (tr ++ plan) where
  returns := h.returns
  starts := (prefix_append_right_inj tr).mpr h.starts
  all := fun hpool => by rw [← h.all hpool]

lemma Follows.of_denied {status : EfiStatus} {k : ℕ} (h : env.pool k = false)
    (plan : List TrustEvent) : Follows env ⟨[], .ok (some status)⟩ plan where
  returns := ⟨status, rfl⟩
  starts := nil_prefix
  all := fun hpool => by
    rw [hpool k] at h
    cases h

def TrustState.Sized (s : TrustState δ) : Prop := s.hasBuffer = false → s.buffersize = 0

def Fits (listing : List FileInfo) (pos : δ → ℕ) (s : TrustState δ) : Prop :=
  ∃ e, listing[pos s.dir]? = some e ∧ e.size ≤ s.buffersize

def Enough (listing : List FileInfo) (pos : δ → ℕ) (s : TrustState δ) (m n : ℕ) : Prop :=
  2 * (listing.length - pos s.dir) + m < n ∨
    Fits listing pos s ∧ 2 * (listing.length - pos s.dir) + m ≤ n

section

variable (h : env.Serves listing pos)
include h

lemma trustRound_small (he : listing[pos s.dir]? = some e) (hsmall : s.buffersize < e.size) :
    (env.pool s.allocs = false ∧ trustRound env s = ⟨[], .ok (.inr .bufferTooSmall)⟩) ∨
      ∃ d, pos d = pos s.dir ∧ trustRound env s = ⟨[], .ok (.inl
        { s with dir := d, buffersize := e.size, hasBuffer := true, allocs := s.allocs + 1 })⟩ := by
  obtain ⟨d, hread, hpos⟩ := h.read_small s.dir s.buffersize e he hsmall
  have hnext : nextSize s.buffersize e.size = e.size := if_neg (by omega)
  unfold trustRound
  rw [hread]
  simp only [hnext]
  rw [if_neg fun hsame => absurd hsame.1 (by omega)]
  cases hpool : env.pool s.allocs with
  | false => exact .inl ⟨rfl, rfl⟩
  | true => exact .inr ⟨d, hpos, rfl⟩

lemma trustRound_second (hsized : s.Sized) (hsearch : s.searchRevocations = false)
    (he : listing[pos s.dir]? = some e) (hfits : e.size ≤ s.buffersize) :
    ∃ d, pos d = pos s.dir + 1 ∧ trustRound env s =
      ⟨entryLoads e, .ok (.inl { s with dir := d, buffersize := e.size })⟩ := by
  obtain ⟨d, hread, hpos⟩ := h.read_entry s.dir s.buffersize e he hfits
  have hsize := e.size_pos
  have hbuffer : s.hasBuffer = true := by
    by_contra hno
    have hzero := hsized (by simpa using hno)
    omega
  refine ⟨d, hpos, ?_⟩
  unfold trustRound
  rw [hread]
  simp only
  rw [if_neg (by simp [hbuffer]; omega), if_neg (by simp [hsearch]), loadEntry_eq,
    bind_of_ok rfl]
  exact Run.ext (append_nil _) rfl

lemma trustRound_first (hsized : s.Sized) (hsearch : s.searchRevocations = true)
    (he : listing[pos s.dir]? = some e) (hfits : e.size ≤ s.buffersize) :
    ∃ d, if IsNamed sbatRevocationFile e then
        pos d = 0 ∧ trustRound env s = ⟨[.loadRevocations .sbat], .ok (.inl
          { s with dir := d, buffersize := e.size, searchRevocations := false })⟩
      else pos d = pos s.dir + 1 ∧
        trustRound env s = ⟨[], .ok (.inl { s with dir := d, buffersize := e.size })⟩ := by
  obtain ⟨d, hread, hpos⟩ := h.read_entry s.dir s.buffersize e he hfits
  obtain ⟨d₀, hopen, hpos₀⟩ := h.reopenDir
  obtain ⟨z, hz, hiff⟩ := strCaseCmp_isNamed (f := sbatRevocationFile) (by decide) e
  have hsize := e.size_pos
  have hbuffer : s.hasBuffer = true := by
    by_contra hno
    have hzero := hsized (by simpa using hno)
    omega
  have hround : trustRound env s = if z = 0 then
      ⟨[.loadRevocations .sbat] ++ entryLoads e, .ok (.inl
        { s with dir := d₀, buffersize := e.size, searchRevocations := false })⟩
      else ⟨[], .ok (.inl { s with dir := d, buffersize := e.size })⟩ := by
    unfold trustRound
    rw [hread]
    simp only
    rw [if_neg (by simp [hbuffer]; omega), if_pos hsearch, hz, bind_of_ok rfl]
    split_ifs with hzero
    · rw [bind_of_ok rfl, hopen]
      simp only [loadEntry_eq]
      rw [bind_of_ok rfl]
      exact Run.ext (by simp [Run.emit, lift, pure]) rfl
    · rfl
  by_cases hnamed : IsNamed sbatRevocationFile e
  · refine ⟨d₀, ?_⟩
    rw [if_pos hnamed, hround, if_pos (hiff.mpr hnamed), entryLoads_of_sbat hnamed]
    exact ⟨hpos₀, rfl⟩
  · refine ⟨d, ?_⟩
    rw [if_neg hnamed, hround, if_neg (mt hiff.mp hnamed)]
    exact ⟨hpos, rfl⟩

lemma trustRound_end (he : listing[pos s.dir]? = none) : if s.searchRevocations then
      ∃ d, pos d = 0 ∧ trustRound env s = ⟨[], .ok (.inl
        { s with dir := d, buffersize := 0, searchRevocations := false })⟩
    else trustRound env s = ⟨[], .ok (.inr .success)⟩ := by
  obtain ⟨name, d, hread, -⟩ := h.read_end s.dir s.buffersize he
  obtain ⟨d₀, hopen, hpos₀⟩ := h.reopenDir
  unfold trustRound
  rw [hread]
  simp only [true_or, if_true, hopen]
  split_ifs with hsearch
  · exact ⟨d₀, hpos₀, rfl⟩
  · rfl

lemma follows_small {plan : List TrustEvent} (he : listing[pos s.dir]? = some e)
    (hsmall : s.buffersize < e.size)
    (hnext : ∀ s' : TrustState δ, s'.Sized → s'.searchRevocations = s.searchRevocations →
      pos s'.dir = pos s.dir → Fits listing pos s' →
        Follows env (Run.loop (trustRound env) n s') plan) :
    Follows env (Run.loop (trustRound env) (n + 1) s) plan := by
  rcases trustRound_small h he hsmall with ⟨hpool, hround⟩ | ⟨d, hpos, hround⟩
  · rw [loop_of_stops hround]
    exact Follows.of_denied hpool plan
  rw [loop_of_continues hround]
  refine (hnext
    { s with dir := d, buffersize := e.size, hasBuffer := true, allocs := s.allocs + 1 }
    (fun hnone => by cases hnone) rfl hpos ⟨e, ?_, le_rfl⟩).cons []
  rwa [hpos]

omit h in
lemma Enough.of_fits {s' : TrustState δ} {m : ℕ} (hn : Enough listing pos s m (n + 1))
    (he : listing[pos s.dir]? = some e) (hsmall : s.buffersize < e.size)
    (hpos : pos s'.dir = pos s.dir) (hfits : Fits listing pos s') : Enough listing pos s' m n := by
  refine .inr ⟨hfits, ?_⟩
  rw [hpos]
  rcases hn with hn | ⟨⟨e', he', hfits'⟩, -⟩
  · omega
  · obtain rfl : e = e' := Option.some.inj (he.symm.trans he')
    omega

omit h in
lemma Enough.of_entry {s' : TrustState δ} {m : ℕ} (hn : Enough listing pos s m (n + 1))
    (hlt : pos s.dir < listing.length) (hpos : pos s'.dir = pos s.dir + 1) :
    Enough listing pos s' m n := by
  refine .inl ?_
  rw [hpos]
  rcases hn with hn | ⟨-, hn⟩ <;> omega

omit h in
lemma not_enough_zero {m : ℕ} : ¬ Enough listing pos s m 0 := by
  rintro (hn | ⟨⟨e, he, -⟩, hn⟩)
  · omega
  · have hlt := (List.getElem?_eq_some_iff.mp he).1
    omega

omit h in
lemma TrustState.Sized.next {s' : TrustState δ} (hsized : s.Sized)
    (hbuffer : s'.hasBuffer = s.hasBuffer) (hfits : e.size ≤ s.buffersize) : s'.Sized := by
  intro hnone
  have hzero := hsized (hbuffer ▸ hnone)
  have hsize := e.size_pos
  omega

lemma secondPass_follows (hsized : s.Sized) (hsearch : s.searchRevocations = false)
    (hn : Enough listing pos s 0 n) :
    Follows env (Run.loop (trustRound env) n s)
      ((listing.drop (pos s.dir)).flatMap entryLoads) := by
  induction n generalizing s with
  | zero => exact absurd hn not_enough_zero
  | succ n ih =>
    cases he : listing[pos s.dir]? with
    | none =>
      have hround := trustRound_end h he
      rw [hsearch] at hround
      rw [loop_of_stops hround, drop_of_length_le (List.getElem?_eq_none_iff.mp he)]
      exact ⟨⟨_, rfl⟩, prefix_refl _, fun _ => rfl⟩
    | some e =>
      by_cases hfits : e.size ≤ s.buffersize
      · obtain ⟨hlt, hget⟩ := List.getElem?_eq_some_iff.mp he
        obtain ⟨d, hpos, hround⟩ := trustRound_second h hsized hsearch he hfits
        rw [loop_of_continues hround, drop_eq_getElem_cons hlt, hget,
          flatMap_cons, ← hpos]
        exact (ih (s := { s with dir := d, buffersize := e.size }) (hsized.next rfl hfits)
          hsearch (hn.of_entry hlt hpos)).cons _
      · refine follows_small h he (by omega) fun s' hsized' hsearch' hpos hfits' => ?_
        rw [← hpos]
        exact ih hsized' (hsearch'.trans hsearch) (hn.of_fits he (by omega) hpos hfits')

lemma firstPass_follows (hsized : s.Sized) (hsearch : s.searchRevocations = true)
    (hn : Enough listing pos s (2 * listing.length + 1) n) :
    Follows env (Run.loop (trustRound env) n s)
      (sbatLoads (listing.drop (pos s.dir)) ++ listing.flatMap entryLoads) := by
  induction n generalizing s with
  | zero => exact absurd hn not_enough_zero
  | succ n ih =>
    -- after the directory has been opened again
    have hsecond : ∀ s' : TrustState δ, s'.Sized → s'.searchRevocations = false →
        pos s'.dir = 0 → Follows env (Run.loop (trustRound env) n s')
          (listing.flatMap entryLoads) := by
      intro s' hsized' hsearch' hpos
      have hplan := secondPass_follows h (n := n) hsized' hsearch' (.inl ?_)
      · rwa [hpos, drop_zero] at hplan
      · rw [hpos]
        rcases hn with hn | ⟨⟨e, he, -⟩, hn⟩
        · omega
        · have hlt := (List.getElem?_eq_some_iff.mp he).1
          omega
    cases he : listing[pos s.dir]? with
    | none =>
      have hround := trustRound_end h he
      rw [hsearch] at hround
      obtain ⟨d, hpos, hround⟩ := hround
      rw [loop_of_continues hround, drop_of_length_le (List.getElem?_eq_none_iff.mp he)]
      exact (hsecond { s with dir := d, buffersize := 0, searchRevocations := false }
        (fun _ => rfl) rfl hpos).cons []
    | some e =>
      by_cases hfits : e.size ≤ s.buffersize
      · obtain ⟨hlt, hget⟩ := List.getElem?_eq_some_iff.mp he
        obtain ⟨d, hround⟩ := trustRound_first h hsized hsearch he hfits
        rw [drop_eq_getElem_cons hlt, hget]
        by_cases hnamed : IsNamed sbatRevocationFile e
        · rw [if_pos hnamed] at hround
          rw [loop_of_continues hround.2, sbatLoads, if_pos ⟨e, mem_cons_self, hnamed⟩]
          exact (hsecond { s with dir := d, buffersize := e.size, searchRevocations := false }
            (hsized.next rfl hfits) rfl hround.1).cons _
        rw [if_neg hnamed] at hround
        rw [loop_of_continues hround.2]
        have hplan := ih (s := { s with dir := d, buffersize := e.size })
          (hsized.next rfl hfits) hsearch (hn.of_entry hlt hround.1)
        have hskip : sbatLoads (e :: listing.drop (pos s.dir + 1)) =
            sbatLoads (listing.drop (pos s.dir + 1)) := by
          simp [sbatLoads, hnamed]
        rw [hskip, ← hround.1]
        exact hplan.cons []
      · refine follows_small h he (by omega) fun s' hsized' hsearch' hpos hfits' => ?_
        rw [← hpos]
        exact ih hsized' (hsearch'.trans hsearch) (hn.of_fits he (by omega) hpos hfits')

lemma loadUnbundledTrust_follows (hsecure : env.secureMode = true)
    (hn : 4 * listing.length + 2 ≤ n) :
    Follows env (loadUnbundledTrust env n) (trustPlan listing) := by
  obtain ⟨d, hopen, hpos⟩ := h.openDir
  unfold loadUnbundledTrust
  rw [if_neg (not_not.mpr h.loadedImage), if_neg (not_not.mpr h.pathName),
    if_neg (not_not.mpr h.fileSystem), if_neg (not_not.mpr h.openVolume), hopen]
  simp only
  rw [if_neg (by simp [hsecure])]
  have hplan := firstPass_follows h (s := ⟨d, 0, false, true, 0⟩) (n := n) (fun _ => rfl) rfl
    (.inl (by simp only [hpos]; omega))
  rw [hpos, drop_zero] at hplan
  exact hplan

end

end

section

variable {listing : List FileInfo}

lemma certLoads_append (a b : List TrustEvent) :
    certLoads (a ++ b) = certLoads a ++ certLoads b :=
  filterMap_append

lemma certLoads_entryLoads (e : FileInfo) :
    certLoads (entryLoads e) = if IsShimCertificate e then [e.name.chars] else [] := by
  rw [entryLoads, certLoads_append]
  split_ifs
  · rfl
  · rfl
  · rfl
  · rfl

lemma certLoads_trustPlan (listing : List FileInfo) : certLoads (trustPlan listing) =
      (listing.filter fun e => IsShimCertificate e).map fun e => e.name.chars := by
  have hsbat : certLoads (sbatLoads listing) = [] := by
    unfold sbatLoads
    split_ifs
    · rfl
    · rfl
  rw [trustPlan, certLoads_append, hsbat, nil_append]
  induction listing with
  | nil => rfl
  | cons e l ih =>
    rw [flatMap_cons, certLoads_append, certLoads_entryLoads, ih]
    · by_cases hcert : IsShimCertificate e
      · rw [if_pos hcert, filter_cons_of_pos (by simpa using hcert)]
        rfl
      · rw [if_neg hcert, filter_cons_of_neg (by simpa using hcert)]
        rfl
    · unfold sbatLoads
      split_ifs
      · rfl
      · rfl

lemma sbat_mem_of_starts {tr pre post : List TrustEvent} {name : List UInt16}
    (hlisted : ∃ e ∈ listing, IsNamed sbatRevocationFile e) (hstarts : tr <+: trustPlan listing)
    (htr : tr = pre ++ .loadCert name :: post) : .loadRevocations .sbat ∈ pre := by
  rw [trustPlan, sbatLoads, if_pos hlisted, htr] at hstarts
  cases pre with
  | nil => cases (cons_prefix_cons.mp hstarts).1
  | cons x pre =>
    obtain ⟨rfl, -⟩ := cons_prefix_cons.mp hstarts
    exact mem_cons_self

end

/-- On a file system that serves a listing the function returns; it tries the certificate files in
their order and none twice, each as long as there is memory for the entries, and none before
`revocations_sbat.efi` if that is listed. -/
theorem loadUnbundledTrust_loads_once {δ : Type} {env : TrustEnv δ} {listing : List FileInfo}
    {pos : δ → ℕ} {rounds : ℕ} (hserves : env.Serves listing pos) (hsecure : env.secureMode = true)
    (hrounds : 4 * listing.length + 2 ≤ rounds) :
    let r := loadUnbundledTrust env rounds
    let certs := (listing.filter fun e => IsShimCertificate e).map fun e => e.name.chars
    (∃ status, r.Yields (some status)) ∧
      ((∀ k, env.pool k = true) → certLoads r.trace = certs) ∧ certLoads r.trace <+: certs ∧
      ((∃ e ∈ listing, IsNamed sbatRevocationFile e) → ∀ pre name post,
        r.trace = pre ++ .loadCert name :: post → .loadRevocations .sbat ∈ pre) := by
  intro r certs
  have hfollows := loadUnbundledTrust_follows hserves hsecure hrounds
  refine ⟨hfollows.returns, fun hpool => ?_, ?_, fun hlisted pre name post htr => ?_⟩
  · rw [hfollows.all hpool, certLoads_trustPlan]
  · have hcerts : certLoads (trustPlan listing) = certs := certLoads_trustPlan listing
    rw [← hcerts]
    exact hfollows.starts.filterMap _
  · exact sbat_mem_of_starts hlisted hfollows.starts htr

def listingEnv (listing : List FileInfo) : TrustEnv ℕ where
  loadedImage := .success
  pathName := .success
  fileSystem := .success
  openVolume := .success
  openDir := .ok 0
  reopenDir := .ok 0
  secureMode := true
  read := fun d b =>
    match listing[d]? with
    | none => .success 0 ⟨[], by simp⟩ d
    | some e => if e.size ≤ b then .success e.size e.name (d + 1) else .bufferTooSmall e.size d
  pool := fun _ => true
  netbootCert := fun _ => .notFound

lemma listingEnv_serves (listing : List FileInfo) : (listingEnv listing).Serves listing id where
  loadedImage := rfl
  pathName := rfl
  fileSystem := rfl
  openVolume := rfl
  openDir := ⟨0, rfl, rfl⟩
  reopenDir := ⟨0, rfl, rfl⟩
  read_entry := by
    intro d b e he hfits
    have he' : listing[d]? = some e := he
    exact ⟨d + 1, by simp [listingEnv, he', hfits], rfl⟩
  read_small := by
    intro d b e he hsmall
    have he' : listing[d]? = some e := he
    exact ⟨d, by simp [listingEnv, he', hsmall], rfl⟩
  read_end := by
    intro d b he
    have he' : listing[d]? = none := he
    exact ⟨⟨[], by simp⟩, d, by simp [listingEnv, he'], rfl⟩

def threeFiles : List FileInfo :=
  [⟨⟨netbootName 0x30, by decide⟩, 126, by decide⟩,
    ⟨⟨sbatRevocationFile.map upper, by decide⟩, 122, by decide⟩,
    ⟨⟨0x53 :: shimCertificate.tail, by decide⟩, 130, by decide⟩]

theorem loadUnbundledTrust_threeFiles :
    let env := listingEnv threeFiles
    let run := loadUnbundledTrust env 14
    env.Serves threeFiles id ∧ env.secureMode = true ∧
      run.trace = [.loadRevocations .sbat, .loadCert (netbootName 0x30),
        .loadCert (0x53 :: shimCertificate.tail)] ∧
      (∃ status, run.Yields (some status)) ∧
      certLoads run.trace =
        (threeFiles.filter fun e => IsShimCertificate e).map fun e => e.name.chars := by
  have hserves := listingEnv_serves threeFiles
  have hrounds : 4 * threeFiles.length + 2 ≤ 14 := by decide
  obtain ⟨hreturns, honce, -⟩ := loadUnbundledTrust_loads_once hserves rfl hrounds
  exact ⟨hserves, rfl, by decide +kernel, hreturns, honce fun _ => rfl⟩

end Shim.LoadOptions
