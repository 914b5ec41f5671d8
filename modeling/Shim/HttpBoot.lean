import Shim.Efi
import Shim.Lib.CStr
import Shim.Lib.Word

/-!
# Receiving a file over HTTP

`receive_http_response` takes the tokens that the firmware's HTTP driver delivers: the first one has
the headers and the first part of the body, the others have the rest. The parts are copied one behind
the other to a buffer of the size in `Content-Length`.
-/

namespace Shim.HttpBoot

open Lib List

inductive HttpStatusCode where
  | unsupportedStatus
  | continue100
  | switchingProtocols101
  | ok200
  | created201
  | accepted202
  | nonAuthoritativeInformation203
  | noContent204
  | resetContent205
  | partialContent206
  | multipleChoices300
  | movedPermanently301
  | found302
  | seeOther303
  | notModified304
  | useProxy305
  | temporaryRedirect307
  | badRequest400
  | unauthorized401
  | paymentRequired402
  | forbidden403
  | notFound404
  | methodNotAllowed405
  | notAcceptable406
  | proxyAuthenticationRequired407
  | requestTimeOut408
  | conflict409
  | gone410
  | lengthRequired411
  | preconditionFailed412
  | requestEntityTooLarge413
  | requestUriTooLarge414
  | unsupportedMediaType415
  | requestedRangeNotSatisfied416
  | expectationFailed417
  | internalServerError500
  | notImplemented501
  | badGateway502
  | serviceUnavailable503
  | gatewayTimeOut504
  | httpVersionNotSupported505
  deriving DecidableEq

def efiStatusFromHttpStatus : HttpStatusCode → EfiStatus
  | .badRequest400 | .lengthRequired411 | .requestEntityTooLarge413 | .requestUriTooLarge414
  | .unsupportedMediaType415 | .requestedRangeNotSatisfied416 | .expectationFailed417 =>
    .invalidParameter
  | .unauthorized401 | .paymentRequired402 | .forbidden403 | .proxyAuthenticationRequired407 =>
    .accessDenied
  | .notFound404 | .gone410 => .notFound
  | .methodNotAllowed405 | .notImplemented501 => .unsupported
  | .notAcceptable406 => .noMedia
  | .requestTimeOut408 | .gatewayTimeOut504 => .timeout
  | .conflict409 | .preconditionFailed412 => .mediaChanged
  | .internalServerError500 | .badGateway502 => .deviceError
  | .serviceUnavailable503 => .notReady
  | .httpVersionNotSupported505 => .incompatibleVersion
  | _ => .httpError

structure HttpHeader where
  fieldName : List UInt8
  fieldValue : List UInt8

def sizeofRxBuffer : ℕ := 9216

/-- The answer to a call of `Response`: the status of the call, and the token when it is signalled.
The body is at most as long as the buffer that is offered. -/
structure HttpToken where
  response : EfiStatus
  status : EfiStatus
  statusCode : HttpStatusCode
  headers : List HttpHeader
  body : List UInt8
  body_le : body.length ≤ sizeofRxBuffer

structure HttpEnv where
  createEvent : EfiStatus
  token : ℕ → HttpToken
  /-- `AllocatePool`, with what is in the new buffer. -/
  allocatePool : ℕ → Option Mem
  allocatePool_fits : ∀ n m, allocatePool n = some m → n + sizeofRxBuffer ≤ 2 ^ 64

/-! ## The model -/

def toupper (c : UInt8) : UInt8 := if 0x61 ≤ c ∧ c ≤ 0x7a then c - 0x20 else c

def strcasecmp : List UInt8 → List UInt8 → ℤ
  | [], [] => 0
  | [], d :: _ => 0 - (toupper d).toNat
  | c :: _, [] => (toupper c).toNat
  | c :: cs, d :: ds =>
    if c ≠ 0 ∧ toupper c = toupper d then strcasecmp cs ds
    else (toupper c).toNat - (toupper d).toNat

def digitsFrom (u : ℕ) : List UInt8 → ℕ
  | [] => u
  | c :: cs =>
    if 0x30 ≤ c ∧ c ≤ 0x39 then digitsFrom ((u * 10 + (c.toNat - 0x30)) % 2 ^ 64) cs else u

def asciiToInt (str : List UInt8) : ℕ := digitsFrom 0 (str.dropWhile (· == 0x20))

def contentLengthName : List UInt8 := ofText "Content-Length"

/-- The loop over the headers, with `*buf_size` and `buf_size_set`; it is left with the `*buf_size` it
has if a second length differs. -/
def contentLength (bufSize : ℕ) (bufSizeSet : Bool) : List HttpHeader → Except ℕ ℕ
  | [] => .ok bufSize
  | h :: headers =>
    if strcasecmp h.fieldName contentLengthName ≠ 0 then contentLength bufSize bufSizeSet headers
    else if bufSizeSet = true ∧ asciiToInt h.fieldValue ≠ bufSize then .error bufSize
    else contentLength (asciiToInt h.fieldValue) true headers

structure HttpExit where
  status : EfiStatus
  buffer : Option Mem
  bufSize : ℕ
  tokens : ℕ

section

variable (e : HttpEnv)

def receiveRest (bufSize : ℕ) : ℕ → ℕ → ℕ → Mem → Option HttpExit
  | 0, _, _, _ => none
  | rounds + 1, k, downloaded, buffer =>
    if downloaded < bufSize then
      let t := e.token k
      if t.response ≠ .success then some ⟨t.response, some buffer, bufSize, k⟩
      else if t.status ≠ .success then some ⟨t.status, some buffer, bufSize, k⟩
      else if bufSize < addW 64 t.body.length downloaded then
        some ⟨.badBufferSize, some buffer, bufSize, k + 1⟩
      else
        receiveRest bufSize rounds (k + 1) (addW 64 downloaded t.body.length)
          (buffer.copy downloaded (.ofBytes t.body) 0 t.body.length)
    else some ⟨.success, some buffer, bufSize, k⟩

/-- With `*buffer` and `*buf_size` zero; `none` if it has not returned after so many rounds. An exit
that does not set `efi_status` returns that of `Response`. -/
def receiveHttpResponse (rounds : ℕ) : Option HttpExit :=
  let t := e.token 0
  if e.createEvent ≠ .success then some ⟨e.createEvent, none, 0, 0⟩
  else if t.response ≠ .success then some ⟨t.response, none, 0, 0⟩
  else if t.status ≠ .success then some ⟨t.status, none, 0, 0⟩
  else if t.statusCode ≠ .ok200 then some ⟨efiStatusFromHttpStatus t.statusCode, none, 0, 1⟩
  else
    match contentLength 0 false t.headers with
    | .error bufSize => some ⟨t.response, none, bufSize, 1⟩
    | .ok bufSize =>
      if bufSize = 0 then some ⟨t.response, none, bufSize, 1⟩
      else if bufSize < t.body.length then some ⟨.badBufferSize, none, bufSize, 1⟩
      else
        match e.allocatePool bufSize with
        | none => some ⟨t.response, none, bufSize, 1⟩
        | some fresh =>
          receiveRest e bufSize rounds 1 t.body.length
            (fresh.copy 0 (.ofBytes t.body) 0 t.body.length)

def bodies (k : ℕ) : List UInt8 := (List.range k).flatMap fun i => (e.token i).body

end

def contentLengths (headers : List HttpHeader) : List ℕ :=
  (headers.filter fun h => strcasecmp h.fieldName contentLengthName = 0).map fun h =>
    asciiToInt h.fieldValue

variable {headers : List HttpHeader} {n : ℕ}

lemma contentLengths_cons (h : HttpHeader) (headers : List HttpHeader) :
    contentLengths (h :: headers) = if strcasecmp h.fieldName contentLengthName = 0 then
        asciiToInt h.fieldValue :: contentLengths headers
      else contentLengths headers := by
  unfold contentLengths
  split_ifs with hname
  · rw [filter_cons_of_pos (by simpa using hname), map_cons]
  · rw [filter_cons_of_neg (by simpa using hname)]

lemma contentLength_set {bufSize : ℕ} : contentLength bufSize true headers = .ok n ↔
      n = bufSize ∧ ∀ l ∈ contentLengths headers, l = bufSize := by
  induction headers generalizing bufSize with
  | nil => simp [contentLength, contentLengths, eq_comm]
  | cons h headers ih =>
    rw [contentLength, contentLengths_cons]
    by_cases hname : strcasecmp h.fieldName contentLengthName = 0
    · rw [if_neg (not_not.mpr hname), if_pos hname, forall_mem_cons]
      by_cases hsame : asciiToInt h.fieldValue = bufSize
      · rw [if_neg (fun hne => hne.2 hsame), hsame, ih]
        simp only [true_and]
      · rw [if_pos ⟨rfl, hsame⟩]
        simp [hsame]
    · rw [if_pos hname, if_neg hname, ih]

lemma contentLength_ok : contentLength 0 false headers = .ok n ↔
      (contentLengths headers = [] ∧ n = 0) ∨
        (contentLengths headers ≠ [] ∧ ∀ l ∈ contentLengths headers, l = n) := by
  induction headers with
  | nil => simp [contentLength, contentLengths, eq_comm]
  | cons h headers ih =>
    rw [contentLength, contentLengths_cons]
    by_cases hname : strcasecmp h.fieldName contentLengthName = 0
    · rw [if_neg (not_not.mpr hname), if_neg (by simp), if_pos hname, contentLength_set]
      simp only [cons_ne_nil, false_and, ne_eq, not_false_eq_true, true_and, false_or,
        forall_mem_cons]
      constructor
      · rintro ⟨rfl, hall⟩
        exact ⟨rfl, hall⟩
      · rintro ⟨rfl, hall⟩
        exact ⟨rfl, hall⟩
    · rw [if_pos hname, if_neg hname, ih]

/-! ## The body -/

section

variable {e : HttpEnv} {x : HttpExit}

lemma bodies_succ (k : ℕ) : bodies e (k + 1) = bodies e k ++ (e.token k).body := by
  unfold bodies
  rw [range_succ, flatMap_append, flatMap_singleton]

lemma slice_copy_body (buffer : Mem) (downloaded : ℕ) (body : List UInt8) :
    (buffer.copy downloaded (.ofBytes body) 0 body.length).slice 0 (downloaded + body.length) =
      buffer.slice 0 downloaded ++ body := by
  rw [Mem.slice_add, Nat.zero_add, Mem.slice_copy_of_disjoint _ _ _ (.inl (by omega)),
    Mem.slice_copy_self, Mem.slice_ofBytes_self]

lemma receiveRest_success {bufSize rounds k downloaded : ℕ} {buffer : Mem}
    (hfits : bufSize + sizeofRxBuffer ≤ 2 ^ 64) (hle : downloaded ≤ bufSize)
    (hbuffer : buffer.slice 0 downloaded = bodies e k)
    (h : receiveRest e bufSize rounds k downloaded buffer = some x) (hx : x.status = .success) :
    x.bufSize = bufSize ∧ ∃ m, x.buffer = some m ∧ m.slice 0 bufSize = bodies e x.tokens := by
  induction rounds generalizing k downloaded buffer with
  | zero => cases h
  | succ rounds ih =>
    rw [receiveRest] at h
    dsimp only at h
    split_ifs at h with hmore hresponse hstatus hlong
    · cases h
      exact absurd hx hresponse
    · cases h
      exact absurd hx hstatus
    · cases h
      cases hx
    · have hbody := (e.token k).body_le
      have hsum : addW 64 downloaded (e.token k).body.length =
          downloaded + (e.token k).body.length := addW_of_lt (by omega)
      have hsum' : addW 64 (e.token k).body.length downloaded =
          (e.token k).body.length + downloaded := addW_of_lt (by omega)
      rw [hsum'] at hlong
      rw [hsum] at h
      refine ih (by omega) ?_ h
      rw [slice_copy_body, hbuffer, bodies_succ]
    · cases h
      obtain rfl : downloaded = bufSize := Nat.le_antisymm hle (Nat.le_of_not_lt hmore)
      exact ⟨rfl, buffer, rfl, hbuffer⟩

/-- The reply is 200, its lengths agree on a size that is not zero, and the buffer holds as many
bytes, the bodies of the tokens one behind the other. -/
structure Complete (e : HttpEnv) (x : HttpExit) : Prop where
  ok : (e.token 0).statusCode = .ok200
  length_ne : x.bufSize ≠ 0
  present : contentLengths (e.token 0).headers ≠ []
  agree : ∀ l ∈ contentLengths (e.token 0).headers, l = x.bufSize
  buffer : ∃ m, x.buffer = some m ∧ m.slice 0 x.bufSize = bodies e x.tokens

structure Replied (e : HttpEnv) : Prop where
  event : e.createEvent = .success
  response : (e.token 0).response = .success
  status : (e.token 0).status = .success
  ok : (e.token 0).statusCode = .ok200

/-- The exits without a status are not taken: the lengths agree on a size that is not zero, and if
the first body is not longer, there is memory. -/
structure Usable (e : HttpEnv) (n : ℕ) : Prop where
  length_ne : n ≠ 0
  present : contentLengths (e.token 0).headers ≠ []
  agree : ∀ l ∈ contentLengths (e.token 0).headers, l = n
  memory : (e.token 0).body.length ≤ n → (e.allocatePool n).isSome = true

lemma efiStatusFromHttpStatus_ne_success (code : HttpStatusCode) :
    efiStatusFromHttpStatus code ≠ .success := by
  cases code <;> decide

lemma receiveHttpResponse_of_replied (h : Replied e) (rounds : ℕ) : receiveHttpResponse e rounds =
      match contentLength 0 false (e.token 0).headers with
      | .error bufSize => some ⟨.success, none, bufSize, 1⟩
      | .ok bufSize =>
        if bufSize = 0 then some ⟨.success, none, bufSize, 1⟩
        else if bufSize < (e.token 0).body.length then some ⟨.badBufferSize, none, bufSize, 1⟩
        else
          match e.allocatePool bufSize with
          | none => some ⟨.success, none, bufSize, 1⟩
          | some fresh =>
            receiveRest e bufSize rounds 1 (e.token 0).body.length
              (fresh.copy 0 (.ofBytes (e.token 0).body) 0 (e.token 0).body.length) := by
  unfold receiveHttpResponse
  dsimp only
  rw [if_neg (not_not.mpr h.event), if_neg (not_not.mpr h.response), if_neg (not_not.mpr h.status),
    if_neg (not_not.mpr h.ok), h.response]

lemma replied_of_success {rounds : ℕ} (h : receiveHttpResponse e rounds = some x)
    (hx : x.status = .success) : Replied e := by
  unfold receiveHttpResponse at h
  dsimp only at h
  split_ifs at h with hevent hresponse hstatus hok
  · cases h
    exact absurd hx hevent
  · cases h
    exact absurd hx hresponse
  · cases h
    exact absurd hx hstatus
  · cases h
    exact absurd hx (efiStatusFromHttpStatus_ne_success _)
  · exact ⟨not_not.mp hevent, not_not.mp hresponse, not_not.mp hstatus, not_not.mp hok⟩

lemma not_complete_of_none {bufSize tokens : ℕ} {status : EfiStatus} :
    ¬ Complete e ⟨status, none, bufSize, tokens⟩ := by
  intro h
  obtain ⟨m, hm, -⟩ := h.buffer
  cases hm

lemma complete_of_usable {rounds : ℕ} (hn : Usable e n) (hreplied : Replied e)
    (h : receiveHttpResponse e rounds = some x) (hx : x.status = .success) : Complete e x := by
  have hlength : contentLength 0 false (e.token 0).headers = .ok n :=
    contentLength_ok.mpr (.inr ⟨hn.present, hn.agree⟩)
  rw [receiveHttpResponse_of_replied hreplied, hlength] at h
  dsimp only at h
  rw [if_neg hn.length_ne] at h
  split_ifs at h with hlong
  · cases h
    cases hx
  have hle : (e.token 0).body.length ≤ n := Nat.le_of_not_lt hlong
  obtain ⟨fresh, hfresh⟩ := Option.isSome_iff_exists.mp (hn.memory hle)
  rw [hfresh] at h
  have hfirst := slice_copy_body fresh 0 (e.token 0).body
  rw [Nat.zero_add, Mem.slice_zero, nil_append] at hfirst
  have hbodies : bodies e 1 = (e.token 0).body := by simp [bodies]
  obtain ⟨rfl, hbuffer⟩ := receiveRest_success (e.allocatePool_fits n fresh hfresh) hle
    (hfirst.trans hbodies.symm) h hx
  exact ⟨hreplied.ok, hn.length_ne, hn.present, hn.agree, hbuffer⟩

/-- `EFI_SUCCESS` always stands for a file that has been received, with any number of tokens, iff a
reply with 200 has lengths that agree on a size that is not zero, and memory for it. -/
theorem receiveHttpResponse_success_iff (e : HttpEnv) :
    (∀ rounds x, receiveHttpResponse e rounds = some x → x.status = .success → Complete e x) ↔
      (Replied e → ∃ n, Usable e n) := by
  constructor
  · intro hsuccess hreplied
    have hrun := receiveHttpResponse_of_replied hreplied 0
    cases hlength : contentLength 0 false (e.token 0).headers with
    | error bufSize =>
      rw [hlength] at hrun
      exact absurd (hsuccess 0 _ hrun rfl) not_complete_of_none
    | ok n =>
      rw [hlength] at hrun
      dsimp only at hrun
      by_cases hzero : n = 0
      · rw [if_pos hzero] at hrun
        exact absurd (hsuccess 0 _ hrun rfl) not_complete_of_none
      rcases contentLength_ok.mp hlength with ⟨-, h⟩ | ⟨hpresent, hagree⟩
      · exact absurd h hzero
      · refine ⟨n, hzero, hpresent, hagree, fun hle => ?_⟩
        rw [if_neg hzero, if_neg (Nat.not_lt.mpr hle)] at hrun
        cases halloc : e.allocatePool n with
        | none =>
          rw [halloc] at hrun
          exact absurd (hsuccess 0 _ hrun rfl) not_complete_of_none
        | some fresh => rfl
  · intro husable rounds x h hx
    have hreplied := replied_of_success h hx
    obtain ⟨n, hn⟩ := husable hreplied
    exact complete_of_usable hn hreplied h hx

end

def chunkedReply : HttpEnv where
  createEvent := .success
  token _ := ⟨.success, .success, .ok200, [⟨ofText "Transfer-Encoding", ofText "chunked"⟩],
    [0x4d, 0x5a, 0, 0], by decide⟩
  allocatePool n := if n + sizeofRxBuffer ≤ 2 ^ 64 then some fun _ => 0 else none
  allocatePool_fits := by
    intro n m h
    split_ifs at h with hfits
    exact hfits

/-- The function returns `EFI_SUCCESS` and leaves `*buffer` at `NULL`. -/
theorem chunkedReply_succeeds :
    (receiveHttpResponse chunkedReply 0).map (fun x => (x.status, x.buffer.isSome, x.bufSize)) =
      some (.success, false, 0) := by
  decide

end Shim.HttpBoot
