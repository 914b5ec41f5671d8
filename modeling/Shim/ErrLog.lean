import Shim.Efi
import Shim.Lib.Buffer
import Shim.Lib.Mem
import Shim.Lib.Steps

/-!
# The error log and the debug log

`errlog.c` keeps two logs that grow by `ReallocatePool`, which frees the old buffer, also when it finds
no memory for a new one. A call that then returns early leaves its global pointing to what is freed.
-/

namespace Shim.ErrLog

open Lib List Option

/-- A pointer to a buffer that nothing else points to. -/
inductive Pointer (α : Type) where
  | null
  | live (buffer : List α)
  | freed

/-- The old pointer afterwards, and the result; there is none for a pointer that has been freed. -/
def reallocatePool {α : Type} (oldSize : ℕ) (pool : Option (List α)) :
    Pointer α → Option (Pointer α × Option (List α))
  | .null => some (.null, pool)
  | .live old =>
    if oldSize ≤ old.length then
      some (.freed, pool.map fun new => old.take oldSize ++ new.drop oldSize)
    else none
  | .freed => none

/-! ## The error log -/

/-- `errs` and `nerrs`. A slot without a string is `none`. -/
structure Errs where
  errs : Pointer (Option Text)
  nerrs : ℕ

structure ErrorCall where
  /-- `file`, `func` or `fmt` is `NULL`. -/
  anyNull : Bool
  allocErrs : Bool
  /-- What `PoolPrint` and `MS_VPoolPrint` return. -/
  place : Option Text
  message : Option Text

/-- The size of the array does not wrap: its strings are in memory as well. -/
def vLogError (c : ErrorCall) (e : Errs) : Option (EfiStatus × Errs) :=
  if c.anyNull then some (.invalidParameter, e)
  else do
    let pool := if c.allocErrs then some (List.replicate (e.nerrs + 3) none) else none
    let (errs, newerrs) ← reallocatePool (e.nerrs + 1) pool e.errs
    match newerrs, c.place, c.message with
    | some newerrs, some place, some message =>
      let newerrs := (newerrs.set e.nerrs place).set (e.nerrs + 1) message
      return (.success, ⟨.live (newerrs.set (e.nerrs + 2) none), e.nerrs + 2⟩)
    | _, _, _ => return (.outOfResources, ⟨errs, e.nerrs⟩)

def clearErrors (e : Errs) : Option Errs :=
  match e.errs with
  | .null => if e.nerrs = 0 then some ⟨.null, 0⟩ else none
  | .live slots =>
    -- each string is read from the array, and freed
    if e.nerrs ≤ slots.length ∧ (slots.take e.nerrs).all Option.isSome then some ⟨.null, 0⟩ else none
  | .freed => none

def Errs.Sound (e : Errs) : Prop :=
  e.errs = .null ∧ e.nerrs = 0 ∨ ∃ (strings : List Text) (rest : List (Option Text)),
    e.errs = .live (strings.map some ++ rest) ∧ strings.length = e.nerrs

def Errs.of (strings : List Text) : Errs :=
  if strings = [] then ⟨.null, 0⟩ else ⟨.live (strings.map some ++ [none]), strings.length⟩

def ErrorCall.strings (c : ErrorCall) : Option (List Text) :=
  match c.anyNull, c.allocErrs, c.place, c.message with
  | true, _, _, _ => some []
  | false, true, some place, some message => some [place, message]
  | false, _, _, _ => none

lemma Errs.sound_of (strings : List Text) : (Errs.of strings).Sound := by
  unfold Errs.of
  split_ifs
  · exact .inl ⟨rfl, rfl⟩
  · exact .inr ⟨strings, [none], rfl, rfl⟩

/-- With or without a new array, the old one is gone. -/
theorem reallocatePool_of (l : List Text) (alloc : Bool) : reallocatePool ((Errs.of l).nerrs + 1)
      (if alloc then some (List.replicate ((Errs.of l).nerrs + 3) none) else none) (Errs.of l).errs =
    some (if l = [] then .null else .freed,
      if alloc then some (l.map some ++ [none, none, none]) else none) := by
  unfold Errs.of
  by_cases hnil : l = []
  · simp [hnil, reallocatePool, List.replicate]
  rw [if_neg hnil, if_neg hnil, reallocatePool, if_pos (by simp), take_of_length_le (by simp)]
  cases alloc with
  | false => rfl
  | true =>
    rw [if_pos rfl, if_pos rfl, map_some, drop_replicate, Nat.add_sub_add_left]
    simp [List.replicate]

lemma vLogError_of (c : ErrorCall) (l : List Text) : ∃ status, vLogError c (.of l) = some (status,
    c.strings.elim (if l = [] then .of l else ⟨.freed, l.length⟩) fun strings => .of (l ++ strings)) := by
  rcases c with ⟨anyNull, allocErrs, place, message⟩
  cases anyNull with
  | true => exact ⟨.invalidParameter, by simp [vLogError, ErrorCall.strings]⟩
  | false =>
    simp only [vLogError, Bool.false_eq_true, if_false, reallocatePool_of, bind_eq_bind,
      bind_some]
    by_cases hnil : l = []
    · cases allocErrs <;> cases place <;> cases message <;> simp [ErrorCall.strings, Errs.of, hnil]
    · cases allocErrs <;> cases place <;> cases message <;> simp [ErrorCall.strings, Errs.of, hnil]

lemma clearErrors_of (l : List Text) : clearErrors (.of l) = some (.of []) := by
  by_cases hnil : l = []
  · simp [hnil, clearErrors, Errs.of]
  · simp [clearErrors, Errs.of, hnil]

/-! ## The debug log -/

structure DebugLog where
  debugLog : Pointer UInt8
  debugLogSz : ℕ
  debugLogAlloc : ℕ

def bytes (t : Text) : List UInt8 := t.buffer.flatMap fun c : UInt16 => [c.toUInt8, (c >>> 8).toUInt8]

/-- `CopyMem(&debug_log[debug_log_sz], buf, buf_sz)`, and what is behind it. -/
def append (buf : Text) (d : DebugLog) : Option (ℕ × DebugLog) :=
  let sz := d.debugLogSz + (bytes buf).length
  match d.debugLog with
  | .live log =>
    if sz ≤ log.length then
      some (buf.chars.length,
        { d with debugLog := .live (log.take d.debugLogSz ++ bytes buf ++ log.drop sz), debugLogSz := sz })
    else none
  | _ => none

def grown (alloc size : ℕ) : ℕ := (alloc + size + 0xfff) / 0x1000 * 0x1000

def logDebugPrint (buf : Option Text) (pool : Option Mem) (d : DebugLog) : Option (ℕ × DebugLog) :=
  match buf with
  | none => some (0, d)
  | some buf =>
    if d.debugLogAlloc < d.debugLogSz + (bytes buf).length then do
      let newAllocSz := grown d.debugLogAlloc (bytes buf).length
      let (debugLog, new) ← reallocatePool d.debugLogAlloc (pool.map (·.slice 0 newAllocSz)) d.debugLog
      match new with
      | none => return (0, { d with debugLog := debugLog })
      | some new => append buf ⟨.live new, d.debugLogSz, newAllocSz⟩
    else append buf d

def DebugLog.Sound (d : DebugLog) (log : List UInt8) : Prop :=
  d.debugLog = .null ∧ d.debugLogAlloc = 0 ∨
    ∃ rest, d.debugLog = .live (log ++ rest) ∧ (log ++ rest).length = d.debugLogAlloc ∧ log.length = d.debugLogSz

structure Messages where
  messages : List Text
  room : ℕ

namespace Messages

variable (l : Messages)

def bytes : List UInt8 := l.messages.flatMap ErrLog.bytes

def add (pool : Option Mem) : Option Text → Option Messages
  | none => some l
  | some buf =>
    let size := (ErrLog.bytes buf).length
    if l.bytes.length + size ≤ l.room then some ⟨l.messages ++ [buf], l.room⟩
    else if pool.isSome then some ⟨l.messages ++ [buf], grown l.room size⟩
    else none

structure In (d : DebugLog) : Prop where
  size : d.debugLogSz = l.bytes.length
  alloc : d.debugLogAlloc = l.room
  le : l.bytes.length ≤ l.room
  log : l.messages = [] ∧ l.room = 0 ∧ d.debugLog = .null ∨ l.messages ≠ [] ∧
    ∃ rest, d.debugLog = .live (l.bytes ++ rest) ∧ (l.bytes ++ rest).length = l.room

end Messages

variable {d : DebugLog} {l : Messages}

lemma Messages.In.sound (h : l.In d) : d.Sound l.bytes := by
  obtain ⟨-, hroom, hnull⟩ | ⟨-, rest, hlive, hroom⟩ := h.log
  · exact .inl ⟨hnull, h.alloc.trans hroom⟩
  · exact .inr ⟨rest, hlive, hroom.trans h.alloc.symm, h.size.symm⟩

/-- A message that fits goes behind the others. -/
theorem append_in (buf : Text) {rest : List UInt8} {n : ℕ} (hn : (l.bytes ++ rest).length = n)
    (hfits : l.bytes.length + (bytes buf).length ≤ n) :
    ∃ r, append buf ⟨.live (l.bytes ++ rest), l.bytes.length, n⟩ = some r ∧
      Messages.In ⟨l.messages ++ [buf], n⟩ r.2 := by
  rw [length_append] at hn
  have hbytes : Messages.bytes ⟨l.messages ++ [buf], n⟩ = l.bytes ++ bytes buf := by
    simp [Messages.bytes]
  refine ⟨_, by simp only [append, length_append, hn, if_pos hfits]; rfl, ?_, rfl, ?_,
    .inr ⟨by simp, rest.drop (bytes buf).length, ?_⟩⟩
  · rw [hbytes, length_append]
  · rwa [hbytes, length_append]
  · rw [hbytes]
    simp
    omega

/-- A larger buffer starts with the messages. -/
theorem Messages.In.realloc (h : l.In d) (m : Mem) {n : ℕ} (hn : l.room ≤ n) :
    ∃ p rest, reallocatePool d.debugLogAlloc (some (m.slice 0 n)) d.debugLog =
      some (p, some (l.bytes ++ rest)) ∧ (l.bytes ++ rest).length = n := by
  obtain ⟨hnil, -, hnull⟩ | ⟨-, rest, hlive, hroom⟩ := h.log
  · rw [hnull]
    exact ⟨.null, m.slice 0 n, by simp [reallocatePool, bytes, hnil], by simp [bytes, hnil]⟩
  rw [h.alloc, hlive]
  refine ⟨.freed, rest ++ (m.slice 0 n).drop l.room, ?_, ?_⟩
  · rw [reallocatePool, if_pos hroom.ge, map_some, take_of_length_le hroom.le,
      append_assoc]
  · rw [← append_assoc, length_append, hroom, length_drop, Mem.length_slice]
    omega

lemma logDebugPrint_in (h : l.In d) (buf : Option Text) (pool : Option Mem) :
    ∃ n d', logDebugPrint buf pool d = some (n, d') ∧ (l.add pool buf).elim
      (if l.messages = [] then l.In d' else d'.debugLog = .freed) (·.In d') := by
  cases buf with
  | none => exact ⟨0, d, rfl, h⟩
  | some buf =>
    have hgrow : d.debugLogAlloc < d.debugLogSz + (bytes buf).length ↔
        ¬ l.bytes.length + (bytes buf).length ≤ l.room := by rw [h.alloc, h.size, not_le]
    simp only [logDebugPrint, Messages.add, hgrow]
    by_cases hfits : l.bytes.length + (bytes buf).length ≤ l.room
    · obtain ⟨-, hroom, -⟩ | ⟨-, rest, hlive, hroom⟩ := h.log
      · have hpos : 0 < (bytes buf).length := by simp [bytes, Text.buffer]
        omega
      · obtain ⟨r, hr, hin⟩ := append_in buf hroom hfits
        refine ⟨r.1, r.2, ?_, by simpa [hfits] using hin⟩
        rw [if_neg (not_not.mpr hfits), ← hr, ← hlive, ← h.size, ← h.alloc]
    cases pool with
    | none =>
      obtain ⟨hnil, -, hnull⟩ | ⟨hne, rest, hlive, hroom⟩ := h.log
      · refine ⟨0, d, ?_, by simpa [hfits, hnil] using h⟩
        simp only [hfits, not_false_eq_true, if_true, map_none, hnull, reallocatePool]
        rw [← hnull]
        rfl
      · have hfree : reallocatePool d.debugLogAlloc none d.debugLog = some (.freed, none) := by
          rw [h.alloc, hlive, reallocatePool, if_pos hroom.ge]
          rfl
        exact ⟨0, { d with debugLog := .freed }, by simp [hfits, hfree], by simp [hfits, hne]⟩
    | some m =>
      have hle : l.room + (bytes buf).length ≤ grown l.room (bytes buf).length := by
        unfold grown
        omega
      obtain ⟨p, rest, hpool, hnew⟩ := h.realloc m (Nat.le_of_add_right_le hle)
      obtain ⟨r, hr, hin⟩ := append_in buf hnew ((Nat.add_le_add_right h.le _).trans hle)
      refine ⟨r.1, r.2, ?_, by simpa [hfits] using hin⟩
      rw [← h.alloc] at hpool hr
      rw [← h.size] at hr
      simp only [hfits, not_false_eq_true, if_true, map_some, hpool, bind_eq_bind,
        bind_some, hr]

/-! ## Runs -/

inductive Call where
  | vLogError (c : ErrorCall)
  | clearErrors
  | logDebugPrint (buf : Option Text) (pool : Option Mem)

structure Globals where
  errs : Errs
  debug : DebugLog

def Call.run (g : Globals) : Call → Option Globals
  | .vLogError c => do return { g with errs := (← ErrLog.vLogError c g.errs).2 }
  | .clearErrors => do return { g with errs := ← ErrLog.clearErrors g.errs }
  | .logDebugPrint buf pool => do return { g with debug := (← ErrLog.logDebugPrint buf pool g.debug).2 }

def runAll (calls : List Call) : Option Globals :=
  calls.foldlM Call.run ⟨⟨.null, 0⟩, ⟨.null, 0, 0⟩⟩

structure Logs where
  errors : List Text
  debug : Messages

def Logs.next (l : Logs) : Call → Logs
  | .vLogError c => { l with errors := l.errors ++ c.strings.getD [] }
  | .clearErrors => { l with errors := [] }
  | .logDebugPrint buf pool => { l with debug := (l.debug.add pool buf).getD l.debug }

def after (calls : List Call) : Logs := calls.foldl Logs.next ⟨[], [], 0⟩

/-- A call that finds no memory is the first one for its log, or since `ClearErrors`. -/
def Call.Safe (l : Logs) : Call → Prop
  | .vLogError c => c.strings.isSome ∨ l.errors = []
  | .clearErrors => True
  | .logDebugPrint buf pool => (l.debug.add pool buf).isSome ∨ l.debug.messages = []

def Shows (g : Globals) (l : Logs) : Prop := g.errs = .of l.errors ∧ l.debug.In g.debug

lemma Shows.run {g : Globals} {l : Logs} (h : Shows g l) (c : Call) : ∃ r, c.run g = some r ∧
    (c.Safe l ∧ Shows r (l.next c) ∨ ¬ c.Safe l ∧ (r.errs.errs = .freed ∨ r.debug.debugLog = .freed)) := by
  obtain ⟨errs, debug⟩ := g
  obtain ⟨rfl, hdebug⟩ := h
  cases c with
  | vLogError c =>
    obtain ⟨status, hcall⟩ := vLogError_of c l.errors
    refine ⟨_, by simp only [Call.run, hcall, bind_eq_bind, bind_some]; rfl, ?_⟩
    cases hstrings : c.strings with
    | some strings => exact .inl ⟨by simp [Call.Safe, hstrings], by simp [Logs.next, hstrings], hdebug⟩
    | none =>
      by_cases hnil : l.errors = []
      · exact .inl ⟨.inr hnil, by simp [Logs.next, hstrings, hnil], hdebug⟩
      · exact .inr ⟨by simp [Call.Safe, hstrings, hnil], .inl (by simp [hnil])⟩
  | clearErrors =>
    exact ⟨⟨.of [], debug⟩, by simp [Call.run, clearErrors_of], .inl ⟨trivial, rfl, hdebug⟩⟩
  | logDebugPrint buf pool =>
    obtain ⟨n, d, hcall, hd⟩ := logDebugPrint_in hdebug buf pool
    refine ⟨⟨.of l.errors, d⟩, by simp [Call.run, hcall], ?_⟩
    cases hadd : l.debug.add pool buf with
    | some messages =>
      rw [hadd] at hd
      exact .inl ⟨by simp [Call.Safe, hadd], rfl, by simpa [Logs.next, hadd] using hd⟩
    | none =>
      rw [hadd, elim_none] at hd
      by_cases hnil : l.debug.messages = []
      · rw [if_pos hnil] at hd
        exact .inl ⟨.inr hnil, rfl, by simpa [Logs.next, hadd] using hd⟩
      · rw [if_neg hnil] at hd
        exact .inr ⟨by simp [Call.Safe, hadd, hnil], .inr hd⟩

lemma runAll_snoc {calls : List Call} {g : Globals} (h : runAll calls = some g) (c : Call) :
    runAll (calls ++ [c]) = c.run g := by
  unfold runAll at h ⊢
  rw [foldlM_append, h]
  simp

/-- After every call both logs are `NULL` or live and as they should be, iff every call is safe behind
the calls before it. -/
theorem errLog_sound_iff (calls : List Call) :
    (∀ pre, pre <+: calls → ∃ g, runAll pre = some g ∧ g.errs.Sound ∧
        g.debug.Sound (after pre).debug.bytes) ↔
      ∀ pre c, pre ++ [c] <+: calls → c.Safe (after pre) := by
  refine forall_prefix_iff (I := fun pre => ∃ g, runAll pre = some g ∧ Shows g (after pre))
    ⟨_, rfl, rfl, rfl, rfl, le_rfl, .inl ⟨rfl, rfl, rfl⟩⟩ ?_ ?_ ?_ calls
  · rintro pre c ⟨g, hrun, h⟩ hsafe
    obtain ⟨r, hr, ⟨-, hshows⟩ | ⟨hnot, -⟩⟩ := h.run c
    · exact ⟨r, (runAll_snoc hrun c).trans hr, by simpa [after] using hshows⟩
    · exact absurd hsafe hnot
  · rintro pre ⟨g, hrun, herrs, hdebug⟩
    exact ⟨g, hrun, herrs ▸ Errs.sound_of _, hdebug.sound⟩
  · rintro pre c ⟨g, hrun, h⟩ ⟨r', hr', herrs, hdebug⟩
    obtain ⟨r, hr, ⟨hsafe, -⟩ | ⟨-, hfreed⟩⟩ := h.run c
    · exact hsafe
    rw [runAll_snoc hrun, hr] at hr'
    obtain rfl := Option.some.inj hr'
    rcases hfreed with hfreed | hfreed
    · simp [Errs.Sound, hfreed] at herrs
    · simp [DebugLog.Sound, hfreed] at hdebug

def letterE : Text := ⟨[0x65], by decide⟩

def shortError (alloc : Bool) : Call := .vLogError ⟨false, alloc, letterE, letterE⟩

/-- The second error finds no memory: `errs` points to the freed array, and `ClearErrors` frees it
again. -/
theorem errLog_dangles : (runAll [shortError true, shortError false]).map Globals.errs = some ⟨.freed, 2⟩ ∧
      ¬ Errs.Sound ⟨.freed, 2⟩ ∧
      runAll [shortError true, shortError false, .clearErrors] = none :=
  ⟨rfl, by simp [Errs.Sound], rfl⟩

end Shim.ErrLog
