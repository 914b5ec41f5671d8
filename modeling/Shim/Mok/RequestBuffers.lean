import Shim.Mok.LeftKeys
import Shim.Mok.Menu

/-!
# The buffers of the requests

`check_mok_request` reads the requests into buffers, hands the buffers to the menu, and frees them
when the menu has returned. The prompt for a deletion frees its buffer too. The menu then forgets its
own pointer, but not the one of its caller.
-/

namespace Shim.Mok

open List Function

open Verify (encodeLists)

inductive BufferEvent where
  | use (request : MokRequest)
  | free (request : MokRequest)
  deriving DecidableEq

def BufferEvent.request : BufferEvent → MokRequest
  | .use r => r
  | .free r => r

def MenuItem.request : MenuItem → Option MokRequest
  | .enrollMok => some .new
  | .deleteMok => some .del
  | .enrollMokX => some .xNew
  | .deleteMokX => some .xDel
  | .changeSb => some .sb
  | .setPw => some .pw
  | .changeDb => some .db
  | .changeTml => some .tml
  | _ => none

structure MenuChoice where
  item : MenuItem
  status : EfiStatus
  deriving DecidableEq

def MenuChoice.frees (c : MenuChoice) : Bool :=
  (c.item = .deleteMok || c.item = .deleteMokX) && c.status = .success

def MenuChoice.events (c : MenuChoice) : List BufferEvent :=
  match c.item.request with
  | none => []
  | some r => if c.frees then [.use r, .free r] else [.use r]

def menuChoice (i : MenuInput) (present : MokVar → Bool) (st : MenuState) : Option MenuChoice :=
  match i.choice.bind fun k => (menuItems st.requests present)[k]? with
  | none => none
  | some item =>
    match menuAction i st item with
    | .error _ => none
    | .ok (status, _) => some ⟨item, status⟩

def menuChoices : List MenuInput → MenuState → List MenuChoice
  | [], _ => []
  | i :: inputs, st =>
    let reads := readAuths st.mok.vars st.authSize authVars
    let st := { st with authSize := reads.2 }
    match menuRound i (flags reads.1) st with
    | .error _ => []
    | .ok st' => (menuChoice i (flags reads.1) st).toList ++ menuChoices inputs st'

/-- What a call reads, the outcome of `verify_pw` and of `draw_countdown`, the menu, the variables
behind the reads, and whether `ResetSystem` comes back. -/
structure RequestCall where
  read : MokRequest → Except EfiStatus (List UInt8)
  locked : Option Bool
  waits : Bool
  inputs : List MenuInput
  mok : MokState
  resetReturns : Bool

namespace RequestCall

variable (call : RequestCall)

def requests (r : MokRequest) : Option (List UInt8) := (call.read r).toOption

def menuEnd : Option MenuEnd :=
  (enterMokMenu call.locked call.waits call.inputs call.requests call.mok).2

def choices : List MenuChoice :=
  match call.locked with
  | none => []
  | some p =>
    if p = false ∧ call.waits = false then []
    else menuChoices call.inputs
      { authSize := passwordCryptSize, requests := call.requests, changed := false, mok := call.mok }

def frees : List BufferEvent :=
  ([.new, .del, .sb, .pw, .db, .xNew, .xDel, .tml].filter fun r => (call.requests r).isSome).map .free

end RequestCall

/-- Behind the menu the machine is reset if something has changed; otherwise, or if the reset comes
back, the buffers are freed. -/
def checkMokRequest (call : RequestCall) : List BufferEvent :=
  call.choices.flatMap MenuChoice.events ++ match call.menuEnd with
    | none => []
    | some e => if e.2 = true ∧ call.resetReturns = false then [] else call.frees

def FreedOnce (events : List BufferEvent) : Prop :=
  events.Pairwise fun e e' => ∀ r, e = .free r → e'.request ≠ r

/-! ## The menu -/

section

variable {i : MenuInput} {present : MokVar → Bool} {st st' : MenuState} {r : MokRequest}
variable {inputs : List MenuInput} {c : MenuChoice}

lemma request_of_mem_events {e : BufferEvent} (h : e ∈ c.events) :
    c.item.request = some e.request := by
  unfold MenuChoice.events at h
  split at h
  · cases h
  rename_i r hr
  rw [hr]
  split at h
  · rcases mem_cons.mp h with rfl | h
    · rfl
    · rw [mem_singleton.mp h]
      rfl
  · rw [mem_singleton.mp h]
    rfl

lemma free_mem_events : .free r ∈ c.events ↔ c.item.request = some r ∧ c.frees = true := by
  unfold MenuChoice.events
  cases hreq : c.item.request with
  | none => simp
  | some s => by_cases h : c.frees = true <;> simp [h, eq_comm]

/-- An item either needs no pointer, and leaves the pointers alone, or works on one that is there,
and a success takes it away. -/
theorem menuAction_ok {item : MenuItem} {status : EfiStatus}
    (h : menuAction i st item = .ok (status, st')) :
    st'.changed = st.changed ∧
    ((item.request = none ∧ st'.requests = st.requests) ∨
      ∃ r, item.request = some r ∧ (st.requests r).isSome = true ∧
        st'.requests = if status = .success then Function.update st.requests r none
          else st.requests) := by
  have hmok : ∀ act, onMok act st = .ok (status, st') →
      st'.changed = st.changed ∧ st'.requests = st.requests := by
    intro act hact
    obtain ⟨-, rfl⟩ := Prod.mk.inj (Except.ok.inj hact)
    exact ⟨rfl, rfl⟩
  have hrequest : ∀ r act, onRequest r act st = .ok (status, st') →
      st'.changed = st.changed ∧ (st.requests r).isSome = true ∧
        st'.requests = if status = .success then Function.update st.requests r none
          else st.requests := by
    intro r act hact
    unfold onRequest at hact
    split at hact
    · cases hact
    · rename_i data hdata
      obtain ⟨rfl, rfl⟩ := Prod.mk.inj (Except.ok.inj hact)
      exact ⟨rfl, by rw [hdata]; rfl, rfl⟩
  cases item with
  | boot => cases h
  | resetMok | resetMokX | keyEnroll | hashEnroll =>
    obtain ⟨hchanged, hrequests⟩ := hmok _ h
    exact ⟨hchanged, .inl ⟨rfl, hrequests⟩⟩
  | enrollMok | enrollMokX | deleteMok | deleteMokX | changeSb | setPw | changeDb | changeTml =>
    obtain ⟨hchanged, hsome, hrequests⟩ := hrequest _ _ h
    exact ⟨hchanged, .inr ⟨_, rfl, hsome, hrequests⟩⟩

lemma menuRound_ok (h : menuRound i present st = .ok st') :
    ∃ c, menuChoice i present st = some c ∧
      (st'.changed = true ↔ st.changed = true ∨ c.status = .success) ∧
      ((c.item.request = none ∧ st'.requests = st.requests) ∨
        ∃ r, c.item.request = some r ∧ (st.requests r).isSome = true ∧
          st'.requests = if c.status = .success then Function.update st.requests r none
            else st.requests) := by
  unfold menuRound at h
  split at h
  · cases h
  unfold menuChoice
  cases hitem : i.choice.bind fun k => (menuItems st.requests present)[k]? with
  | none => simp [hitem] at h
  | some item =>
    simp only [hitem] at h ⊢
    cases hact : menuAction i st item with
    | error status => simp [hact] at h
    | ok x =>
      obtain ⟨status, st₁⟩ := x
      simp only [hact, Except.ok.injEq] at h ⊢
      obtain ⟨hchanged, hrequests⟩ := menuAction_ok hact
      subst h
      exact ⟨⟨item, status⟩, rfl, by simp [hchanged], hrequests⟩

lemma menuRound_none (h : menuRound i present st = .ok st') (hr : st.requests r = none) :
    st'.requests r = none := by
  obtain ⟨c, -, -, ⟨-, hrequests⟩ | ⟨s, -, -, hrequests⟩⟩ := menuRound_ok h
  · rw [hrequests, hr]
  rw [hrequests]
  split
  · by_cases hrs : r = s
    · rw [hrs, update_self]
    · rw [update_of_ne hrs, hr]
  · exact hr

lemma isSome_of_mem_menuChoices (hc : c ∈ menuChoices inputs st) (hr : c.item.request = some r) :
    (st.requests r).isSome = true := by
  induction inputs generalizing st with
  | nil => cases hc
  | cons i inputs ih =>
    simp only [menuChoices] at hc
    split at hc
    · cases hc
    rename_i st' hround
    obtain ⟨c', hchoice, -, hrequests⟩ := menuRound_ok hround
    rw [hchoice] at hc
    rcases mem_append.mp hc with hc | hc
    · obtain rfl : c = c' := by simpa using hc
      rcases hrequests with ⟨hnone, -⟩ | ⟨s, hs, hsome, -⟩
      · rw [hnone] at hr
        cases hr
      · rw [hs] at hr
        exact Option.some.inj hr ▸ hsome
    · have hlater := ih hc
      by_contra hnone
      rw [menuRound_none hround (by simpa using hnone)] at hlater
      cases hlater

lemma menuChoices_sound : FreedOnce ((menuChoices inputs st).flatMap MenuChoice.events) := by
  induction inputs generalizing st with
  | nil => exact List.Pairwise.nil
  | cons i inputs ih =>
    simp only [menuChoices]
    split
    · exact List.Pairwise.nil
    rename_i st' hround
    obtain ⟨c, hchoice, -, hrequests⟩ := menuRound_ok hround
    rw [hchoice, Option.toList_some, singleton_append, flatMap_cons]
    refine pairwise_append.mpr ⟨?_, ih, ?_⟩
    · unfold MenuChoice.events
      split
      · exact List.Pairwise.nil
      · split <;> simp
    · -- a success has taken the pointer away, so no later choice works on the buffer
      intro e he e' he' r hfree hrequest
      subst hfree
      obtain ⟨hc, hfrees⟩ := free_mem_events.mp he
      have hsuccess : c.status = .success := by
        simpa using (Bool.and_eq_true_iff.mp hfrees).2
      obtain ⟨d, hd, he'⟩ := mem_flatMap.mp he'
      have hsome := isSome_of_mem_menuChoices hd (hrequest ▸ request_of_mem_events he')
      rcases hrequests with ⟨hnone, -⟩ | ⟨s, hs, -, hupdate⟩
      · rw [hnone] at hc
        cases hc
      · obtain rfl : s = r := Option.some.inj (hs.symm.trans hc)
        rw [hupdate, if_pos hsuccess, update_self] at hsome
        cases hsome

lemma menuAction_error {item : MenuItem} {status : EfiStatus}
    (h : menuAction i st item = .error status) : status ≠ .outOfResources := by
  have hrequest : ∀ r act, onRequest r act st = .error status → status ≠ .outOfResources := by
    intro r act hact
    unfold onRequest at hact
    split at hact
    · rw [← Except.error.inj hact]
      exact nofun
    · cases hact
  cases item with
  | boot =>
    rw [← Except.error.inj h]
    exact nofun
  | resetMok | resetMokX | keyEnroll | hashEnroll => cases h
  | enrollMok | enrollMokX | deleteMok | deleteMokX | changeSb | setPw | changeDb | changeTml =>
    exact hrequest _ _ h

lemma menuLoop_changed {e : MenuEnd} (h : (menuLoop inputs st).2 = some e)
    (hchanged : st.changed = true ∨ ∃ c ∈ menuChoices inputs st, c.status = .success) :
    e = (.outOfResources, false) ∨ e.1 ≠ .outOfResources ∧ e.2 = true := by
  induction inputs generalizing st with
  | nil => cases h
  | cons i inputs ih =>
    simp only [menuLoop, menuChoices] at h hchanged
    split at h
    · rename_i done hround
      simp only [hround, not_mem_nil, false_and, exists_false, or_false] at hchanged
      obtain rfl : done = e := Option.some.inj h
      unfold menuRound at hround
      split at hround
      · exact .inl (Except.error.inj hround).symm
      right
      split at hround
      · rw [← Except.error.inj hround]
        exact ⟨by simp, hchanged⟩
      rename_i item _
      split at hround
      · rename_i status hact
        rw [← Except.error.inj hround]
        exact ⟨menuAction_error hact, hchanged⟩
      · cases hround
    · rename_i st' hround
      obtain ⟨c, hchoice, hiff, -⟩ := menuRound_ok hround
      simp only [hround, hchoice, Option.toList_some, singleton_append] at hchanged
      refine ih h ?_
      rcases hchanged with hst | ⟨d, hd, hsuccess⟩
      · exact .inl (hiff.mpr (.inl hst))
      · rcases mem_cons.mp hd with rfl | hd
        · exact .inl (hiff.mpr (.inr hsuccess))
        · exact .inr ⟨d, hd, hsuccess⟩

end

/-! ## The function -/

section

variable {call : RequestCall} {c : MenuChoice}

lemma MenuChoice.exists_of_frees (h : c.frees = true) :
    c.status = .success ∧ ∃ r, c.item.request = some r ∧ .free r ∈ c.events := by
  obtain ⟨hitem, hstatus⟩ := Bool.and_eq_true_iff.mp h
  refine ⟨by simpa using hstatus, ?_⟩
  have hreq : ∃ r, c.item.request = some r := by
    rcases Bool.or_eq_true_iff.mp hitem with hdel | hdel <;>
      exact ⟨_, by rw [of_decide_eq_true hdel]; rfl⟩
  obtain ⟨r, hr⟩ := hreq
  exact ⟨r, hr, free_mem_events.mpr ⟨hr, h⟩⟩

lemma RequestCall.choices_sound (call : RequestCall) :
    FreedOnce (call.choices.flatMap MenuChoice.events) := by
  unfold RequestCall.choices
  split
  · exact List.Pairwise.nil
  · split
    · exact List.Pairwise.nil
    · exact menuChoices_sound

lemma RequestCall.isSome_of_mem_choices {r : MokRequest} (hc : c ∈ call.choices)
    (hr : c.item.request = some r) : (call.requests r).isSome = true := by
  unfold RequestCall.choices at hc
  split at hc
  · cases hc
  · split at hc
    · cases hc
    · exact isSome_of_mem_menuChoices hc hr

lemma RequestCall.menuEnd_of_success {e : MenuEnd} (he : call.menuEnd = some e)
    (hc : c ∈ call.choices) (hsuccess : c.status = .success) :
    e = (.outOfResources, false) ∨ e.1 ≠ .outOfResources ∧ e.2 = true := by
  unfold RequestCall.menuEnd enterMokMenu at he
  unfold RequestCall.choices at hc
  split at hc
  · cases hc
  rename_i p hlocked
  simp only [hlocked] at he
  split at hc
  · cases hc
  · rename_i hwaits
    rw [if_neg hwaits] at he
    exact menuLoop_changed he (.inr ⟨c, hc, hsuccess⟩)

lemma RequestCall.freedOnce_frees (call : RequestCall) : FreedOnce call.frees := by
  unfold FreedOnce RequestCall.frees
  rw [pairwise_map]
  refine List.Pairwise.filter _ (List.Pairwise.imp ?_ (by decide :
    [MokRequest.new, .del, .sb, .pw, .db, .xNew, .xDel, .tml].Pairwise (· ≠ ·)))
  intro r s hne t ht hs
  cases ht
  exact hne hs.symm

/-- The buffers are freed once and not touched later, exactly if no deletion succeeds, or the menu
does not run out of memory and the machine is reset behind it. -/
theorem checkMokRequest_sound_iff (call : RequestCall) : FreedOnce (checkMokRequest call) ↔
      (∀ c ∈ call.choices, c.frees = false) ∨
        ∀ e, call.menuEnd = some e → e.1 ≠ .outOfResources ∧ call.resetReturns = false := by
  constructor
  · intro hsound
    by_contra hcond
    push Not at hcond
    obtain ⟨⟨c, hc, hfrees⟩, e, he, hend⟩ := hcond
    obtain ⟨hsuccess, r, hr, hfree⟩ := c.exists_of_frees (by simpa using hfrees)
    -- the menu comes back, so the buffer of the deletion is freed again
    have hback : ¬ (e.2 = true ∧ call.resetReturns = false) := by
      rintro ⟨hchanged, hreset⟩
      rcases RequestCall.menuEnd_of_success he hc hsuccess with rfl | ⟨hne, -⟩
      · cases hchanged
      · exact hend hne hreset
    have hagain : .free r ∈ call.frees := by
      have hsome := RequestCall.isSome_of_mem_choices hc hr
      unfold RequestCall.frees
      simp only [mem_map, mem_filter]
      exact ⟨r, ⟨by cases r <;> decide, hsome⟩, rfl⟩
    unfold checkMokRequest at hsound
    simp only [he, if_neg hback] at hsound
    have hcross := (pairwise_append.mp hsound).2.2
    exact hcross _ (mem_flatMap.mpr ⟨c, hc, hfree⟩) _ hagain r rfl rfl
  · intro hcond
    refine pairwise_append.mpr ⟨call.choices_sound, ?_, ?_⟩
    · split
      · exact List.Pairwise.nil
      · split
        · exact List.Pairwise.nil
        · exact call.freedOnce_frees
    · intro ev hev ev' hev' r hfree
      subst hfree
      obtain ⟨c, hc, hmem⟩ := mem_flatMap.mp hev
      obtain ⟨-, hfrees⟩ := free_mem_events.mp hmem
      obtain ⟨hsuccess, -⟩ := c.exists_of_frees hfrees
      rcases hcond with hnone | hend
      · rw [hnone c hc] at hfrees
        cases hfrees
      split at hev'
      · cases hev'
      · rename_i e he
        obtain ⟨hne, hreset⟩ := hend e he
        rcases RequestCall.menuEnd_of_success he hc hsuccess with rfl | ⟨-, hchanged⟩
        · exact absurd rfl hne
        · rw [if_pos ⟨hchanged, hreset⟩] at hev'
          cases hev'

end

def deleteRound (allocItems : Bool) : MenuInput where
  allocStrings := true
  allocItems := allocItems
  choice := some 1
  prompt := matchingEnv (List.replicate 32 7) none
  other := fun _ st => (.aborted, st)

def deletedWithoutMemory : RequestCall where
  read := fun r => if r = .del then .ok (encodeLists [oneHashList]) else .error .notFound
  locked := some false
  waits := true
  inputs := [deleteRound true, deleteRound false]
  mok := start (mokListOf [oneCertList, hashList])
  resetReturns := false

/-- The buffer of the request is freed by the prompt, and again behind the menu. -/
theorem checkMokRequest_frees_twice :
    checkMokRequest deletedWithoutMemory = [.use .del, .free .del, .free .del] ∧
      ¬ FreedOnce (checkMokRequest deletedWithoutMemory) := by
  have hevents : checkMokRequest deletedWithoutMemory = [.use .del, .free .del, .free .del] := by
    decide +kernel
  refine ⟨hevents, fun h => ?_⟩
  rw [hevents] at h
  have htail := (pairwise_cons.mp h).2
  exact (pairwise_cons.mp htail).1 (.free .del) mem_cons_self .del rfl rfl

end Shim.Mok
