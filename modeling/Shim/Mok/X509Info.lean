import Mathlib.Algebra.BigOperators.Group.List.Basic
import Mathlib.Algebra.Ring.Nat
import Mathlib.Data.List.Basic

/-!
# The box with a certificate

`show_x509_info` prints the serial number from a local buffer of 30 bytes, counts the fields that it
has texts for, allocates an array for the lines of all of them, and fills it.
-/

namespace Shim.Mok

open List

inductive InfoField where
  | serial
  | issuer
  | subject
  | notBefore
  | notAfter
  | hash1
  | hash2
  deriving DecidableEq

inductive InfoLine where
  | title (text : String)
  | oid (index : ℕ)
  | value (field : InfoField)
  | blank

/-- The significant bytes of the serial number, the fields for which there is a text, and the number
of objects in the extended key usage. -/
structure X509Info where
  serial : Option (List UInt8)
  hasText : InfoField → Bool
  extUsage : Option ℕ
  allocText : Bool
  /-- Without a byte nothing is printed to `serial_string`. -/
  serial_ne : hasText .serial = true → ∃ bytes, serial = some bytes ∧ bytes ≠ []

inductive InfoWrite where
  | hexbuf (index : ℕ)
  | text (index : ℕ)
  deriving DecidableEq

namespace X509Info

variable (c : X509Info)

def fields : ℕ :=
  ([.serial, .issuer, .subject, .notBefore, .notAfter, .hash1, .hash2].map fun f =>
    (c.hasText f).toNat).sum

def textSize : ℤ := c.fields * 3 + (c.extUsage.elim (-1) fun n => (n : ℤ)) + 3

def block (f : InfoField) (title : String) : List InfoLine :=
  if c.hasText f then [.title title, .value f, .blank] else []

def infoLines : List InfoLine :=
  (match c.extUsage with
    | none => []
    | some n => .title "[Extended Key Usage]" :: ((List.range n).map .oid ++ [.blank])) ++
  c.block .serial "[Serial Number]" ++ c.block .issuer "[Issuer]" ++
  c.block .subject "[Subject]" ++ c.block .notBefore "[Valid Not Before]" ++
  c.block .notAfter "[Valid Not After]" ++
  (if c.hasText .hash1 then [.title "[Fingerprint]", .value .hash1] else []) ++
  (if c.hasText .hash2 then [.value .hash2, .blank] else [])

def showX509Info : List InfoWrite :=
  (List.range (c.serial.getD []).length).map .hexbuf ++
    if c.fields = 0 then [] else (List.range (c.infoLines.length + 1)).map .text

end X509Info

def InfoWrite.Inside (c : X509Info) : InfoWrite → Prop
  | .hexbuf i => i < 30
  | .text i => c.allocText = true ∧ (i : ℤ) < c.textSize

variable {c : X509Info}

lemma X509Info.length_block (c : X509Info) (f : InfoField) (title : String) :
    (c.block f title).length = 3 * (c.hasText f).toNat := by
  unfold X509Info.block
  cases c.hasText f <;> rfl

/-- The fields have three lines each, the fingerprint two for each half, and the key usage two more
than objects. -/
theorem X509Info.length_infoLines_le (c : X509Info) : (c.infoLines.length : ℤ) + 1 ≤ c.textSize := by
  have hext : ∀ n : ℕ, (InfoLine.title "[Extended Key Usage]" ::
      ((List.range n).map .oid ++ [.blank])).length = n + 2 := by
    intro n
    simp
  have hhash : ∀ b : Bool, ∀ l l' : InfoLine, (if b then [l, l'] else []).length = 2 * b.toNat := by
    intro b l l'
    cases b <;> rfl
  unfold X509Info.infoLines X509Info.textSize X509Info.fields
  simp only [length_append, X509Info.length_block, hhash, map_cons, map_nil,
    sum_cons, sum_nil]
  cases c.extUsage with
  | none =>
    simp only [length_nil, Option.elim_none]
    omega
  | some n =>
    rw [hext]
    simp only [Option.elim_some]
    omega

/-- Every write is inside iff the serial number fits its buffer, and the array for the lines is there
when a line is written. -/
theorem showX509Info_inside_iff (c : X509Info) : (∀ w ∈ c.showX509Info, w.Inside c) ↔
      (∀ bytes, c.serial = some bytes → bytes.length ≤ 30) ∧ (c.fields ≠ 0 → c.allocText = true) := by
  have hserial : (∀ i < (c.serial.getD []).length, i < 30) ↔
      ∀ bytes, c.serial = some bytes → bytes.length ≤ 30 := by
    cases c.serial with
    | none => simp
    | some bytes =>
      simp only [Option.getD_some, Option.some.injEq, forall_eq']
      constructor
      · intro h
        by_contra hlong
        exact absurd (h 30 (by omega)) (by omega)
      · intro h i hi
        omega
  have htext : (c.fields ≠ 0 → ∀ i < c.infoLines.length + 1, InfoWrite.Inside c (.text i)) ↔
      (c.fields ≠ 0 → c.allocText = true) := by
    refine imp_congr_right fun _ => ⟨fun h => (h 0 (Nat.succ_pos _)).1, fun halloc i hi => ?_⟩
    have hle := c.length_infoLines_le
    exact ⟨halloc, by omega⟩
  rw [← hserial, ← htext, X509Info.showX509Info]
  simp only [forall_mem_append, forall_mem_map, mem_range]
  refine and_congr Iff.rfl ?_
  by_cases hfields : c.fields = 0
  · simp [hfields]
  · simp [hfields]

def longSerial : X509Info where
  serial := some (List.replicate 31 1)
  hasText := fun _ => true
  extUsage := none
  allocText := true
  serial_ne := fun _ => ⟨_, rfl, by decide⟩

/-- The last byte is written behind the buffer. -/
theorem longSerial_outside :
    InfoWrite.hexbuf 30 ∈ longSerial.showX509Info ∧ ¬ InfoWrite.Inside longSerial (.hexbuf 30) := by
  refine ⟨by decide, ?_⟩
  show ¬ 30 < 30
  decide

end Shim.Mok
