import KeelsonDocker.Theory.Prefix
import Mathlib.Algebra.Group.Int.Defs
import Mathlib.Data.List.Nodup

/-!
# The wire format of protocol buffers

Messages in their deterministic form: the fields in the order of a schema, each under its tag, those left
out that hold a default without presence. A record can be split off the front of whatever follows
(`free_record`), and what a schema writes of a message tells every field (`get_eq_of_records_eq`).
-/

namespace Wire

open Prefix

/-! ### Variable-length integers -/

/-- Seven bits a byte, the lowest first; all but the last have the high bit set. -/
def varintWithin : (fuel n : Nat) → List UInt8
  | 0, n => [UInt8.ofNat n]
  | fuel + 1, n =>
    if n < 128 then [UInt8.ofNat n] else UInt8.ofNat (n % 128 + 128) :: varintWithin fuel (n / 128)

def varint (n : Nat) : List UInt8 := varintWithin n n

def readVarint : List UInt8 → Option (Nat × List UInt8)
  | [] => none
  | b :: bs =>
    if b.toNat < 128 then some (b.toNat, bs)
    else (readVarint bs).map fun (n, rest) => (b.toNat - 128 + 128 * n, rest)

theorem readVarint_varintWithin {fuel n : Nat} (h : n ≤ fuel) (x : List UInt8) :
    readVarint (varintWithin fuel n ++ x) = some (n, x) := by
  induction fuel generalizing n with
  | zero =>
    obtain rfl : n = 0 := by omega
    rfl
  | succ fuel ih =>
    rw [varintWithin]
    by_cases hn : n < 128
    · have hb : (UInt8.ofNat n).toNat = n := UInt8.toNat_ofNat_of_lt' (show n < 256 by omega)
      rw [if_pos hn, List.singleton_append, readVarint, hb, if_pos hn]
    · have hb : (UInt8.ofNat (n % 128 + 128)).toNat = n % 128 + 128 :=
        UInt8.toNat_ofNat_of_lt' (show n % 128 + 128 < 256 by omega)
      rw [if_neg hn, List.cons_append, readVarint, hb, if_neg (by omega), ih (by omega)]
      simp only [Option.map_some, Option.some.injEq, Prod.mk.injEq, and_true]
      omega

theorem free_varint : Free varint :=
  .of_read fun n x => readVarint_varintWithin (Nat.le_refl n) x

theorem varint_ne_nil (n : Nat) : varint n ≠ [] := by
  unfold varint
  cases n with
  | zero => exact List.cons_ne_nil _ _
  | succ n =>
    rw [varintWithin]
    split <;> exact List.cons_ne_nil _ _

/-- Bytes behind their number. -/
def delimited (bs : List UInt8) : List UInt8 := varint bs.length ++ bs

theorem free_delimited : Free delimited := by
  intro bs bs' x y h
  simp only [delimited, List.append_assoc] at h
  obtain ⟨hlen, h⟩ := free_varint h
  exact List.append_inj h hlen

/-! ### Records -/

/-- What a record holds: wire type 0, or 2. -/
inductive Value
  | varint (n : Nat)
  | bytes (bs : List UInt8)
  deriving DecidableEq, Repr

structure Record where
  number : Nat
  value : Value
  deriving DecidableEq, Repr

def Value.wireType : Value → Nat
  | varint _ => 0
  | bytes _ => 2

def Value.payload : Value → List UInt8
  | varint n => Wire.varint n
  | bytes bs => delimited bs

def Record.encode (r : Record) : List UInt8 :=
  varint (r.number * 8 + r.value.wireType) ++ r.value.payload

theorem free_record : Free Record.encode := by
  intro ⟨k, v⟩ ⟨k', v'⟩ x y h
  simp only [Record.encode, List.append_assoc] at h
  obtain ⟨htag, h⟩ := free_varint h
  cases v with
  | varint n =>
    cases v' with
    | varint n' =>
      obtain ⟨rfl, rfl⟩ := free_varint h
      simp only [Value.wireType] at htag
      exact ⟨by rw [Nat.eq_of_mul_eq_mul_right (by decide) htag], rfl⟩
    | bytes bs' =>
      simp only [Value.wireType] at htag
      omega
  | bytes bs =>
    cases v' with
    | varint n' =>
      simp only [Value.wireType] at htag
      omega
    | bytes bs' =>
      obtain ⟨rfl, rfl⟩ := free_delimited h
      simp only [Value.wireType] at htag
      exact ⟨by rw [show k = k' by omega], rfl⟩

theorem encode_ne_nil (r : Record) : r.encode ≠ [] := by
  intro h
  exact varint_ne_nil _ (List.append_eq_nil_iff.mp h).1

/-- Records one after the other. -/
def encode (rs : List Record) : List UInt8 := rs.flatMap Record.encode

theorem encode_injective : Function.Injective encode := free_record.flatMap_injective encode_ne_nil

/-! ### Messages -/

/-- The fields of a message by number: what the record holds, if there is one. -/
abbrev Schema (M : Type) := List (Nat × (M → Option Value))

def records {M : Type} : Schema M → M → List Record
  | [], _ => []
  | (number, get) :: schema, m =>
    match get m with
    | none => records schema m
    | some value => ⟨number, value⟩ :: records schema m

/-- The deterministic form of a message. -/
def serialize {M : Type} (schema : Schema M) (m : M) : List UInt8 := encode (records schema m)

section

variable {M : Type} {schema : Schema M} {m m' : M}

theorem records_of_some {number : Nat} {get : M → Option Value} {value : Value}
    (h : get m = some value) :
    records ((number, get) :: schema) m = ⟨number, value⟩ :: records schema m := by
  rw [records, h]

theorem records_of_none {number : Nat} {get : M → Option Value} (h : get m = none) :
    records ((number, get) :: schema) m = records schema m := by
  rw [records, h]

theorem number_of_mem_records {r : Record} (h : r ∈ records schema m) :
    r.number ∈ schema.map Prod.fst := by
  induction schema with
  | nil => cases h
  | cons field schema ih =>
    obtain ⟨number, get⟩ := field
    cases hget : get m with
    | none =>
      rw [records_of_none hget] at h
      exact List.mem_cons_of_mem number (ih h)
    | some value =>
      rw [records_of_some hget] at h
      rcases List.mem_cons.mp h with rfl | h
      · exact List.mem_cons_self
      · exact List.mem_cons_of_mem number (ih h)

/-- **The records tell every field.** -/
theorem get_eq_of_records_eq (hnodup : (schema.map Prod.fst).Nodup)
    (h : records schema m = records schema m') : ∀ field ∈ schema, field.2 m = field.2 m' := by
  induction schema with
  | nil => exact nofun
  | cons field schema ih =>
    obtain ⟨number, get⟩ := field
    obtain ⟨hnew, hnodup⟩ := List.nodup_cons.mp hnodup
    have hother (n : M) (value : Value) : (⟨number, value⟩ : Record) ∉ records schema n :=
      fun hmem => hnew (number_of_mem_records hmem)
    have hboth : get m = get m' ∧ records schema m = records schema m' := by
      cases hget : get m with
      | none =>
        cases hget' : get m' with
        | none =>
          rw [records_of_none hget, records_of_none hget'] at h
          exact ⟨rfl, h⟩
        | some value =>
          rw [records_of_none hget, records_of_some hget'] at h
          exact absurd (h ▸ List.mem_cons_self) (hother m value)
      | some value =>
        cases hget' : get m' with
        | none =>
          rw [records_of_some hget, records_of_none hget'] at h
          exact absurd (h ▸ List.mem_cons_self) (hother m' value)
        | some value' =>
          rw [records_of_some hget, records_of_some hget', List.cons.injEq, Record.mk.injEq] at h
          exact ⟨congrArg some h.1.2, h.2⟩
    intro field hfield
    rcases List.mem_cons.mp hfield with rfl | hfield
    · exact hboth.1
    · exact ih hnodup hboth.2 field hfield

theorem get_eq_of_serialize_eq (hnodup : (schema.map Prod.fst).Nodup)
    (h : serialize schema m = serialize schema m') : ∀ field ∈ schema, field.2 m = field.2 m' :=
  get_eq_of_records_eq hnodup (encode_injective h)

end

/-! ### Fields -/

section

variable {α : Type} {write : α → Value}

/-- A field without presence is left out when it holds the default. -/
def implicit [DecidableEq α] (default : α) (write : α → Value) (a : α) : Option Value :=
  if a = default then none else some (write a)

/-- A field with presence is written whenever it is there. -/
def explicit (write : α → Value) (a : Option α) : Option Value := a.map write

theorem implicit_injective [DecidableEq α] (default : α) (h : Function.Injective write) :
    Function.Injective (implicit default write) := by
  intro a b hab
  unfold implicit at hab
  split at hab
  · rename_i ha
    split at hab
    · rename_i hb
      rw [ha, hb]
    · cases hab
  · split at hab
    · cases hab
    · exact h (Option.some.inj hab)

theorem explicit_injective (h : Function.Injective write) : Function.Injective (explicit write) :=
  Option.map_injective h

end

/-! ### Scalars -/

def ofString (s : String) : Value := .bytes s.toByteArray.data.toList

def ofBool (b : Bool) : Value := .varint b.toNat

def ofUInt32 (n : UInt32) : Value := .varint n.toNat

/-- A negative number is written with all its 64 bits. -/
def ofInt (n : Int) : Value := .varint (n % 2 ^ 64).toNat

def ofInt32 (n : Int32) : Value := ofInt n.toInt

def ofInt64 (n : Int64) : Value := ofInt n.toInt

theorem ofString_injective : Function.Injective ofString := by
  intro s t h
  rw [ofString, ofString, Value.bytes.injEq, Array.toList_inj] at h
  exact String.toByteArray_inj.mp (ByteArray.ext h)

theorem ofBool_injective : Function.Injective ofBool := by
  intro a b h
  cases a <;> cases b <;> first | rfl | cases h

theorem ofUInt32_injective : Function.Injective ofUInt32 := by
  intro n m h
  rw [ofUInt32, ofUInt32, Value.varint.injEq] at h
  exact UInt32.toNat_inj.mp h

/-- Sixty-four bits tell numbers of that size apart. -/
theorem eq_of_ofInt_eq {n m : Int} (hn : -2 ^ 63 ≤ n ∧ n < 2 ^ 63) (hm : -2 ^ 63 ≤ m ∧ m < 2 ^ 63)
    (h : ofInt n = ofInt m) : n = m := by
  rw [ofInt, ofInt, Value.varint.injEq] at h
  omega

theorem ofInt64_injective : Function.Injective ofInt64 := by
  intro n m h
  have hn := And.intro n.le_toInt n.toInt_lt
  have hm := And.intro m.le_toInt m.toInt_lt
  exact Int64.toInt_inj.mp (eq_of_ofInt_eq hn hm h)

theorem ofInt32_injective : Function.Injective ofInt32 := by
  intro n m h
  have hn := And.intro n.le_toInt n.toInt_lt
  have hm := And.intro m.le_toInt m.toInt_lt
  exact Int32.toInt_inj.mp (eq_of_ofInt_eq (by omega) (by omega) h)

/-- A message inside another. -/
def ofMessage {M : Type} (schema : Schema M) (m : M) : Value := .bytes (serialize schema m)

theorem ofMessage_injective {M : Type} {schema : Schema M}
    (h : Function.Injective (serialize schema)) : Function.Injective (ofMessage schema) := by
  intro m m' hm
  rw [ofMessage, ofMessage, Value.bytes.injEq] at hm
  exact h hm

/-! ### Messages of fields without presence -/

/-- A field without presence, and what of a message it holds. -/
structure Member (M : Type) where
  number : Nat
  {α : Type}
  [decidable : DecidableEq α]
  default : α
  write : α → Value
  injective : Function.Injective write
  get : M → α

namespace Member

variable {M : Type}

attribute [instance] decidable

def field (member : Member M) : Nat × (M → Option Value) :=
  (member.number, fun m => implicit member.default member.write (member.get m))

def text (number : Nat) (get : M → String) : Member M where
  number
  default := ""
  write := ofString
  injective := ofString_injective
  get

def flag (number : Nat) (get : M → Bool) : Member M where
  number
  default := false
  write := ofBool
  injective := ofBool_injective
  get

def count (number : Nat) (get : M → Nat) : Member M where
  number
  default := 0
  write := .varint
  injective _ _ h := Value.varint.inj h
  get

end Member

/-- A message that is what its fields hold. -/
structure Message (M : Type) where
  members : List (Member M)
  numbers : (members.map Member.number).Nodup
  ext : ∀ m m', (∀ member ∈ members, member.get m = member.get m') → m = m'

def Message.schema {M : Type} (message : Message M) : Schema M := message.members.map Member.field

/-- **Its bytes tell such a message.** -/
theorem Message.serialize_injective {M : Type} (message : Message M) :
    Function.Injective (serialize message.schema) := by
  intro m m' h
  have hnodup : (message.schema.map Prod.fst).Nodup := by
    rw [Message.schema, List.map_map]
    exact message.numbers
  have hget := get_eq_of_serialize_eq hnodup h
  refine message.ext m m' fun member hmember => ?_
  exact implicit_injective member.default member.injective (hget _ (List.mem_map_of_mem hmember))

end Wire
