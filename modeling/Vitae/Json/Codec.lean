/-
Module: Vitae.Json.Codec
Layer: Json
Purpose: Typed values in JSON. A codec writes a value as a tree and reads it back, and a tree that was
  cut short, or does not have the shape of the type, gives the first thing wrong in reading order.
Imports: Vitae.Json.Value
Main exports: Fault, Codec, Codec.text, Codec.list, Codec.optional, Codec.number, Codec.oneOf, Field,
  Record, Record.codec
-/
import Vitae.Json.Value

namespace Vitae.Json

open Vitae.Number

/-- Why a text is not a value of a type: it is not JSON, or it is JSON of another shape. -/
inductive Fault where
  | malformed
  | mismatched
deriving Repr, DecidableEq

/-- The fault of a tree that is not of the shape asked for. A single lexeme is looked at whole first. -/
def mismatch : Json → Fault
  | .fault => .malformed
  | .string .unpaired => .malformed
  | .number n => if n.value?.isNone then .malformed else .mismatched
  | _ => .mismatched

/-- A way to write the values of a type as trees and to read them back. -/
structure Codec (α : Type) where
  write : α → Json
  read : Json → Except Fault α

namespace Codec

/-- Read a string. -/
def readText : Json → Except Fault String
  | .string (.plain s) => .ok s
  | v => .error (mismatch v)

/-- Texts are strings. -/
def text : Codec String :=
  ⟨ofString, readText⟩

/-- Read a floating-point number. -/
def readNumber : Json → Except Fault Binary64
  | .number n => match n.value? with
      | some x => .ok x
      | none => .error .malformed
  | v => .error (mismatch v)

/-- Write a floating-point number. There is no numeral for one that is not finite. -/
def writeNumber : Binary64 → Json
  | .finite x => .number (.ofFinite x)
  | _ => .null

/-- Floating-point numbers are numerals. -/
def number : Codec Binary64 :=
  ⟨writeNumber, readNumber⟩

/-- Read the items of a list in order. -/
def readItems {α : Type} (item : Codec α) (done : List α) : List Json → Except Fault (List α)
  | [] => .ok done.reverse
  | v :: vs => match item.read v with
      | .ok x => readItems item (x :: done) vs
      | .error e => .error e

/-- Read a list. -/
def readList {α : Type} (item : Codec α) : Json → Except Fault (List α)
  | .array vs => readItems item [] vs
  | v => .error (mismatch v)

/-- Lists are arrays. -/
def list {α : Type} (item : Codec α) : Codec (List α) :=
  ⟨fun xs => .array (xs.map item.write), readList item⟩

/-- Read a value that may be absent. -/
def readOptional {α : Type} (inner : Codec α) : Json → Except Fault (Option α)
  | .null => .ok none
  | v => match inner.read v with
      | .ok x => .ok (some x)
      | .error e => .error e

/-- Write a value that may be absent. -/
def writeOptional {α : Type} (inner : Codec α) : Option α → Json
  | none => .null
  | some x => inner.write x

/-- An absent value is null. -/
def optional {α : Type} (inner : Codec α) : Codec (Option α) :=
  ⟨writeOptional inner, readOptional inner⟩

/-- Look up one of the names of an enumeration. -/
def readName {α : Type} (names : List (String × α)) : Quoted → Except Fault α
  | .plain s => match names.lookup s with
      | some x => .ok x
      | none => .error .mismatched
  | .unpaired => .error .malformed

/-- Read an enumeration written as an object. It has one entry, whose name is the value and whose own
value is null. -/
def readNameObject {α : Type} (names : List (String × α)) :
    List (Member Json) → Except Fault α
  | [] => .error .malformed
  | .fault :: _ => .error .malformed
  | .pair name v :: others => do
      let x ← readName names name
      match v, others with
      | .null, [] => .ok x
      | .null, _ :: _ => .error .malformed
      | v, _ => .error (mismatch v)

/-- Read an enumeration. -/
def readOneOf {α : Type} (names : List (String × α)) : Json → Except Fault α
  | .string name => readName names name
  | .object members => readNameObject names members
  | _ => .error .malformed

/-- The values of an enumeration are strings, one name each. -/
def oneOf {α : Type} (name : α → String) (all : List α) : Codec α :=
  ⟨fun x => ofString (name x), readOneOf (all.map fun x => (name x, x))⟩

end Codec

/-- A field of a record type: its name, the codec of its values, and where a record holds its value. A
record cannot do without the fields that are `required`. -/
structure Field (ρ : Type) where
  {α : Type}
  name : String
  required : Bool
  inner : Codec α
  get : ρ → α
  set : α → ρ → ρ
  get_set : ∀ x r, get (set x r) = x

namespace Field

variable {ρ : Type}

/-- The field with the given accessors, which may be left out. -/
def of {α : Type} (name : String) (inner : Codec α) (get : ρ → α) (set : α → ρ → ρ)
    (get_set : ∀ x r, get (set x r) = x := by intros; rfl) : Field ρ :=
  ⟨name, false, inner, get, set, get_set⟩

/-- The same field where a record cannot do without it. -/
def needed (f : Field ρ) : Field ρ :=
  { f with required := true }

/-- Write the field of a record. -/
def write (f : Field ρ) (r : ρ) : Json :=
  f.inner.write (f.get r)

/-- Read the field into a record. -/
def read (f : Field ρ) (v : Json) (r : ρ) : Except Fault ρ :=
  match f.inner.read v with
  | .ok x => .ok (f.set x r)
  | .error e => .error e

/-- Two fields have different names, and reading into one leaves the other as it is. -/
structure Apart (f g : Field ρ) : Prop where
  name : f.name ≠ g.name
  left : ∀ x r, f.get (g.set x r) = f.get r
  right : ∀ x r, g.get (f.set x r) = g.get r

theorem apart_iff {f g : Field ρ} : f.Apart g ↔ f.name ≠ g.name ∧
    (∀ x r, f.get (g.set x r) = f.get r) ∧ ∀ x r, g.get (f.set x r) = g.get r :=
  ⟨fun h => ⟨h.name, h.left, h.right⟩, fun h => ⟨h.1, h.2.1, h.2.2⟩⟩

end Field

/-- A record type: the record that nothing was read into, and the fields in their order. A record is
what its fields hold. -/
structure Record (ρ : Type) where
  blank : ρ
  fields : List (Field ρ)
  apart : fields.Pairwise Field.Apart := by
    simp [Field.of, Field.needed, Field.apart_iff]
  ext : ∀ r s, (∀ f ∈ fields, f.get r = f.get s) → r = s := by
    rintro ⟨⟩ ⟨⟩ same
    simpa [Field.of, Field.needed] using same

namespace Record

variable {ρ : Type}

/-- A finished record, unless a required field was not seen. -/
def finish (fields : List (Field ρ)) (seen : List String) (r : ρ) : Except Fault ρ :=
  if fields.any fun f => f.required && !seen.contains f.name then .error .mismatched else .ok r

/-- Read the entries of an object in order. An entry that no field is named for is skipped, and a
field may be given once. -/
def readMembers (fields : List (Field ρ)) (seen : List String) (r : ρ) :
    List (Member Json) → Except Fault ρ
  | [] => finish fields seen r
  | .fault :: _ => .error .malformed
  | .pair .unpaired _ :: _ => .error .malformed
  | .pair (.plain name) v :: others =>
      match fields.find? fun f => f.name == name with
      | none => readMembers fields seen r others
      | some f =>
          if seen.contains name then .error .mismatched
          else match f.read v r with
            | .ok r => readMembers fields (name :: seen) r others
            | .error e => .error e

/-- Read the items of an array into the fields in their order. Fields at the end may be left out. -/
def readItems (r : ρ) : List (Field ρ) → List Json → Except Fault ρ
  | [], [] => .ok r
  | [], _ :: _ => .error .malformed
  | f :: fields, [] => finish (f :: fields) [] r
  | f :: fields, v :: vs => match f.read v r with
      | .ok r => readItems r fields vs
      | .error e => .error e

/-- Read a record, from an object or from an array. -/
def read (record : Record ρ) : Json → Except Fault ρ
  | .object members => readMembers record.fields [] record.blank members
  | .array vs => readItems record.blank record.fields vs
  | v => .error (mismatch v)

/-- Write a record as an object with all its fields. -/
def write (record : Record ρ) (r : ρ) : Json :=
  .object (record.fields.map fun f => entry f.name (f.write r))

/-- The codec of a record type. -/
def codec (record : Record ρ) : Codec ρ :=
  ⟨record.write, record.read⟩

end Record

namespace Codec

variable {α : Type}

/-- Read the value at the start of a text. What follows the value is not looked at. -/
def ofTextStart (c : Codec α) (s : String) : Except Fault α :=
  c.read (ofText s).1

/-- Read a text that is one value and nothing else. -/
def ofText (c : Codec α) (s : String) : Except Fault α :=
  match Json.ofText s with
  | (v, rest) => match c.read v with
      | .ok x => if rest.isEmpty then .ok x else .error .malformed
      | .error e => .error e

/-- The text of a value. -/
def toText (c : Codec α) (x : α) : String :=
  (c.write x).text

end Codec

end Vitae.Json
