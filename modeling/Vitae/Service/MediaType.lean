/-
Module: Vitae.Service.MediaType
Layer: Service
Purpose: Media types, as the header of a request gives them.
Imports: Vitae.Text.Lines
Main exports: MediaType, MediaType.read?, MediaType.isJson
-/
import Vitae.Text.Lines

namespace Vitae.Service

open Text (lower)

/-- A media type without its parameters: type, subtype, and the suffix after the last plus sign of the
subtype, all in lower case. -/
structure MediaType where
  kind : List Char
  subtype : List Char
  suffix : Option (List Char)
deriving Repr, DecidableEq

namespace MediaType

/-- The characters of a token. -/
def isTokenChar (c : Char) : Bool :=
  c.isAlphanum || "!#$%&'*+-.^_`|~".toList.contains c

/-- The characters that may stand in quotes. -/
def isQuotable (c : Char) : Bool :=
  0x20 ≤ c.toNat && c.toNat < 0x7F

/-- A place in the parameters of a media type. -/
inductive Place where
  | start
  | name
  | valueStart
  | value
  | quoteStart
  | quoted
  | quoteEnd
deriving Repr, DecidableEq

/-- Go on by one character, if it may stand here. A quoted value has at least one character, which may
be a quote itself. -/
def Place.next? (c : Char) : Place → Option Place
  | start => if c = ' ' then some start else if isTokenChar c then some name else none
  | name => if isTokenChar c then some name else if c = '=' then some valueStart else none
  | valueStart => if c = '"' then some quoteStart else if isTokenChar c then some value else none
  | value => if isTokenChar c then some value else if c = ';' then some start else none
  | quoteStart => if isQuotable c then some quoted else none
  | quoted => if c = '"' then some quoteEnd else if isQuotable c then some quoted else none
  | quoteEnd => if c = ';' then some start else if c = ' ' then some quoteEnd else none

/-- May the parameters end here? -/
def Place.mayEnd : Place → Bool
  | start | valueStart | value | quoteEnd => true
  | name | quoteStart | quoted => false

/-- Go on by some characters, if they may stand here. -/
def Place.run? (p : Place) : List Char → Option Place
  | [] => some p
  | c :: rest => (p.next? c).bind fun p => p.run? rest

/-- Are these the parameters of a media type, as they stand after the first semicolon? -/
def areParameters (s : List Char) : Bool :=
  (Place.start.run? s).any Place.mayEnd

/-- Split a subtype at its last plus sign. A plus sign that comes first splits nothing. -/
def splitSuffix (s : List Char) : List Char × Option (List Char) :=
  let suffix := (s.reverse.takeWhile (· ≠ '+')).reverse
  let before := s.length - suffix.length - 1
  if suffix.length < s.length ∧ 0 < before then (s.take before, some suffix) else (s, none)

/-- A media type with the given names. -/
def ofNames (kind names : List Char) : MediaType :=
  let (subtype, suffix) := splitSuffix names
  ⟨lower kind, lower subtype, suffix.map lower⟩

/-- Read a media type. -/
def read? (header : String) : Option MediaType :=
  let s := header.toList
  let kind := s.takeWhile isTokenChar
  match s.dropWhile isTokenChar with
  | '/' :: rest =>
      let names := rest.takeWhile isTokenChar
      if kind.isEmpty then none
      else match rest.dropWhile isTokenChar with
        | [] => some (ofNames kind names)
        | ';' :: parameters =>
            if !names.isEmpty && areParameters parameters then some (ofNames kind names) else none
        | _ => none
  | _ => none

/-- Is the body of such a request JSON? -/
def isJson (m : MediaType) : Bool :=
  m.kind == "application".toList &&
    (m.subtype == "json".toList || m.suffix == some "json".toList)

end MediaType

end Vitae.Service
