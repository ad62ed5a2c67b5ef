/-
Module: Vitae.Json.Value
Layer: Json
Purpose: The tree of a JSON text, and the machine that builds it from lexemes. A text that stops being
  JSON still has a tree: what was read of it, with a fault where reading stopped. So a reader of trees
  meets whatever is wrong with a text in the order in which the text says it.
Imports: Vitae.Json.Token
Main exports: Json, Member, Json.ofTokens, Json.ofText
-/
import Vitae.Json.Token

namespace Vitae

open Vitae.Json

/-- An entry of an object: a name with its value, or the place where no more entries could be read. -/
inductive Json.Member (α : Type) where
  | pair (name : Quoted) (value : α)
  | fault
deriving Repr

/-- A JSON value as far as it could be read. `fault` is where the text stopped being JSON. A list or an
object in which reading stopped, at whatever depth, ends in a fault of its own. -/
inductive Json where
  | null
  | bool (b : Bool)
  | number (n : Numeral)
  | string (t : Quoted)
  | array (items : List Json)
  | object (members : List (Member Json))
  | fault
deriving Repr

namespace Json

/-- A list or an object that is being read, with what it holds so far, latest first. -/
inductive Frame where
  | items (done : List Json)
  | members (done : List (Member Json)) (name : Quoted)

/-- What the next lexeme is to be: a value, a value or the end of an empty list, a name (or the end of
an empty object, if `first`), the colon after a name, or what follows a value. -/
inductive Mode where
  | value
  | firstItem
  | name (first : Bool) (done : List (Member Json))
  | colon (done : List (Member Json)) (name : Quoted)
  | after (v : Json)

/-- A reader between two lexemes: what it waits for, and the values around it, innermost first. -/
structure State where
  mode : Mode
  frames : List Frame

/-- The result of a lexeme: reading goes on, or the tree is finished. -/
inductive Outcome where
  | more (s : State)
  | done (v : Json)

/-- Give up inside the value `v`: it and every value around it end in a fault. -/
def giveUp (v : Json) : List Frame → Json
  | [] => v
  | .items done :: frames => giveUp (.array (.fault :: v :: done).reverse) frames
  | .members done name :: frames =>
      giveUp (.object (.fault :: .pair name v :: done).reverse) frames

/-- The tree if the text ends, or goes wrong, in this state. -/
def State.stopped (s : State) : Json :=
  match s.mode with
  | .value => giveUp .fault s.frames
  | .firstItem => giveUp (.array [.fault]) s.frames
  | .name _ done => giveUp (.object (.fault :: done).reverse) s.frames
  | .colon done name =>
      giveUp (.object (.fault :: .pair name .fault :: done).reverse) s.frames
  | .after v => giveUp v s.frames

/-- A value is complete. At the top it is the tree. -/
def complete (v : Json) : List Frame → Outcome
  | [] => .done v
  | frames => .more ⟨.after v, frames⟩

/-- The value that a single lexeme is. -/
def scalar? : Token → Option Json
  | .null => some .null
  | .bool b => some (.bool b)
  | .number n => some (.number n)
  | .string t => some (.string t)
  | _ => none

/-- A lexeme where a value begins. -/
def begin (frames : List Frame) : Token → Outcome
  | .openArray => .more ⟨.firstItem, frames⟩
  | .openObject => .more ⟨.name true [], frames⟩
  | token => match scalar? token with
      | some v => complete v frames
      | none => .done (giveUp .fault frames)

/-- Take in one lexeme. -/
def step (s : State) (token : Token) : Outcome :=
  match s.mode with
  | .value => begin s.frames token
  | .firstItem => match token with
      | .closeArray => complete (.array []) s.frames
      | _ => begin (.items [] :: s.frames) token
  | .name first done => match token with
      | .string t => .more ⟨.colon done t, s.frames⟩
      | .closeObject =>
          if first then complete (.object done.reverse) s.frames else .done s.stopped
      | _ => .done s.stopped
  | .colon done name => match token with
      | .colon => .more ⟨.value, .members done name :: s.frames⟩
      | _ => .done s.stopped
  | .after v => match s.frames, token with
      | .items done :: frames, .comma => .more ⟨.value, .items (v :: done) :: frames⟩
      | .items done :: frames, .closeArray => complete (.array (v :: done).reverse) frames
      | .members done name :: frames, .comma =>
          .more ⟨.name false (.pair name v :: done), frames⟩
      | .members done name :: frames, .closeObject =>
          complete (.object (.pair name v :: done).reverse) frames
      | _, _ => .done s.stopped

/-- Read on until the tree is finished, and give the lexemes after it. -/
def run (s : State) : List Token → Json × List Token
  | [] => (s.stopped, [])
  | token :: rest => match step s token with
      | .more s => run s rest
      | .done v => (v, rest)

/-- The tree at the start of a sequence of lexemes, and the lexemes after it. -/
def ofTokens (tokens : List Token) : Json × List Token :=
  run ⟨.value, []⟩ tokens

/-- The tree at the start of a text, and the lexemes after it. -/
def ofText (s : String) : Json × List Token :=
  ofTokens (Token.ofText s.toList)

mutual

/-- The text of a tree, without any space. A fault has no text. -/
def chars : Json → List Char
  | .null => "null".toList
  | .bool true => "true".toList
  | .bool false => "false".toList
  | .number n => n.text
  | .string (.plain s) => Quoted.quote s
  | .string .unpaired => []
  | .array items => '[' :: (itemChars items ++ [']'])
  | .object members => '\x7b' :: (memberChars members ++ ['\x7d'])
  | .fault => []

/-- The texts of the items of a list, with commas between them. -/
def itemChars : List Json → List Char
  | [] => []
  | [v] => v.chars
  | v :: vs => v.chars ++ ',' :: itemChars vs

/-- The texts of the entries of an object, with commas between them. -/
def memberChars : List (Member Json) → List Char
  | [] => []
  | [m] => entryChars m
  | m :: ms => entryChars m ++ ',' :: memberChars ms

/-- The text of one entry. -/
def entryChars : Member Json → List Char
  | .pair (.plain name) v => Quoted.quote name ++ ':' :: v.chars
  | .pair .unpaired v => ':' :: v.chars
  | .fault => []

end

/-- The text of a tree. -/
def text (v : Json) : String :=
  String.ofList v.chars

/-- An entry with a plain name. -/
def entry (name : String) (v : Json) : Member Json :=
  .pair (.plain name) v

/-- A string. -/
def ofString (s : String) : Json :=
  .string (.plain s)

/-- A natural number. -/
def ofNat (n : Nat) : Json :=
  .number (.ofNat n)

end Json

end Vitae
