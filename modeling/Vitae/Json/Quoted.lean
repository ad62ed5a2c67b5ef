/-
Module: Vitae.Json.Quoted
Layer: Json
Purpose: Strings as JSON writes them: escapes, surrogate pairs, and the characters they stand for.
Imports: Vitae.Text.Hex
Main exports: Quoted, Quoted.scan, Quoted.quote
-/
import Vitae.Text.Hex

namespace Vitae.Json

open Text (hexDigit?)

/-- The content of a string. A string can be well formed and still name no text, when one of its
escapes is half of a surrogate pair whose other half is missing. -/
inductive Quoted where
  | plain (s : String)
  | unpaired
deriving Repr, DecidableEq

namespace Quoted

/-- A piece of a string before surrogates are paired: a character that stands for itself or after a
backslash, or a code unit in hexadecimal. -/
inductive Atom where
  | char (c : Char)
  | code (n : Nat)
deriving Repr, DecidableEq

/-- The number written by four hexadecimal digits. -/
def hex4? (a b c d : Char) : Option Nat := do
  let a ← hexDigit? a
  let b ← hexDigit? b
  let c ← hexDigit? c
  let d ← hexDigit? d
  some (((a * 16 + b) * 16 + c) * 16 + d)

/-- The character that a backslash and the given character stand for. -/
def escaped? (c : Char) : Option Char :=
  if c = '"' then some '"'
  else if c = '\\' then some '\\'
  else if c = '/' then some '/'
  else if c = 'b' then some '\x08'
  else if c = 'f' then some '\x0c'
  else if c = 'n' then some '\n'
  else if c = 'r' then some '\r'
  else if c = 't' then some '\t'
  else none

/-- Read the atoms of a string up to its closing quote. `done` holds the atoms before, latest first. -/
def atoms? (done : List Atom) : List Char → Option (List Atom × List Char)
  | [] => none
  | '"' :: rest => some (done.reverse, rest)
  | '\\' :: 'u' :: a :: b :: c :: d :: rest =>
      match hex4? a b c d with
      | some n => atoms? (.code n :: done) rest
      | none => none
  | '\\' :: c :: rest =>
      match escaped? c with
      | some e => atoms? (.char e :: done) rest
      | none => none
  | c :: rest => if c = '\\' ∨ c.toNat < 0x20 then none else atoms? (.char c :: done) rest

/-- The first half of a surrogate pair. -/
def isHigh (n : Nat) : Bool :=
  0xD800 ≤ n && n ≤ 0xDBFF

/-- The second half of a surrogate pair. -/
def isLow (n : Nat) : Bool :=
  0xDC00 ≤ n && n ≤ 0xDFFF

/-- The character of a surrogate pair. -/
def ofPair (high low : Nat) : Char :=
  Char.ofNat (0x10000 + (high - 0xD800) * 0x400 + (low - 0xDC00))

/-- Pair the surrogates. `done` holds the characters before, latest first. -/
def ofAtoms (done : List Char) : List Atom → Quoted
  | [] => .plain (String.ofList done.reverse)
  | .char c :: rest => ofAtoms (c :: done) rest
  | .code high :: .code low :: rest =>
      if isHigh high then
        if isLow low then ofAtoms (ofPair high low :: done) rest else .unpaired
      else if isLow high then .unpaired
      else ofAtoms (Char.ofNat high :: done) (.code low :: rest)
  | .code n :: rest =>
      if isHigh n || isLow n then .unpaired else ofAtoms (Char.ofNat n :: done) rest

/-- Read a string whose opening quote has been read, and give what follows it. -/
def scan (s : List Char) : Option (Quoted × List Char) :=
  (atoms? [] s).map fun (atoms, rest) => (ofAtoms [] atoms, rest)

theorem atoms?_shorter {done : List Atom} {s : List Char} {atoms : List Atom}
    {rest : List Char} (h : atoms? done s = some (atoms, rest)) :
    rest.length < s.length := by
  fun_induction atoms? done s <;> simp_all <;> omega

theorem scan_shorter {s rest : List Char} {t : Quoted}
    (h : scan s = some (t, rest)) : rest.length < s.length := by
  simp only [scan, Option.map_eq_some_iff] at h
  obtain ⟨⟨atoms, rest'⟩, h, e⟩ := h
  cases e
  exact atoms?_shorter h

/-- The hexadecimal digit of a number below sixteen. -/
def hexChar (n : Nat) : Char :=
  Nat.digitChar n

/-- How a character is written inside a string. -/
def quoteChar (c : Char) : List Char :=
  if c = '"' then ['\\', '"']
  else if c = '\\' then ['\\', '\\']
  else if c = '\x08' then ['\\', 'b']
  else if c = '\x0c' then ['\\', 'f']
  else if c = '\n' then ['\\', 'n']
  else if c = '\r' then ['\\', 'r']
  else if c = '\t' then ['\\', 't']
  else if c.toNat < 0x20 then
    ['\\', 'u', '0', '0', hexChar (c.toNat / 16), hexChar (c.toNat % 16)]
  else [c]

/-- A text in quotes. -/
def quote (s : String) : List Char :=
  '"' :: (s.toList.flatMap quoteChar ++ ['"'])

end Quoted

end Vitae.Json
