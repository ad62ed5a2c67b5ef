/-
Module: Vitae.Style.Color
Layer: Style
Purpose: Colours in hexadecimal notation and as triples of channels.
Imports: Vitae.Text.Bytes, Vitae.Text.Hex, Vitae.Text.Space
Main exports: Rgb, Rgb.readHex, Rgb.ofHex?, Rgb.ofHex
-/
import Vitae.Text.Bytes
import Vitae.Text.Hex
import Vitae.Text.Space

namespace Vitae

open Text (BadRange hexByte? isHexDigit slice trimChars utf8Length)

/-- A colour by its red, green and blue channels. -/
structure Rgb where
  red : UInt8
  green : UInt8
  blue : UInt8
deriving Repr, DecidableEq

namespace Rgb

/-- The colour of last resort. -/
def black : Rgb :=
  ⟨0, 0, 0⟩

/-- Drop one number sign at the front. -/
def dropSign : List Char → List Char
  | '#' :: digits => digits
  | digits => digits

/-- Three characters stand for two equal ones each. -/
def expand (digits : List Char) : List Char :=
  if digits.length = 3 then digits.flatMap fun c => [c, c] else digits

/-- The channel whose two digits begin at a place, in bytes. -/
def channelAt (digits : List Char) (place : Nat) : Except BadRange (Option UInt8) :=
  return hexByte? (← slice place (place + 2) digits)

/-- The colour written by six hexadecimal digits. The check is on the length in bytes, and the channels are cut
out by bytes. -/
def readDigits (digits : List Char) : Except BadRange (Option Rgb) := do
  if utf8Length digits ≠ 6 ∨ !digits.all isHexDigit then
    return none
  let some red ← channelAt digits 0 | return none
  let some green ← channelAt digits 2 | return none
  let some blue ← channelAt digits 4 | return none
  return some ⟨red, green, blue⟩

/-- The text of a colour as it is expanded, without the space around it and a number sign. -/
def digits (text : String) : List Char :=
  expand (dropSign (trimChars text.toList))

/-- Read a colour, with space around it and a number sign before it or without. -/
def readHex (text : String) : Except BadRange (Option Rgb) :=
  readDigits (digits text)

/-- The colour that a text writes. Reading is not unfolded where only its result matters. -/
@[irreducible]
def ofHex? (text : String) : Option Rgb :=
  match readHex text with
  | .ok color => color
  | .error _ => none

/-- Read a colour, black if the text is none. -/
def ofHex (text : String) : Rgb :=
  (ofHex? text).getD black

/-- The channels as TeX writes them, with commas. -/
def channels (c : Rgb) : String :=
  toString c.red.toNat ++ "," ++ toString c.green.toNat ++ "," ++ toString c.blue.toNat

/-- The command that gives a colour a name. -/
def define (c : Rgb) (name : String) : String :=
  "\\definecolor\x7b" ++ name ++ "\x7d\x7bRGB\x7d\x7b" ++ c.channels ++ "\x7d"

end Rgb

end Vitae
