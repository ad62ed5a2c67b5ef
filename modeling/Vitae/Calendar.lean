/-
Module: Vitae.Calendar
Layer: Calendar
Purpose: Dates of the Gregorian calendar, read from year, month and day in figures, and the month and
  year that a resume shows of them.
Imports: Vitae.Text.Space
Main exports: Date, Date.read?, showDate
-/
import Vitae.Text.Space

namespace Vitae

open Text (isSpace trim)

/-- A year, a month and a day, as numbers that need not be a date. -/
structure Date where
  year : Int
  month : Nat
  day : Nat
deriving Repr, DecidableEq

namespace Date

/-- A year with a day more than others. -/
def isLeap (year : Int) : Bool :=
  year % 4 == 0 && (year % 100 != 0 || year % 400 == 0)

/-- The number of days in a month of a year, none if there is no such month. -/
def daysIn (year : Int) (month : Nat) : Nat :=
  if month ∈ [1, 3, 5, 7, 8, 10, 12] then 31
  else if month ∈ [4, 6, 9, 11] then 30
  else if month = 2 then (if isLeap year then 29 else 28)
  else 0

/-- The years for which dates are kept. -/
def inRange (year : Int) : Bool :=
  -262143 ≤ year && year ≤ 262142

/-- Is this a day of the calendar, in the years for which dates are kept? -/
def exists? (d : Date) : Bool :=
  inRange d.year && 1 ≤ d.day && d.day ≤ daysIn d.year d.month

/-- The natural number written by digits. -/
def figure (digits : List Char) : Nat :=
  digits.foldl (fun n c => n * 10 + (c.toNat - '0'.toNat)) 0

/-- Read at most `limit` digits after any space, and at least one. -/
def scanDigits (limit : Nat) (s : List Char) : Option (Nat × List Char) :=
  let digits := (s.takeWhile Char.isDigit).take limit
  if digits.isEmpty then none else some (figure digits, s.drop digits.length)

/-- Read a year: up to four digits, or a sign and any number of digits. -/
def scanYear (s : List Char) : Option (Int × List Char) :=
  match s with
  | '+' :: rest => (scanDigits rest.length rest).map fun (n, rest) => ((n : Int), rest)
  | '-' :: rest => (scanDigits rest.length rest).map fun (n, rest) => (-(n : Int), rest)
  | s => (scanDigits 4 s).map fun (n, rest) => ((n : Int), rest)

/-- Read a hyphen. -/
def scanHyphen : List Char → Option (List Char)
  | '-' :: rest => some rest
  | _ => none

/-- Read year, month and day with hyphens between them. Each number may have space before it, and
nothing may follow. -/
def read? (s : List Char) : Option Date := do
  let (year, rest) ← scanYear (s.dropWhile isSpace)
  let rest ← scanHyphen rest
  let (month, rest) ← scanDigits 2 (rest.dropWhile isSpace)
  let rest ← scanHyphen rest
  let (day, rest) ← scanDigits 2 (rest.dropWhile isSpace)
  if rest.isEmpty && exists? ⟨year, month, day⟩ then some ⟨year, month, day⟩ else none

/-- The months by their first letters. -/
def monthNames : List String :=
  ["Jan", "Feb", "Mar", "Apr", "May", "Jun", "Jul", "Aug", "Sep", "Oct", "Nov", "Dec"]

/-- The month and the year of a date. -/
def monthAndYear (d : Date) : String :=
  monthNames.getD (d.month - 1) "" ++ " " ++ toString d.year

/-- Read a date whose day may be missing. -/
def readMonth? (s : List Char) : Option Date :=
  (read? s).or (read? (s ++ "-01".toList))

end Date

/-- A date as a resume shows it: month and year, where the text is a date of at least seven bytes, and
the trimmed text otherwise. -/
def showDate (raw : String) : String :=
  let raw := trim raw
  match Date.readMonth? raw.toList with
  | some d => if 7 ≤ raw.utf8ByteSize then d.monthAndYear else raw
  | none => raw

end Vitae
