import Warren.Text.Blank
import Warren.Text.Numeral

/-!
# Timestamps

A timestamp is a date, a time of day and an offset from UTC, as in `2024-01-01T00:00:00Z`. White
space is allowed around every number, and a number may have fewer digits than usual.
-/

namespace Warren.Text

/-- A date, a time of day and an offset in minutes from UTC. -/
structure Timestamp where
  year : Int
  month : Nat
  day : Nat
  hour : Nat
  minute : Nat
  second : Nat
  offset : Int
deriving DecidableEq, Repr

namespace Timestamp

def skip (cs : List Char) : List Char := cs.dropWhile isBlank

def number? (most : Nat) (cs : List Char) : Option (Nat × List Char) := do
  let ds := (cs.takeWhile isDigit).take most
  let n ← read? decimalDigits ds
  some (n, cs.drop ds.length)

/-- A year: four digits, or any number behind a sign. -/
def year? (cs : List Char) : Option (Int × List Char) :=
  match cs with
  | '-' :: rest => (number? rest.length rest).map fun (n, rest) => (-(n : Int), rest)
  | '+' :: rest => (number? rest.length rest).map fun (n, rest) => ((n : Int), rest)
  | cs => (number? 4 cs).map fun (n, rest) => ((n : Int), rest)

/-- The text after a character, white space in front of it aside. -/
def symbol? (c : Char) (cs : List Char) : Option (List Char) :=
  match skip cs with
  | d :: rest => if d = c then some rest else none
  | [] => none

def skipFraction? (cs : List Char) : Option (List Char) :=
  match cs with
  | '.' :: rest => if (rest.takeWhile isDigit).isEmpty then none else some (rest.dropWhile isDigit)
  | cs => some cs

/-- Hours and minutes of an offset, in minutes. -/
def offsetMinutes? (cs : List Char) : Option (Nat × List Char) := do
  match cs with
  | a :: b :: rest =>
    let hours ← read? decimalDigits [a, b]
    match rest.dropWhile (fun c => c = ':' || isBlank c) with
    | c :: d :: rest =>
      let minutes ← read? decimalDigits [c, d]
      if minutes < 60 then some (hours * 60 + minutes, rest) else none
    | _ => none
  | _ => none

def offset? (cs : List Char) : Option (Int × List Char) :=
  match cs with
  | 'Z' :: rest => some (0, rest)
  | 'z' :: rest => some (0, rest)
  | '+' :: rest => (offsetMinutes? rest).map fun (n, rest) => ((n : Int), rest)
  | '-' :: rest => (offsetMinutes? rest).map fun (n, rest) => (-(n : Int), rest)
  | '−' :: rest => (offsetMinutes? rest).map fun (n, rest) => (-(n : Int), rest)
  | _ => none

/-- An offset from UTC, where `UTC` in any case is one as well. -/
def zone? (cs : List Char) : Option (Int × List Char) :=
  match cs with
  | u :: t :: c :: rest =>
    if u.toUpper = 'U' ∧ t.toUpper = 'T' ∧ c.toUpper = 'C' then some (0, rest) else offset? cs
  | cs => offset? cs

def isLeap (year : Int) : Bool := year % 4 = 0 && (year % 100 ≠ 0 || year % 400 = 0)

def daysIn (year : Int) (month : Nat) : Nat :=
  if month = 2 then if isLeap year then 29 else 28
  else if month = 4 ∨ month = 6 ∨ month = 9 ∨ month = 11 then 30
  else 31

/-- Whether the parts name a day and a time of day. -/
def isValid (t : Timestamp) : Bool :=
  -262143 ≤ t.year && t.year ≤ 262142
    && 1 ≤ t.month && t.month ≤ 12 && 1 ≤ t.day && t.day ≤ daysIn t.year t.month
    && t.hour < 24 && t.minute < 60 && t.second ≤ 60 && t.offset.natAbs < 1440

def parse? (s : String) : Option Timestamp := do
  let (year, cs) ← year? (skip s.toList)
  let (month, cs) ← number? 2 (skip (← symbol? '-' cs))
  let (day, cs) ← number? 2 (skip (← symbol? '-' cs))
  let cs ← match cs with
    | c :: rest => if c = 'T' ∨ c = 't' ∨ c = ' ' then some rest else none
    | [] => none
  let (hour, cs) ← number? 2 (skip cs)
  let (minute, cs) ← number? 2 (skip (← symbol? ':' cs))
  let (second, cs) ← number? 2 (skip (← symbol? ':' cs))
  let (offset, cs) ← zone? (skip (← skipFraction? cs))
  let t : Timestamp := ⟨year, month, day, hour, minute, second, offset⟩
  if t.isValid ∧ skip cs = [] then some t else none

end Timestamp

end Warren.Text
