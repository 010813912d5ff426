import Warren.Binary64

/-!
# Doubles beyond the finite ones

A double is finite, infinite or not a number. `read?` takes decimal numerals and the usual words for
the other two; a numeral that is too large stands for an infinite double.
-/

namespace Warren

inductive Extended where
  | finite (value : Binary64)
  | infinite (negative : Bool)
  | nan
deriving DecidableEq, Repr

namespace Extended

def isFinite : Extended → Bool
  | .finite _ => true
  | _ => false

def readSign (cs : List Char) : Bool × List Char :=
  match cs with
  | '-' :: rest => (true, rest)
  | '+' :: rest => (false, rest)
  | cs => (false, cs)

/-- The number that digits stand for, zero without digits. -/
def digitsValue (ds : List Char) : Nat := (Text.read? Text.decimalDigits ds).getD 0

def readPower? (cs : List Char) : Option Int :=
  let (negative, ds) := readSign cs
  (Text.read? Text.decimalDigits ds).map fun n => if negative then -n else n

/-- A decimal numeral without a sign: digits, a point and an exponent, where either the digits
before or those behind the point may be missing. -/
def readMagnitude? (negative : Bool) (cs : List Char) : Option Extended := do
  let (whole, rest) := cs.span Text.isDigit
  let (fraction, rest) := match rest with
    | '.' :: rest => rest.span Text.isDigit
    | rest => ([], rest)
  if whole = [] ∧ fraction = [] then none
  let power ← match rest with
    | [] => some 0
    | c :: rest => if c = 'e' ∨ c = 'E' then readPower? rest else none
  some <| match Binary64.ofDecimal? negative (digitsValue (whole ++ fraction))
      (power - fraction.length) with
    | some x => .finite x
    | none => .infinite negative

def read? (cs : List Char) : Option Extended :=
  let (negative, rest) := readSign cs
  match String.ofList (rest.map Char.toLower) with
  | "inf" | "infinity" => some (.infinite negative)
  | "nan" => some .nan
  | _ => readMagnitude? negative rest

end Extended

end Warren
