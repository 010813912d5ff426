import Warren.Text.Split
import Warren.Text.Timestamp
import Warren.Toml.Value

/-!
# TOML scalars

Numbers, dates and times are words: the text up to the next blank, bracket or comma decides what
they are. Digits may be separated by single underscores.
-/

namespace Warren.Toml

def digitsOf (base : Nat) : List Char :=
  ("0123456789abcdef".toList).take base

/-- The digits of a numeral without the underscores, each of which stands between two digits. -/
def plainDigits? (isDigit : Char → Bool) (cs : List Char) : Option (List Char) :=
  if (Text.pieces '_' cs).all fun piece => !piece.isEmpty && piece.all isDigit then
    some (cs.filter (· ≠ '_'))
  else none

/-- The text that only a decimal numeral without leading zeros has. -/
def decimalDigits? (cs : List Char) : Option (List Char) :=
  match plainDigits? Text.isDigit cs with
  | some ['0'] => some ['0']
  | some ('0' :: _) => none
  | found => found

def basedInteger? (base : Nat) (cs : List Char) : Option Int := do
  let isDigit (c : Char) : Bool := (digitsOf base).contains c.toLower
  let ds ← plainDigits? isDigit cs
  (Text.read? (digitsOf base) (ds.map Char.toLower)).map Int.ofNat

def integer? (cs : List Char) : Option Int :=
  match cs with
  | '0' :: 'x' :: ds => basedInteger? 16 ds
  | '0' :: 'o' :: ds => basedInteger? 8 ds
  | '0' :: 'b' :: ds => basedInteger? 2 ds
  | cs => do
    let (negative, ds) := Extended.readSign cs
    let n ← Text.read? Text.decimalDigits (← decimalDigits? ds)
    some (if negative then -(n : Int) else n)

def isPowerMark (c : Char) : Bool := c = 'e' || c = 'E'

def powerDigits? (cs : List Char) : Option (List Char) :=
  match cs with
  | '-' :: ds => (plainDigits? Text.isDigit ds).map ('-' :: ·)
  | '+' :: ds => plainDigits? Text.isDigit ds
  | ds => plainDigits? Text.isDigit ds

/-- The fraction of a float with its point, if there is one. -/
def fractionDigits? : List Char → Option (List Char)
  | [] => some []
  | '.' :: ds => (plainDigits? Text.isDigit ds).map ('.' :: ·)
  | _ => none

/-- A float with digits on both sides of its point, or with an exponent, or with both. -/
def numericFloat? (negative : Bool) (cs : List Char) : Option Extended := do
  let (body, mark) := cs.span fun c => !isPowerMark c
  let (whole, point) := body.span (· ≠ '.')
  if point.isEmpty && mark.isEmpty then none
  let whole ← decimalDigits? whole
  let fraction ← fractionDigits? point
  let power ← match mark with
    | [] => some []
    | _ :: rest => (powerDigits? rest).map ('e' :: ·)
  (Extended.readMagnitude? negative (whole ++ fraction ++ power)).filter Extended.isFinite

/-- The float that a word stands for. A numeral that is too large is no float. -/
def float? (cs : List Char) : Option Extended :=
  let (negative, rest) := Extended.readSign cs
  match rest with
  | ['i', 'n', 'f'] => some (.infinite negative)
  | ['n', 'a', 'n'] => some .nan
  | rest => numericFloat? negative rest

/-! ### Dates and times -/

def fixedDigits? (count : Nat) (cs : List Char) : Option (Nat × List Char) :=
  let ds := cs.take count
  if ds.length = count then (Text.read? Text.decimalDigits ds).map fun n => (n, cs.drop count)
  else none

def after? (c : Char) : List Char → Option (List Char)
  | d :: rest => if d = c then some rest else none
  | [] => none

def skipDate? (cs : List Char) : Option (List Char) := do
  let (year, cs) ← fixedDigits? 4 cs
  let (month, cs) ← fixedDigits? 2 (← after? '-' cs)
  let (day, cs) ← fixedDigits? 2 (← after? '-' cs)
  if 1 ≤ month ∧ month ≤ 12 ∧ 1 ≤ day ∧ day ≤ Text.Timestamp.daysIn year month then some cs
  else none

def skipFraction? (cs : List Char) : Option (List Char) :=
  match cs with
  | '.' :: rest => match rest.span Text.isDigit with
    | ([], _) => none
    | (_, rest) => some rest
  | cs => some cs

/-- The text after a time of day; the seconds may be left out. -/
def skipTime? (cs : List Char) : Option (List Char) := do
  let (hour, cs) ← fixedDigits? 2 cs
  let (minute, cs) ← fixedDigits? 2 (← after? ':' cs)
  if 23 < hour ∨ 59 < minute then none
  match cs with
  | ':' :: cs => do
    let (second, cs) ← fixedDigits? 2 cs
    if 60 < second then none else skipFraction? cs
  | cs => some cs

/-- The text after an offset, if there is one. -/
def skipOffset? (cs : List Char) : Option (List Char) :=
  match cs with
  | [] => some []
  | c :: rest =>
    if c = 'Z' ∨ c = 'z' then some rest
    else if c = '+' ∨ c = '-' then do
      let (hour, cs) ← fixedDigits? 2 rest
      let (minute, cs) ← fixedDigits? 2 (← after? ':' cs)
      if 23 < hour ∨ 59 < minute then none else some cs
    else none

/-- Whether a character stands between a date and a time. -/
def isTimeMark (c : Char) : Bool := c = 'T' || c = 't' || c = ' '

/-- Whether a text is a date, a time or both. -/
def isMoment (cs : List Char) : Bool :=
  match skipDate? cs with
  | some [] => true
  | some (c :: rest) => isTimeMark c && (skipTime? rest).bind skipOffset? = some []
  | none => skipTime? cs = some []

/-- A date or a time with capital letters in it. -/
def normalized (cs : List Char) : String :=
  String.ofList (cs.map fun c => if c = 't' ∨ c = ' ' then 'T' else if c = 'z' then 'Z' else c)

def word? (cs : List Char) : Option Value :=
  match String.ofList cs with
  | "true" => some (.boolean true)
  | "false" => some (.boolean false)
  | _ => ((integer? cs).map Value.integer).or <| ((float? cs).map Value.float).or <|
      if isMoment cs then some (.moment (normalized cs)) else none

end Warren.Toml
