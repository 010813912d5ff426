import Warren.Json.Printer

/-!
# Reading JSON text

`read?` takes the strict grammar: no trailing commas, no leading zeros, no control characters and
no lone surrogates in strings, and at most 127 nested arrays and objects. It keeps the fields of
an object as they stand in the text; `parse?` then sorts them and lets the last one of a key win.
-/

namespace Warren.Json

/-- The number of containers that may not be nested in each other. -/
def depthLimit : Nat := 128

def isGap (c : Char) : Bool := c = ' ' || c = '\t' || c = '\n' || c = '\r'

def skipGap (cs : List Char) : List Char := cs.dropWhile isGap

def readHex? (cs : List Char) : Option Nat := Text.read? hexDigits (cs.map Char.toLower)

/-- The character with a code point, unless it is a surrogate or too large. -/
def codePoint? (n : Nat) : Option Char := if n.isValidChar then some (Char.ofNat n) else none

/-- The character written by two halves of a surrogate pair. -/
def surrogates? (high low : Nat) : Option Char :=
  if 0xD800 ≤ high ∧ high < 0xDC00 ∧ 0xDC00 ≤ low ∧ low < 0xE000 then
    codePoint? (0x10000 + (high - 0xD800) * 0x400 + (low - 0xDC00))
  else none

def unescape? (c : Char) : Option Char :=
  match c with
  | '"' => some '"'
  | '\\' => some '\\'
  | '/' => some '/'
  | 'b' => some '\x08'
  | 'f' => some '\x0c'
  | 'n' => some '\n'
  | 'r' => some '\r'
  | 't' => some '\t'
  | _ => none

/-- The characters of a string up to its closing quote, and the text after it. -/
def readString? : List Char → Option (List Char × List Char)
  | [] => none
  | '"' :: rest => some ([], rest)
  | '\\' :: 'u' :: a :: b :: c :: d :: '\\' :: 'u' :: e :: f :: g :: h :: rest => do
    let high ← readHex? [a, b, c, d]
    match codePoint? high with
    | some x =>
      let (xs, rest) ← readString? ('\\' :: 'u' :: e :: f :: g :: h :: rest)
      some (x :: xs, rest)
    | none =>
      let x ← surrogates? high (← readHex? [e, f, g, h])
      let (xs, rest) ← readString? rest
      some (x :: xs, rest)
  | '\\' :: 'u' :: a :: b :: c :: d :: rest => do
    let x ← codePoint? (← readHex? [a, b, c, d])
    let (xs, rest) ← readString? rest
    some (x :: xs, rest)
  | '\\' :: c :: rest => do
    let x ← unescape? c
    let (xs, rest) ← readString? rest
    some (x :: xs, rest)
  | c :: rest => do
    if c = '\\' ∨ c.toNat < 32 then none
    else
      let (xs, rest) ← readString? rest
      some (c :: xs, rest)

def spanDigits (cs : List Char) : List Char × List Char := cs.span Text.isDigit

/-- The number written by digits, zero for none. -/
def digitsValue (ds : List Char) : Nat := (Text.read? Text.decimalDigits ds).getD 0

/-- The integer of a numeral, or the double nearest to it where it does not fit. -/
def integerOrReal? (negative : Bool) (n : Nat) : Option Number :=
  if negative then
    if 0 < n ∧ n ≤ 0x8000000000000000 then some (.integer (-(n : Int)))
    else (Binary64.ofDecimal? true n 0).map .real
  else if n < UInt64.size then some (.integer n)
  else (Binary64.ofDecimal? false n 0).map .real

def readExponent? (cs : List Char) : Option (Int × List Char) :=
  let (negative, cs) := match cs with
    | '-' :: rest => (true, rest)
    | '+' :: rest => (false, rest)
    | cs => (false, cs)
  match spanDigits cs with
  | ([], _) => none
  | (ds, rest) =>
    let n : Int := digitsValue ds
    some (if negative then -n else n, rest)

def readNumber? (cs : List Char) : Option (Number × List Char) := do
  let (negative, cs) := match cs with
    | '-' :: rest => (true, rest)
    | cs => (false, cs)
  let (whole, rest) := spanDigits cs
  if whole = [] ∨ (whole.head? = some '0' ∧ whole.length ≠ 1) then none
  let (fraction, rest) ← match rest with
    | '.' :: rest => match spanDigits rest with
      | ([], _) => none
      | (ds, rest) => some (some ds, rest)
    | rest => some (none, rest)
  let (power, rest) ← match rest with
    | c :: after =>
      if c = 'e' ∨ c = 'E' then (readExponent? after).map fun (n, rest) => (some n, rest)
      else some (none, rest)
    | [] => some (none, rest)
  match fraction, power with
  | none, none =>
    let n ← integerOrReal? negative (digitsValue whole)
    some (n, rest)
  | _, _ =>
    let ds := fraction.getD []
    let x ← Binary64.ofDecimal? negative (digitsValue (whole ++ ds)) (power.getD 0 - ds.length)
    some (.real x, rest)

mutual

def readValue? : (fuel depth : Nat) → List Char → Option (Json × List Char)
  | 0, _, _ => none
  | fuel + 1, depth, cs =>
    match skipGap cs with
    | 'n' :: 'u' :: 'l' :: 'l' :: rest => some (.null, rest)
    | 't' :: 'r' :: 'u' :: 'e' :: rest => some (.boolean true, rest)
    | 'f' :: 'a' :: 'l' :: 's' :: 'e' :: rest => some (.boolean false, rest)
    | '"' :: rest => (readString? rest).map fun (s, rest) => (.string (String.ofList s), rest)
    | '[' :: rest =>
      if depth ≤ 1 then none
      else match skipGap rest with
        | ']' :: rest => some (.array [], rest)
        | rest => (readItems? fuel (depth - 1) rest).map fun (items, rest) => (.array items, rest)
    | '\x7b' :: rest =>
      if depth ≤ 1 then none
      else match skipGap rest with
        | '\x7d' :: rest => some (.object [], rest)
        | rest => (readFields? fuel (depth - 1) rest).map fun (fields, rest) =>
          (.object fields, rest)
    | cs => (readNumber? cs).map fun (n, rest) => (.number n, rest)

def readItems? : (fuel depth : Nat) → List Char → Option (List Json × List Char)
  | 0, _, _ => none
  | fuel + 1, depth, cs => do
    let (item, rest) ← readValue? fuel depth cs
    match skipGap rest with
    | ',' :: rest =>
      let (items, rest) ← readItems? fuel depth rest
      some (item :: items, rest)
    | ']' :: rest => some ([item], rest)
    | _ => none

def readFields? : (fuel depth : Nat) → List Char → Option (List (String × Json) × List Char)
  | 0, _, _ => none
  | fuel + 1, depth, cs => do
    match skipGap cs with
    | '"' :: rest =>
      let (key, rest) ← readString? rest
      match skipGap rest with
      | ':' :: rest =>
        let (value, rest) ← readValue? fuel depth rest
        let field := (String.ofList key, value)
        match skipGap rest with
        | ',' :: rest =>
          let (fields, rest) ← readFields? fuel depth rest
          some (field :: fields, rest)
        | '\x7d' :: rest => some ([field], rest)
        | _ => none
      | _ => none
    | _ => none

end

/-- The value that a text holds, with its fields as they are written. -/
def read? (s : String) : Option Json :=
  let cs := s.toList
  match readValue? (2 * cs.length + 2) depthLimit cs with
  | some (j, rest) => if skipGap rest = [] then some j else none
  | none => none

mutual

/-- The value with sorted fields, of which the last one of a key counts. -/
def sortFields : Json → Json
  | .array items => .array (sortItems items)
  | .object fields => .object (Dict.ofEntries (sortEntries fields))
  | j => j

def sortItems : List Json → List Json
  | [] => []
  | item :: rest => sortFields item :: sortItems rest

def sortEntries : List (String × Json) → List (String × Json)
  | [] => []
  | field :: rest => sortEntry field :: sortEntries rest

def sortEntry : String × Json → String × Json
  | (key, value) => (key, sortFields value)

end

def parse? (s : String) : Option Json := (read? s).map sortFields

end Warren.Json
