import Warren.Binary64.Shortest
import Warren.Json.Basic
import Warren.Text.Numeral

/-!
# Compact JSON text

The text of a value without blanks. Fields come in the order of their keys, characters outside
ASCII stand for themselves, and a double is written with the fewest digits that read back.
-/

namespace Warren.Json

def hexDigits : List Char := Text.decimalDigits ++ ['a', 'b', 'c', 'd', 'e', 'f']

def escape (c : Char) : List Char :=
  if c = '"' then ['\\', '"']
  else if c = '\\' then ['\\', '\\']
  else if c = '\n' then ['\\', 'n']
  else if c = '\r' then ['\\', 'r']
  else if c = '\t' then ['\\', 't']
  else if c.toNat = 8 then ['\\', 'b']
  else if c.toNat = 12 then ['\\', 'f']
  else if c.toNat < 32 then
    ['\\', 'u', '0', '0', Text.letter hexDigits (c.toNat / 16),
      Text.letter hexDigits (c.toNat % 16)]
  else [c]

def quote (s : String) : List Char := '"' :: s.toList.flatMap escape ++ ['"']

def printInteger (n : Int) : List Char :=
  if n < 0 then '-' :: Text.decimal n.natAbs else Text.decimal n.natAbs

/-- A positive decimal: positional from `1e-5` up to below `1e16`, with an exponent beyond. -/
def printDecimal (d : Binary64.Decimal) : List Char :=
  let ds := Text.decimal d.digits
  let count : Int := ds.length
  let point := count + d.exponent
  if 0 ≤ d.exponent ∧ point ≤ 16 then
    ds ++ List.replicate d.exponent.toNat '0' ++ ['.', '0']
  else if 0 < point ∧ point ≤ 16 then
    ds.take point.toNat ++ '.' :: ds.drop point.toNat
  else if -5 < point ∧ point ≤ 0 then
    '0' :: '.' :: List.replicate (-point).toNat '0' ++ ds
  else
    let power := printInteger (point - 1)
    match ds with
    | [c] => c :: 'e' :: power
    | c :: rest => c :: '.' :: rest ++ 'e' :: power
    | [] => []

def printReal (x : Binary64) : List Char :=
  (if x.negative then ['-'] else [])
    ++ if x.mantissa = 0 then ['0', '.', '0'] else printDecimal x.shortest

def printNumber : Number → List Char
  | .integer n => printInteger n
  | .real x => printReal x

mutual

def printChars : Json → List Char
  | .null => ['n', 'u', 'l', 'l']
  | .boolean true => ['t', 'r', 'u', 'e']
  | .boolean false => ['f', 'a', 'l', 's', 'e']
  | .number n => printNumber n
  | .string s => quote s
  | .array items => '[' :: printItems items ++ [']']
  | .object fields => '\x7b' :: printFields fields ++ ['\x7d']

def printItems : List Json → List Char
  | [] => []
  | item :: rest => printChars item ++ printMoreItems rest

def printMoreItems : List Json → List Char
  | [] => []
  | item :: rest => ',' :: printChars item ++ printMoreItems rest

def printFields : List (String × Json) → List Char
  | [] => []
  | field :: rest => printField field ++ printMoreFields rest

def printMoreFields : List (String × Json) → List Char
  | [] => []
  | field :: rest => ',' :: printField field ++ printMoreFields rest

def printField : String × Json → List Char
  | (key, value) => quote key ++ ':' :: printChars value

end

def compact (j : Json) : String := String.ofList j.printChars

end Warren.Json
