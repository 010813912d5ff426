import Warren.Json.Reader

/-!
# TOML strings

A basic string stands in double quotes and knows escapes, a literal string stands in single quotes
and does not. Both may span lines between three quotes; a line break right after the opening quotes
does not count.
-/

namespace Warren.Toml

/-- Whether a character may stand in a string or a comment: no control character besides the
tabulator. -/
def isPlain (c : Char) : Bool := c = '\t' || (32 ≤ c.toNat && c.toNat ≠ 127)

def newline? : List Char → Option (List Char)
  | '\n' :: rest => some rest
  | '\r' :: '\n' :: rest => some rest
  | _ => none

/-- The character with a code of so many hexadecimal digits, and the text after it. -/
def escapedCode? (count : Nat) (cs : List Char) : Option (Char × List Char) := do
  let ds := cs.take count
  if ds.length ≠ count then none
  let c ← Json.codePoint? (← Json.readHex? ds)
  some (c, cs.drop count)

def escape? : List Char → Option (Char × List Char)
  | 'b' :: rest => some ('\x08', rest)
  | 't' :: rest => some ('\t', rest)
  | 'n' :: rest => some ('\n', rest)
  | 'f' :: rest => some ('\x0c', rest)
  | 'r' :: rest => some ('\r', rest)
  | 'e' :: rest => some ('\x1b', rest)
  | '"' :: rest => some ('"', rest)
  | '\\' :: rest => some ('\\', rest)
  | 'x' :: rest => escapedCode? 2 rest
  | 'u' :: rest => escapedCode? 4 rest
  | 'U' :: rest => escapedCode? 8 rest
  | _ => none

/-- A basic string of one line up to its closing quote; `fuel` bounds its length. -/
def basic? : (fuel : Nat) → List Char → Option (List Char × List Char)
  | 0, _ => none
  | _, [] => none
  | _, '"' :: rest => some ([], rest)
  | fuel + 1, '\\' :: rest => do
    let (c, rest) ← escape? rest
    let (cs, rest) ← basic? fuel rest
    some (c :: cs, rest)
  | fuel + 1, c :: rest => do
    if !isPlain c then none
    let (cs, rest) ← basic? fuel rest
    some (c :: cs, rest)

/-- A literal string of one line up to its closing quote. -/
def literal? : List Char → Option (List Char × List Char)
  | [] => none
  | '\'' :: rest => some ([], rest)
  | c :: rest => do
    if !isPlain c then none
    let (cs, rest) ← literal? rest
    some (c :: cs, rest)

/-- The end of a string of several lines, if the text is at one. Up to two more quotes in front of
the closing ones belong to the string. -/
def closing? (quote : Char) (cs : List Char) : Option (List Char × List Char) :=
  let quotes := cs.takeWhile (· = quote)
  if quotes.length < 3 then none
  else
    let inside := min (quotes.length - 3) 2
    some (List.replicate inside quote, cs.drop (inside + 3))

def skipLines (cs : List Char) : List Char :=
  cs.dropWhile fun c => c = ' ' || c = '\t' || c = '\n' || c = '\r'

/-- The text after a backslash that ends its line, and after the blank text behind it. -/
def continued? (cs : List Char) : Option (List Char) :=
  (newline? (cs.dropWhile fun c => c = ' ' || c = '\t')).map skipLines

/-- The rest of a basic string of several lines; `fuel` bounds its length. -/
def basicLines? : (fuel : Nat) → List Char → Option (List Char × List Char)
  | 0, _ => none
  | fuel + 1, cs => match closing? '"' cs with
    | some ending => some ending
    | none => match cs with
      | [] => none
      | '\\' :: rest => match continued? rest with
        | some rest => basicLines? fuel rest
        | none => do
          let (c, rest) ← escape? rest
          let (cs, rest) ← basicLines? fuel rest
          some (c :: cs, rest)
      | c :: rest => do
        if !(isPlain c || (newline? cs).isSome || c = '\n') then none
        let (cs, rest) ← basicLines? fuel rest
        some (c :: cs, rest)

/-- The rest of a literal string of several lines; `fuel` bounds its length. -/
def literalLines? : (fuel : Nat) → List Char → Option (List Char × List Char)
  | 0, _ => none
  | fuel + 1, cs => match closing? '\'' cs with
    | some ending => some ending
    | none => match cs with
      | [] => none
      | c :: rest => do
        if !(isPlain c || (newline? cs).isSome || c = '\n') then none
        let (cs, rest) ← literalLines? fuel rest
        some (c :: cs, rest)

def dropNewline (cs : List Char) : List Char := (newline? cs).getD cs

def quoted? (cs : List Char) : Option (List Char × List Char) :=
  match cs with
  | '"' :: '"' :: '"' :: rest => basicLines? (rest.length + 1) (dropNewline rest)
  | '\'' :: '\'' :: '\'' :: rest => literalLines? (rest.length + 1) (dropNewline rest)
  | '"' :: rest => basic? (rest.length + 1) rest
  | '\'' :: rest => literal? rest
  | _ => none

end Warren.Toml
