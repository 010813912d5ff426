import Warren.Toml.Node
import Warren.Toml.Quoted
import Warren.Toml.Scalar

/-!
# TOML documents

A document is a list of lines: values under their keys, and headers that say to which table the
values below belong. Inline tables may span lines and end with a comma.
-/

namespace Warren.Toml

/-! ### Between the tokens -/

def skipBlanks (cs : List Char) : List Char := cs.dropWhile fun c => c = ' ' || c = '\t'

/-- The text after blanks and a comment, if there is one. -/
def skipComment (cs : List Char) : List Char :=
  match skipBlanks cs with
  | '#' :: rest => rest.dropWhile isPlain
  | cs => cs

/-- The text after blanks, comments and line breaks; `fuel` bounds the number of lines. -/
def skipTrivia : (fuel : Nat) → List Char → List Char
  | 0, cs => cs
  | fuel + 1, cs =>
    let cs := skipComment cs
    match newline? cs with
    | some rest => skipTrivia fuel rest
    | none => cs

/-- The text after blanks, comments and line breaks. -/
def skipAll (cs : List Char) : List Char := skipTrivia cs.length cs

/-- The text after the end of a line: a line break or the end of the document. -/
def lineEnd? (cs : List Char) : Option (List Char) :=
  match skipComment cs with
  | [] => some []
  | cs => newline? cs

/-! ### Keys -/

/-- Whether a character may stand in a key without quotes. -/
def isBare (c : Char) : Bool := c.isAlphanum || c = '_' || c = '-'

def simpleKey? (cs : List Char) : Option (String × List Char) :=
  match cs with
  | '"' :: '"' :: '"' :: _ => none
  | '\'' :: '\'' :: '\'' :: _ => none
  | '"' :: _ => (quoted? cs).map fun (key, rest) => (String.ofList key, rest)
  | '\'' :: _ => (quoted? cs).map fun (key, rest) => (String.ofList key, rest)
  | cs => match cs.span isBare with
    | ([], _) => none
    | (key, rest) => some (String.ofList key, rest)

/-- Keys with points between them, of which the last one comes apart; `fuel` bounds their number. -/
def dottedKey? : (fuel : Nat) → List Char → Option (List String × String × List Char)
  | 0, _ => none
  | fuel + 1, cs => do
    let (key, rest) ← simpleKey? (skipBlanks cs)
    match skipBlanks rest with
    | '.' :: rest =>
      let (path, last, rest) ← dottedKey? fuel rest
      some (key :: path, last, rest)
    | rest => some ([], key, rest)

/-- A key at the front: the path to its table, the key itself and the text after it. -/
def key? (cs : List Char) : Option (List String × String × List Char) := dottedKey? cs.length cs

/-! ### Values -/

def endsWord (c : Char) : Bool :=
  [' ', '\t', '\n', '\r', ',', ']', '\x7d', '#', '=', '[', '\x7b', '"', '\''].contains c

/-- The rest of a date at the front of a word: a blank may stand between a date and a time. -/
def timeAfter (word rest : List Char) : List Char × List Char :=
  match skipDate? word, rest with
  | some [], ' ' :: c :: rest =>
    if Text.isDigit c then
      let (more, rest) := (c :: rest).span fun c => !endsWord c
      (word ++ ' ' :: more, rest)
    else (word, ' ' :: c :: rest)
  | _, rest => (word, rest)

def scalar? (cs : List Char) : Option (Value × List Char) :=
  let (word, rest) := cs.span fun c => !endsWord c
  let (word, rest) := timeAfter word rest
  (word? word).map fun value => (value, rest)

def nestingLimit : Nat := 80

mutual

/-- A value at the front, and the text after it; arrays and inline tables may be nested in it up to
`depth`. -/
def value? : (fuel depth : Nat) → List Char → Option (Value × List Char)
  | 0, _, _ => none
  | fuel + 1, depth, cs => match cs, depth with
    | '[' :: _, 0 => none
    | '\x7b' :: _, 0 => none
    | '[' :: rest, depth + 1 => match skipAll rest with
      | ']' :: rest => some (.array [], rest)
      | rest => (items? fuel depth rest).map fun (items, rest) => (.array items, rest)
    | '\x7b' :: rest, depth + 1 => match skipAll rest with
      | '\x7d' :: rest => some (.table [], rest)
      | rest => (fields? fuel depth [] rest).map fun (nodes, rest) =>
        (.table (Node.toEntries nodes), rest)
    | c :: _, _ =>
      if c = '"' ∨ c = '\'' then
        (quoted? cs).map fun (s, rest) => (.string (String.ofList s), rest)
      else scalar? cs
    | [], _ => none

/-- The items of an array up to its closing bracket. -/
def items? : (fuel depth : Nat) → List Char → Option (List Value × List Char)
  | 0, _, _ => none
  | fuel + 1, depth, cs => do
    let (item, rest) ← value? fuel depth cs
    match skipAll rest with
    | ']' :: rest => some ([item], rest)
    | ',' :: rest => match skipAll rest with
      | ']' :: rest => some ([item], rest)
      | rest =>
        let (items, rest) ← items? fuel depth rest
        some (item :: items, rest)
    | _ => none

/-- The fields of an inline table up to its closing brace. -/
def fields? : (fuel depth : Nat) → Node.Nodes → List Char → Option (Node.Nodes × List Char)
  | 0, _, _, _ => none
  | fuel + 1, depth, nodes, cs => do
    let (path, key, rest) ← key? cs
    let rest ← after? '=' rest
    let (value, rest) ← value? fuel depth (skipBlanks rest)
    let nodes ← Node.addValue path key value .header nodes
    match skipAll rest with
    | '\x7d' :: rest => some (nodes, rest)
    | ',' :: rest => match skipAll rest with
      | '\x7d' :: rest => some (nodes, rest)
      | rest => fields? fuel depth nodes rest
    | _ => none

end

/-! ### Lines -/

/-- A document that is read up to some line. -/
structure Draft where
  nodes : Node.Nodes
  /-- The path of the last header. -/
  current : List String

def Draft.empty : Draft := ⟨[], []⟩

/-- The key of a header up to its closing brackets. -/
def header? (closing : List Char) (cs : List Char) : Option (List String × String × List Char) := do
  let (path, key, rest) ← key? cs
  if closing.isPrefixOf rest then some (path, key, rest.drop closing.length) else none

def Draft.enter (d : Draft) (change : String → Node.Change) (path : List String) (key : String) :
    Option Draft := do
  let nodes ← Node.along .toHeader (change key) path .header d.nodes
  some ⟨nodes, path ++ [key]⟩

def Draft.assign (d : Draft) (path : List String) (key : String) (value : Value) :
    Option Draft := do
  let nodes ← Node.along .back (Node.addValue path key value) d.current .header d.nodes
  some { d with nodes }

/-- A line that is not empty, and the text after it up to the line break. -/
def line? (d : Draft) (cs : List Char) : Option (Draft × List Char) :=
  match cs with
  | '[' :: '[' :: rest => do
    let (path, key, rest) ← header? [']', ']'] rest
    some (← d.enter Node.openNext path key, rest)
  | '[' :: rest => do
    let (path, key, rest) ← header? [']'] rest
    some (← d.enter Node.openTable path key, rest)
  | cs => do
    let (path, key, rest) ← key? cs
    let rest ← after? '=' rest
    let (value, rest) ← value? (2 * rest.length + 2) nestingLimit (skipBlanks rest)
    some (← d.assign path key value, rest)

/-- The lines of a document; `fuel` bounds their number. -/
def lines? : (fuel : Nat) → Draft → List Char → Option Draft
  | 0, _, _ => none
  | fuel + 1, d, cs => match skipAll cs with
    | [] => some d
    | cs => do
      let (d, rest) ← line? d cs
      lines? fuel d (← lineEnd? rest)

/-- The table of a document. A mark of the byte order at the front does not count. -/
def parse? (s : String) : Option Entries :=
  let cs := match s.toList with
    | '\ufeff' :: rest => rest
    | cs => cs
  (lines? (cs.length + 1) .empty cs).map fun d => Node.toEntries d.nodes

end Warren.Toml
