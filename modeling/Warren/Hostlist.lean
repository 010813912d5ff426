import Warren.Text.Blank
import Warren.Text.Numeral

/-!
# Host lists

A host list names hosts, with bracketed ranges for those that differ in a number only:
`rabbit[01-04,7],login1`. `expand?` reads a list into its hosts, `encode` writes hosts as a list.
Both format numbers, and both may crash.
-/

namespace Warren.Hostlist

def isHostChar (c : Char) : Bool :=
  Text.isDigit c || ('a' ≤ c && c ≤ 'z') || ('A' ≤ c && c ≤ 'Z') || c = '-' || c = '_' || c = '.'

/-- The numbers from `first` to `last`, written at least `width` digits wide. -/
structure Range where
  first : Nat
  last : Nat
  width : Nat
  /-- No range is decreasing, so there is a number in it. -/
  le : first ≤ last
deriving DecidableEq, Repr

inductive Entry where
  | plain (host : List Char)
  | ranged (before : List Char) (ranges : List Range) (after : List Char)
deriving DecidableEq, Repr

/-- The numerals of a range, in order. -/
def Range.numerals (r : Range) : Except Crash (List (List Char)) :=
  (List.range' r.first (r.last + 1 - r.first)).mapM (Text.padded r.width)

/-- The hosts of an entry, in order. -/
def Entry.hosts : Entry → Except Crash (List (List Char))
  | .plain host => .ok [host]
  | .ranged before ranges after => do
    let numerals ← ranges.mapM Range.numerals
    return numerals.flatten.map fun n => before ++ n ++ after

/-! ### Reading -/

/-- A bound of a range: digits that stand for a word of 64 bits. -/
def readBound? (ds : List Char) : Option Nat :=
  (Text.read? Text.decimalDigits ds).filter (· < UInt64.size)

/-- A range at the front, and the text after it. A range may not be decreasing. -/
def readRange? (cs : List Char) : Option (Range × List Char) := do
  let (ds, rest) := cs.span Text.isDigit
  let first ← readBound? ds
  let (last, rest) ← match rest with
    | '-' :: after => match after.span Text.isDigit with
      | ([], _) => some (first, rest)
      | (es, rest) => (readBound? es).map fun last => (last, rest)
    | rest => some (first, rest)
  if le : first ≤ last then some (⟨first, last, ds.length, le⟩, rest) else none

/-- Ranges up to the closing bracket; `fuel` is the number of characters that are left. -/
def readRanges? : (fuel : Nat) → List Char → Option (List Range × List Char)
  | 0, _ => none
  | fuel + 1, cs => do
    let (range, rest) ← readRange? cs
    match rest with
    | ',' :: rest =>
      let (ranges, rest) ← readRanges? fuel rest
      some (range :: ranges, rest)
    | ']' :: rest => some ([range], rest)
    | _ => none

def readEntry? (cs : List Char) : Option (Entry × List Char) :=
  let (before, rest) := cs.span isHostChar
  match rest with
  | '[' :: inner => do
    let (ranges, rest) ← readRanges? inner.length inner
    let (after, rest) := rest.span isHostChar
    some (.ranged before ranges after, rest)
  | rest => if before = [] then none else some (.plain before, rest)

def readEntries? : (fuel : Nat) → List Char → Option (List Entry)
  | 0, _ => none
  | fuel + 1, cs => do
    match ← readEntry? cs with
    | (entry, []) => some [entry]
    | (entry, ',' :: rest) => (readEntries? fuel rest).map (entry :: ·)
    | _ => none

/-- The entries of a list without white space around it. -/
def read? (cs : List Char) : Option (List Entry) :=
  if cs = [] then some [] else readEntries? cs.length cs

/-- The hosts of a list in order, repeated ones included. The list is read to its end before hosts
are written out. -/
def expand? (s : String) : Except Crash (Option (List String)) :=
  match read? (Text.trimChars s.toList) with
  | none => .ok none
  | some entries => do
    let hosts ← entries.mapM Entry.hosts
    return some (hosts.flatten.map String.ofList)

/-- The hosts of a list in order, each at its first place only. -/
def expandUnique? (s : String) : Except Crash (Option (List String)) :=
  (expand? s).map fun hosts => hosts.map List.eraseDups

theorem expand?_of_expandUnique? {s : String} {unique : List String}
    (h : expandUnique? s = .ok (some unique)) :
    ∃ hosts, expand? s = .ok (some hosts) ∧ hosts.eraseDups = unique := by
  unfold expandUnique? at h
  cases hexpand : expand? s with
  | error crash => simp [hexpand, Except.map] at h
  | ok hosts => simpa [hexpand, Except.map] using h

def invalidMessage (s : String) : String :=
  let shown := Text.trim s
  s!"Invalid hostlist '{shown}'"

/-! ### Writing -/

/-- A host as it enters an encoded list: a name, or a number of some width behind a name. -/
inductive Host where
  | plain (name : List Char)
  | numbered (before : List Char) (width : Nat) (number : UInt64)
deriving DecidableEq

/-- Splits the digits off the end of a host name, unless they exceed a word of 64 bits. -/
def Host.ofChars (cs : List Char) : Host :=
  let ds := (cs.reverse.takeWhile Text.isDigit).reverse
  match readBound? ds with
  | some n => .numbered (cs.take (cs.length - ds.length)) ds.length (UInt64.ofNat n)
  | none => .plain cs

/-- Hosts that stand together in an encoded list, the last number first. -/
inductive Segment where
  | plain (name : List Char)
  | group (before : List Char) (width : Nat) (numbers : List UInt64)

/-- The segments, the last one first, with one more host. -/
def addHost (segments : List Segment) : Host → List Segment
  | .plain name => .plain name :: segments
  | .numbered before width n =>
    match segments with
    | .group before' width' numbers :: rest =>
      if before' = before ∧ width' = width then .group before width (n :: numbers) :: rest
      else .group before width [n] :: segments
    | _ => .group before width [n] :: segments

/-- The ranges, the last one first, with one more number. The successor of the number before it is a
word, whatever the number is. -/
def addNumber (ranges : List (UInt64 × UInt64)) (n : UInt64) :
    Except Crash (List (UInt64 × UInt64)) :=
  match ranges with
  | [] => .ok [(n, n)]
  | (first, last) :: rest => do
    let next ← Crash.fit64 (last.toNat + 1)
    return if n = next then (first, n) :: rest else (n, n) :: ranges

def printRange (width : Nat) (range : UInt64 × UInt64) : Except Crash (List Char) := do
  let first ← Text.padded width range.1.toNat
  if range.1 = range.2 then return first
  let last ← Text.padded width range.2.toNat
  return first ++ '-' :: last

def joinCommas (parts : List (List Char)) : List Char := [','].intercalate parts

def Segment.print : Segment → Except Crash (List Char)
  | .plain name => .ok name
  | .group before width [n] => do
    let number ← Text.padded width n.toNat
    return before ++ number
  | .group before width numbers => do
    let ranges ← numbers.reverse.foldlM addNumber []
    let printed ← ranges.reverse.mapM (printRange width)
    return before ++ '[' :: joinCommas printed ++ [']']

def encodeChars (hosts : List (List Char)) : Except Crash (List Char) := do
  let segments := (hosts.map Host.ofChars).foldl addHost []
  let printed ← segments.reverse.mapM Segment.print
  return joinCommas printed

/-- The list of some hosts in order; neighbours that differ in a number only share a bracket. -/
def encode (hosts : List String) : Except Crash String := do
  return String.ofList (← encodeChars (hosts.map String.toList))

end Warren.Hostlist
