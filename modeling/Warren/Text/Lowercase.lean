import Warren.Text.CaseTable

/-!
# Lower case

The lower case of a text, letter by letter. Two letters are special: a dotted capital I keeps its
dot as a character of its own, and a capital sigma at the end of a word has a form of its own.
-/

namespace Warren.Text

/-- The lower case of a letter, which depends on that letter alone. -/
def lowerChar (c : Char) : Char :=
  match lowerRanges.find? (·.holds c.toNat) with
  | some r => Char.ofNat (c.toNat + r.distance).toNat
  | none => c

def isCased (c : Char) : Bool := inRanges casedRanges c.toNat

/-- Whether a character is passed over where the case of a neighbour counts. -/
def isPassed (c : Char) : Bool := inRanges passedRanges c.toNat

def meetsCased (cs : List Char) : Bool :=
  match cs.dropWhile isPassed with
  | c :: _ => isCased c
  | [] => false

/-- The lower case of a text behind other characters, the last of which comes first. -/
def lowerFrom (before : List Char) : List Char → List Char
  | [] => []
  | c :: rest =>
    let lower :=
      if c = 'İ' then ['i', '\u0307']
      else if c = 'Σ' && meetsCased before && !meetsCased rest then ['ς']
      else [lowerChar c]
    lower ++ lowerFrom (c :: before) rest

def lower (s : String) : String := String.ofList (lowerFrom [] s.toList)

/-- The letters from A to Z change to those from a to z, and the other characters of their block
stay as they are. -/
theorem lowerChar_ofNat : ∀ n < 128, lowerChar (Char.ofNat n) = (Char.ofNat n).toLower := by
  decide +kernel

end Warren.Text
