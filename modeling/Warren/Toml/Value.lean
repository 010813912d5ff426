import Warren.Binary64.Extended
import Warren.Dict

/-!
# TOML values

A table is a dictionary. A date or a time is kept as its text.
-/

namespace Warren.Toml

inductive Value where
  | boolean (value : Bool)
  | integer (value : Int)
  | float (value : Extended)
  | string (value : String)
  | moment (text : String)
  | array (items : List Value)
  | table (entries : List (String × Value))
deriving Repr, Inhabited

abbrev Entries := Dict String Value

namespace Value

/-- The key under which a date or a time stands where a table is expected. -/
def momentKey : String := "$__toml_private_datetime"

/-- The entries of a table; a date or a time is a table with one entry. -/
def entries? : Value → Option Entries
  | .table entries => some entries
  | .moment text => some [(momentKey, .string text)]
  | _ => none

def string? : Value → Option String
  | .string s => some s
  | _ => none

def boolean? : Value → Option Bool
  | .boolean b => some b
  | _ => none

def below? (bound : Nat) : Value → Option Nat
  | .integer n => if 0 ≤ n ∧ n < bound then some n.toNat else none
  | _ => none

def wordStart : Int := -0x8000000000000000

/-- The end of the integers with a sign and 64 bits. -/
def wordEnd : Int := 0x8000000000000000

def longStart : Int := -0x80000000000000000000000000000000

/-- The end of the integers without a sign and with 128 bits. -/
def longEnd : Int := 0x100000000000000000000000000000000

mutual

/-- Whether all integers in a value are in a range. -/
def integersWithin (low high : Int) : Value → Bool
  | .integer n => low ≤ n && n < high
  | .array items => itemsWithin low high items
  | .table entries => entriesWithin low high entries
  | _ => true

def itemsWithin (low high : Int) : List Value → Bool
  | [] => true
  | item :: rest => integersWithin low high item && itemsWithin low high rest

def entriesWithin (low high : Int) : List (String × Value) → Bool
  | [] => true
  | entry :: rest => entryWithin low high entry && entriesWithin low high rest

def entryWithin (low high : Int) : String × Value → Bool
  | (_, value) => integersWithin low high value

end

end Value

end Warren.Toml
