import Warren.Json.Decode
import Warren.Text.Blank
import Warren.Text.Numeral

/-!
# Job identifiers

A job is named by a word of 64 bits. It is written in decimal, or as an `f` with base 58 digits
behind it; both forms are read, the latter also with the letter `ƒ` in front.
-/

namespace Warren

structure JobId where
  value : Nat
  bounded : value < UInt64.size
deriving DecidableEq, Repr

namespace JobId

@[ext] theorem ext {a b : JobId} (h : a.value = b.value) : a = b := by
  cases a
  cases b
  simp_all only

instance : LT JobId := ⟨fun a b => a.value < b.value⟩
instance : DecidableLT JobId := fun a b => inferInstanceAs (Decidable (a.value < b.value))

@[simp] theorem lt_def (a b : JobId) : a < b ↔ a.value < b.value := Iff.rfl

/-- The identifier with a value, if it fits. -/
def ofNat? (n : Nat) : Option JobId := if h : n < UInt64.size then some ⟨n, h⟩ else none

@[simp] theorem ofNat?_value (id : JobId) : ofNat? id.value = some id := by
  simp only [ofNat?, dif_pos id.bounded]

theorem ofNat?_eq_some {n : Nat} {id : JobId} : ofNat? n = some id ↔ id.value = n := by
  constructor
  · intro h
    simp only [ofNat?] at h
    split at h
    · cases h
      rfl
    · cases h
  · intro h
    subst h
    exact ofNat?_value id

/-- The digits of base 58: no zero, and none of the letters that look like another one. -/
def base58 : List Char :=
  "123456789ABCDEFGHJKLMNPQRSTUVWXYZabcdefghijkmnopqrstuvwxyz".toList

def decimal (id : JobId) : String := String.ofList (Text.decimal id.value)

def f58 (id : JobId) : String := String.ofList ('f' :: Text.write base58 id.value)

/-- The identifier that characters without white space around them stand for. -/
def ofChars? : List Char → Option JobId
  | 'f' :: ds => (Text.read? base58 ds).bind ofNat?
  | 'ƒ' :: ds => (Text.read? base58 ds).bind ofNat?
  | cs => (Text.readBelow? UInt64.size cs).bind ofNat?

/-- The identifier that a text stands for, white space around it aside. -/
def parse? (s : String) : Option JobId := ofChars? (Text.trimChars s.toList)

def invalidMessage (s : String) : String :=
  let shown := Text.trim s
  s!"Invalid job id '{shown}'"

/-- An identifier is a number or any text that stands for one. -/
def decode? : Decoder JobId
  | .string s => parse? s
  | j => (j.below? UInt64.size).bind ofNat?

def encode (id : JobId) : Json := .nat id.value

/-- The name of the workflow object of a job starts with this. -/
def namePrefix : String := "fluxjob-"

def workflowName (id : JobId) : String := namePrefix ++ id.decimal

end JobId

end Warren
