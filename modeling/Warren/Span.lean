import Warren.Binary64.Extended

/-!
# Spans of time

A span counts nanoseconds. The clock of the service is a span as well: the time since it started.
Spans of the configuration end at `Span.max`, and products with a factor stop there.
-/

namespace Warren

/-- A length of time in nanoseconds. -/
structure Span where
  nanos : Nat
deriving DecidableEq, Repr, Inhabited

namespace Span

def zero : Span := ⟨0⟩

/-- The longest span: `2 ^ 64 - 1` whole seconds and a fraction of `10 ^ 9 - 1` nanoseconds. -/
def max : Span := ⟨UInt64.size * 1000000000 - 1⟩

def seconds (n : Nat) : Span := ⟨n * 1000000000⟩

def millis (n : Nat) : Span := ⟨n * 1000000⟩

instance : LE Span := ⟨fun a b => a.nanos ≤ b.nanos⟩
instance : LT Span := ⟨fun a b => a.nanos < b.nanos⟩
instance : DecidableLE Span := fun a b => inferInstanceAs (Decidable (a.nanos ≤ b.nanos))
instance : DecidableLT Span := fun a b => inferInstanceAs (Decidable (a.nanos < b.nanos))
instance : Add Span := ⟨fun a b => ⟨a.nanos + b.nanos⟩⟩

@[simp] theorem le_def (a b : Span) : a ≤ b ↔ a.nanos ≤ b.nanos := Iff.rfl
@[simp] theorem lt_def (a b : Span) : a < b ↔ a.nanos < b.nanos := Iff.rfl
@[simp] theorem nanos_add (a b : Span) : (a + b).nanos = a.nanos + b.nanos := rfl

def shorter (a b : Span) : Span := if a ≤ b then a else b

def longer (a b : Span) : Span := if a ≤ b then b else a

/-- The time from an earlier instant to a later one, none if they are the other way round. -/
def since (later earlier : Span) : Span := ⟨later.nanos - earlier.nanos⟩

def half (s : Span) : Span := ⟨s.nanos / 2⟩

/-- A multiple that stops at the longest span. -/
def times (s : Span) (factor : Nat) : Span := shorter ⟨s.nanos * factor⟩ max

theorem nanos_shorter (a b : Span) : (shorter a b).nanos = min a.nanos b.nanos := by
  simp only [shorter, le_def]
  split <;> omega

theorem nanos_longer (a b : Span) : (longer a b).nanos = Nat.max a.nanos b.nanos := by
  simp only [longer, le_def, Nat.max_def]
  split <;> rfl

/-- Why a number of seconds is no span. -/
inductive Fault where
  | negative
  | tooLong
deriving DecidableEq, Repr

def Fault.message : Fault → String
  | .negative => "cannot convert float seconds to Duration: value is negative"
  | .tooLong => "cannot convert float seconds to Duration: value is either too big or NaN"

def ofSeconds : Extended → Except Fault Span
  | .finite x =>
    if x.negative && x.mantissa != 0 then .error .negative
    else
      let s : Span := ⟨x.nanoseconds⟩
      if s ≤ max then .ok s else .error .tooLong
  | .infinite true => .error .negative
  | .infinite false | .nan => .error .tooLong

end Span

end Warren
