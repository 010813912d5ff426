import Warren.Span

/-!
# Backoff

The delay before the next attempt doubles with every failure in a row, from the base up to the
cap; a success starts over. The factor of the base is a word of 32 bits and stays at its largest
value from the thirty-third failure on.
-/

namespace Warren

/-- A retry ladder with its number of failures in a row. -/
structure Backoff where
  base : Span
  cap : Span
  failures : Nat
deriving DecidableEq, Repr

namespace Backoff

/-- The largest number of failures that is counted. -/
def failureLimit : Nat := UInt32.size - 1

/-- A ladder without failures; the cap is never below the base. -/
def start (base cap : Span) : Backoff := ⟨base, cap.longer base, 0⟩

/-- The multiple of the base that belongs to a number of failures above zero. -/
def factor (failures : Nat) : Nat :=
  if failures - 1 < 32 then Nat.pow 2 (failures - 1) else UInt32.size - 1

/-- The delay that belongs to the failures counted so far. -/
def delay (b : Backoff) : Span :=
  if b.failures = 0 then .zero else (b.base.times (factor b.failures)).shorter b.cap

def fail (b : Backoff) : Backoff := { b with failures := min (b.failures + 1) failureLimit }

def reset (b : Backoff) : Backoff := { b with failures := 0 }

end Backoff

end Warren
