import Warren.Binary64

/-!
# Shortest decimals

The decimal with the fewest digits that reads back as a given double; among those with that many
digits it is the nearest to the double.
-/

namespace Warren.Binary64

/-- A positive decimal `digits * 10 ^ exponent`. -/
structure Decimal where
  digits : Nat
  exponent : Int
deriving DecidableEq, Repr

/-- The reals that round to a double, as numerators over `den`; the ends count when `closed`. -/
structure Interval where
  low : Nat
  value : Nat
  high : Nat
  den : Nat
  closed : Bool

def interval (x : Binary64) : Interval :=
  let m := x.mantissa
  let narrow := m = 0x10000000000000 ∧ minExponent < x.exponent
  let (unit, den) := scaled 1 (x.exponent - 2)
  { low := (if narrow then 4 * m - 1 else 4 * m - 2) * unit
    value := 4 * m * unit
    high := (4 * m + 2) * unit
    den := den
    closed := m % 2 = 0 }

namespace Interval

/-- Whether `num / den'` lies in the interval. -/
def contains (i : Interval) (num den' : Nat) : Bool :=
  let n := num * i.den
  let low := i.low * den'
  let high := i.high * den'
  if i.closed then low ≤ n && n ≤ high else low < n && n < high

/-- The decimal of the grid `10 ^ exponent` that lies in the interval, the nearer to the value of
the two beside it. -/
def onGrid? (i : Interval) (exponent : Int) : Option Decimal :=
  let (up, down) : Nat × Nat :=
    if 0 ≤ exponent then (Nat.pow 10 exponent.toNat, 1) else (1, Nat.pow 10 (-exponent).toNat)
  let below := (i.value * down) / (i.den * up)
  let gapBelow := i.value * down - below * (i.den * up)
  let gapAbove := (below + 1) * (i.den * up) - i.value * down
  let okBelow := below ≠ 0 ∧ i.contains (below * up) down
  let okAbove := i.contains ((below + 1) * up) down
  if okBelow ∧ (¬ okAbove ∨ gapBelow < gapAbove ∨ (gapBelow = gapAbove ∧ below % 2 = 0)) then
    some ⟨below, exponent⟩
  else if okAbove then some ⟨below + 1, exponent⟩
  else none

end Interval

/-- One more than the exponent of the leading decimal digit of a positive fraction. -/
def decimalOrder (num den : Nat) : Int :=
  ((Text.digits 10 (num * Nat.pow 10 400 / den)).length : Int) - 400

def Decimal.normalize : Nat → Decimal → Decimal
  | 0, d => d
  | fuel + 1, d =>
    if d.digits ≠ 0 ∧ d.digits % 10 = 0 then normalize fuel ⟨d.digits / 10, d.exponent + 1⟩ else d

def shortest (x : Binary64) : Decimal :=
  let i := x.interval
  let order := decimalOrder i.value i.den
  let found := (List.range 17).findSome? fun n : Nat => i.onGrid? (order - (n + 1 : Nat))
  (found.getD ⟨0, 0⟩).normalize 20

end Warren.Binary64
