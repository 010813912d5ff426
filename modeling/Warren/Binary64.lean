import Warren.Text.Numeral

/-!
# Double precision numbers

A finite double is a sign, a mantissa below `2 ^ 53` and a binary exponent; all arithmetic on it
is exact arithmetic on naturals followed by one rounding to nearest, ties to even.
-/

namespace Warren

/-- The quotient of two naturals rounded to the nearest integer, a tie to the even one. -/
def roundHalfEven (num den : Nat) : Nat :=
  let q := num / den
  let r := num % den
  if 2 * r < den then q
  else if den < 2 * r then q + 1
  else q + q % 2

/-- A finite double: the sign times `mantissa * 2 ^ exponent`. -/
structure Binary64 where
  negative : Bool
  mantissa : Nat
  exponent : Int
deriving DecidableEq, Repr

namespace Binary64

/-- The exponent of subnormal numbers, the least one. -/
def minExponent : Int := -1074

def maxExponent : Int := 971

def zero (negative : Bool) : Binary64 := ⟨negative, 0, minExponent⟩

/-- `n * 2 ^ e` as a fraction. -/
def scaled (n : Nat) (e : Int) : Nat × Nat :=
  if 0 ≤ e then (n * Nat.pow 2 e.toNat, 1) else (n, Nat.pow 2 (-e).toNat)

def fraction (x : Binary64) : Nat × Nat := scaled x.mantissa x.exponent

/-- The largest `k` with `den * 2 ^ k ≤ num`, for positive numbers. -/
def binaryOrder (num den : Nat) : Int :=
  let k : Int := (num.log2 : Int) - (den.log2 : Int)
  let fits := if 0 ≤ k then den * Nat.pow 2 k.toNat ≤ num
    else den ≤ num * Nat.pow 2 (-k).toNat
  if fits then k else k - 1

/-- The double nearest to a fraction, or `none` where that is infinite. -/
def nearest? (negative : Bool) (num den : Nat) : Option Binary64 :=
  if num = 0 then some (zero negative)
  else
    let e := max (binaryOrder num den - 52) minExponent
    let m := if 0 ≤ e then roundHalfEven num (den * Nat.pow 2 e.toNat)
      else roundHalfEven (num * Nat.pow 2 (-e).toNat) den
    let (m, e) := if m = 0x20000000000000 then (0x10000000000000, e + 1) else (m, e)
    if maxExponent < e then none else some ⟨negative, m, e⟩

/-- The double nearest to `digits * 10 ^ exponent`, or `none` where that is infinite. -/
def ofDecimal? (negative : Bool) (digits : Nat) (exponent : Int) : Option Binary64 :=
  let order := (Text.digits 10 digits).length + exponent
  if digits = 0 ∨ order < -400 then some (zero negative)
  else if 400 < order then none
  else if 0 ≤ exponent then nearest? negative (digits * Nat.pow 10 exponent.toNat) 1
  else nearest? negative digits (Nat.pow 10 (-exponent).toNat)

/-- The number of nanoseconds nearest to a number of seconds, ties to even. -/
def nanoseconds (x : Binary64) : Nat :=
  let (num, den) := x.fraction
  roundHalfEven (num * 1000000000) den

end Binary64

end Warren
