import Warren.Crash

/-!
# Positional numerals

Numbers written with the letters of an alphabet, the most significant digit first. `write` prints
the shortest numeral, `read?` takes any numeral over the alphabet, leading zero digits included.
-/

namespace Warren.Text

/-- The digits of a number in a base above one, the most significant first. -/
def digits (base n : Nat) : List Nat :=
  go (n + 1) n []
where
  /-- Digits of `n` in front of `low`; `fuel` above `n` is enough. -/
  go : Nat → Nat → List Nat → List Nat
    | 0, _, low => low
    | fuel + 1, n, low => if n < base then n :: low else go fuel (n / base) (n % base :: low)

def ofDigits (base : Nat) (ds : List Nat) : Nat := ds.foldl (fun n d => n * base + d) 0

theorem ofDigits_append_singleton (base : Nat) (ds : List Nat) (d : Nat) :
    ofDigits base (ds ++ [d]) = ofDigits base ds * base + d := by
  simp only [ofDigits, List.foldl_append, List.foldl_cons, List.foldl_nil]

theorem foldl_digits_go {base : Nat} (hb : 2 ≤ base) (fuel n : Nat) (hn : n < fuel)
    (low : List Nat) :
    (digits.go base fuel n low).foldl (fun n d => n * base + d) 0
      = low.foldl (fun n d => n * base + d) n := by
  induction fuel generalizing n low with
  | zero => omega
  | succ fuel ih =>
    simp only [digits.go]
    by_cases h : n < base
    · simp only [if_pos h, List.foldl_cons, Nat.zero_mul, Nat.zero_add]
    · have hlt : n / base < n := Nat.div_lt_self (by omega) (by omega)
      simp only [if_neg h]
      rw [ih (n / base) (by omega) (n % base :: low), List.foldl_cons, Nat.div_add_mod']

@[simp] theorem ofDigits_digits {base : Nat} (hb : 2 ≤ base) (n : Nat) :
    ofDigits base (digits base n) = n := by
  simp only [ofDigits, digits, foldl_digits_go hb (n + 1) n (by omega) [], List.foldl_nil]

def letter (alphabet : List Char) (d : Nat) : Char := (alphabet[d]?).getD ' '

def write (alphabet : List Char) (n : Nat) : List Char :=
  (digits alphabet.length n).map (letter alphabet)

/-- The number that a numeral stands for; there is at least one digit, and every character is a
letter of the alphabet. -/
def read? (alphabet cs : List Char) : Option Nat :=
  if cs.isEmpty then none
  else (cs.mapM (fun c => alphabet.idxOf? c)).map (ofDigits alphabet.length)

def decimalDigits : List Char := ['0', '1', '2', '3', '4', '5', '6', '7', '8', '9']

def decimal (n : Nat) : List Char := write decimalDigits n

/-- A decimal numeral with zeros in front up to a width. -/
def filled (width n : Nat) : List Char :=
  List.replicate (width - (decimal n).length) '0' ++ decimal n

/-- The largest width that the formatter takes where the width is not known before. -/
def widest : Nat := 65535

/-- A decimal numeral as the formatter fills it up. -/
def padded (width n : Nat) : Except Crash (List Char) :=
  if width ≤ widest then .ok (filled width n) else .error .width

def isDigit (c : Char) : Bool := '0' ≤ c && c ≤ '9'

/-- A number below a bound, written in decimal with an optional plus sign. -/
def readBelow? (bound : Nat) (cs : List Char) : Option Nat :=
  let ds := match cs with
    | '+' :: rest => rest
    | cs => cs
  (read? decimalDigits ds).filter (· < bound)

end Warren.Text
