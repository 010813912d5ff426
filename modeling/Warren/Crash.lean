/-!
# Crashes

Arithmetic on words is checked. A number that does not fit its word stops the program, and so do a
division by zero and a numeral that is padded beyond what the formatter takes.
-/

namespace Warren

/-- What stops the program. -/
inductive Crash where
  | overflow
  | zeroDivisor
  /-- A numeral is to be padded to more digits than the formatter takes. -/
  | width
deriving DecidableEq, Repr

namespace Crash

def message : Crash → String
  | .overflow => "arithmetic operation with overflow"
  | .zeroDivisor => "division by zero"
  | .width => "formatting argument out of range"

/-- A number as a word of 64 bits. -/
def fit64 (n : Nat) : Except Crash UInt64 :=
  if n < UInt64.size then .ok (UInt64.ofNat n) else .error .overflow

/-- A number as a word of 32 bits. -/
def fit32 (n : Nat) : Except Crash UInt32 :=
  if n < UInt32.size then .ok (UInt32.ofNat n) else .error .overflow

variable {n : Nat}

theorem fit64_eq_ok_iff {w : UInt64} : fit64 n = .ok w ↔ w.toNat = n := by
  unfold fit64
  split
  · rename_i hfits
    rw [Except.ok.injEq]
    constructor
    · rintro rfl
      exact UInt64.toNat_ofNat_of_lt' hfits
    · rintro rfl
      exact UInt64.ofNat_toNat
  · rename_i hlarge
    exact iff_of_false nofun fun h => hlarge (h ▸ w.toNat_lt)

theorem fit32_eq_ok_iff {w : UInt32} : fit32 n = .ok w ↔ w.toNat = n := by
  unfold fit32
  split
  · rename_i hfits
    rw [Except.ok.injEq]
    constructor
    · rintro rfl
      exact UInt32.toNat_ofNat_of_lt' hfits
    · rintro rfl
      exact UInt32.ofNat_toNat
  · rename_i hlarge
    exact iff_of_false nofun fun h => hlarge (h ▸ w.toNat_lt)

theorem fit64_eq_error_iff {c : Crash} : fit64 n = .error c ↔ c = .overflow ∧ UInt64.size ≤ n := by
  unfold fit64
  split <;> simp_all [eq_comm]

theorem fit32_eq_error_iff {c : Crash} : fit32 n = .error c ↔ c = .overflow ∧ UInt32.size ≤ n := by
  unfold fit32
  split <;> simp_all [eq_comm]

theorem fit64_of_lt (h : n < UInt64.size) : fit64 n = .ok (UInt64.ofNat n) := if_pos h

theorem fit32_of_lt (h : n < UInt32.size) : fit32 n = .ok (UInt32.ofNat n) := if_pos h

theorem fit64_of_le (h : UInt64.size ≤ n) : fit64 n = .error .overflow :=
  fit64_eq_error_iff.mpr ⟨rfl, h⟩

theorem fit32_of_le (h : UInt32.size ≤ n) : fit32 n = .error .overflow :=
  fit32_eq_error_iff.mpr ⟨rfl, h⟩

end Crash

/-- Why there is no result: a fault that is reported, or a crash. -/
inductive Failure (ε : Type) where
  | fault (fault : ε)
  | crash (crash : Crash)
deriving DecidableEq, Repr

namespace Failure

variable {ε α : Type} {a : α}

/-- Work that may end in a fault and does not crash. -/
def ofFault (outcome : Except ε α) : Except (Failure ε) α := outcome.mapError .fault

/-- Work that may crash and has no fault to report. -/
def ofCrash (outcome : Except Crash α) : Except (Failure ε) α := outcome.mapError .crash

@[simp] theorem ofFault_ok (a : α) : ofFault (.ok a : Except ε α) = .ok a := rfl

@[simp] theorem ofFault_error (e : ε) :
    ofFault (.error e : Except ε α) = .error (.fault e) := rfl

@[simp] theorem ofCrash_ok (a : α) : (ofCrash (.ok a) : Except (Failure ε) α) = .ok a := rfl

@[simp] theorem ofCrash_error (crash : Crash) :
    (ofCrash (.error crash) : Except (Failure ε) α) = .error (.crash crash) := rfl

theorem ofCrash_bind {β : Type} (outcome : Except Crash α) (f : α → Except Crash β) :
    (ofCrash (outcome >>= f) : Except (Failure ε) β) =
      ofCrash outcome >>= fun a => ofCrash (f a) := by
  cases outcome <;> rfl

theorem ofFault_ne_crash (outcome : Except ε α) (crash : Crash) :
    ofFault outcome ≠ .error (.crash crash) := by
  cases outcome <;> simp

@[simp] theorem ofFault_eq_ok_iff {outcome : Except ε α} :
    ofFault outcome = .ok a ↔ outcome = .ok a := by
  cases outcome <;> simp

@[simp] theorem ofCrash_eq_ok_iff {outcome : Except Crash α} :
    (ofCrash outcome : Except (Failure ε) α) = .ok a ↔ outcome = .ok a := by
  cases outcome <;> simp

end Failure

end Warren
