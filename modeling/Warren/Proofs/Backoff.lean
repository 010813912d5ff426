import Mathlib.Logic.Function.Iterate
import Warren.Backoff

/-!
# The climb of a ladder

After `n` failures in a row the exact delay is the base doubled `n - 1` times, up to the cap. The
factor of the base is a word, so the climb ends at its largest value: `delays_iff` says that the
delays are exact up to the thirty-second failure, and beyond it exactly if the largest multiple of
the base covers the cap (`Covers`).
-/

namespace Warren.Backoff

inductive Attempt where
  | failed
  | succeeded
deriving DecidableEq, Repr

def after (b : Backoff) : Attempt → Backoff
  | .failed => b.fail
  | .succeeded => b.reset

/-- The ladder after some attempts, the first one first. -/
def run (b : Backoff) (past : List Attempt) : Backoff := past.foldl after b

/-- The number of failures since the last success. -/
def streak (past : List Attempt) : Nat := (past.reverse.takeWhile (· = .failed)).length

/-- What the delays never exceed: the cap, which is not below the base, and the longest span. -/
def ceiling (base cap : Span) : Nat := min (Nat.max cap.nanos base.nanos) Span.max.nanos

/-- The delay after a number of failures in a row, doubled without a bound on the factor. -/
def exact (base cap : Span) (n : Nat) : Nat :=
  min (base.nanos * Nat.pow 2 (n - 1)) (ceiling base cap)

/-- The multiples of the base go up to the ceiling. -/
def Covers (base cap : Span) : Prop :=
  base.nanos = 0 ∨ ceiling base cap ≤ base.nanos * (UInt32.size - 1)

instance (base cap : Span) : Decidable (Covers base cap) :=
  inferInstanceAs (Decidable (base.nanos = 0 ∨ ceiling base cap ≤ base.nanos * (UInt32.size - 1)))

theorem streak_concat (past : List Attempt) (a : Attempt) :
    streak (past ++ [a]) = if a = .failed then streak past + 1 else 0 := by
  cases a <;> simp [streak]

theorem streak_replicate (n : Nat) : streak (List.replicate n .failed) = n := by
  induction n with
  | zero => rfl
  | succ n ih => rw [List.replicate_succ', streak_concat, if_pos rfl, ih]

/-- A ladder counts the failures in a row, and nothing else changes in it. -/
theorem run_start (base cap : Span) (past : List Attempt) :
    (start base cap).run past = ⟨base, cap.longer base, min (streak past) failureLimit⟩ := by
  rw [run, ← List.foldr_reverse, streak]
  -- the induction goes back from the last attempt, as a success ends the count
  generalize past.reverse = recent
  induction recent with
  | nil => rfl
  | cons last rest ih =>
    rw [List.foldr_cons, ih]
    cases last with
    | failed =>
      simp only [after, fail, List.takeWhile_cons, decide_true, if_true, List.length_cons,
        Backoff.mk.injEq, true_and]
      omega
    | succeeded => rfl

/-! ### The factor -/

theorem factor_of_le {n : Nat} (h : n ≤ 32) : factor n = Nat.pow 2 (n - 1) := by
  rw [factor, if_pos (by omega)]

theorem factor_of_lt {n : Nat} (h : 32 < n) : factor n = UInt32.size - 1 := by
  rw [factor, if_neg (by omega)]

theorem two_pow_le {m n : Nat} (h : m ≤ n) : Nat.pow 2 m ≤ Nat.pow 2 n :=
  Nat.pow_le_pow_right (by decide) h

theorem factor_le (n : Nat) : factor n ≤ UInt32.size - 1 := by
  by_cases h : n ≤ 32
  · have hle : Nat.pow 2 (n - 1) ≤ Nat.pow 2 31 := two_pow_le (by omega)
    have hword : Nat.pow 2 31 ≤ UInt32.size - 1 := by decide
    rw [factor_of_le h]
    omega
  · exact Nat.le_of_eq (factor_of_lt (by omega))

theorem factor_succ {n : Nat} (hpos : 0 < n) (h : n < 32) : factor (n + 1) = factor n * 2 := by
  obtain ⟨m, rfl⟩ : ∃ m, n = m + 1 := ⟨n - 1, by omega⟩
  rw [factor_of_le (by omega), factor_of_le (by omega)]
  exact Nat.pow_succ ..

theorem size_le_factor {n : Nat} (h : 32 ≤ n) : UInt32.size ≤ factor n * 2 := by
  by_cases hn : n = 32
  · rw [hn]
    decide
  · rw [factor_of_lt (by omega)]
    decide

theorem factor_le_succ {n : Nat} (hpos : 0 < n) : factor n ≤ factor (n + 1) := by
  by_cases h : n < 32
  · have hsucc := factor_succ hpos h
    omega
  · have hle := factor_le n
    rw [factor_of_lt (by omega : 32 < n + 1)]
    exact hle

theorem factor_min (n : Nat) : factor (min n failureLimit) = factor n := by
  have hlimit : 32 < failureLimit := by decide
  by_cases h : n ≤ failureLimit
  · rw [Nat.min_eq_left h]
  · rw [Nat.min_eq_right (by omega), factor_of_lt hlimit, factor_of_lt (by omega)]

theorem nanos_delay (b : Backoff) (h : 0 < b.failures) : b.delay.nanos =
    min (min (b.base.nanos * factor b.failures) Span.max.nanos) b.cap.nanos := by
  rw [delay, if_neg (by omega), Span.nanos_shorter, Span.times, Span.nanos_shorter]

/-- Of two multiples that are cut off at the same bound, where the second one is larger by the base
at least, both are the same exactly if the first one reaches the bound. -/
theorem cut_eq_iff {base first second bound : Nat} (h : first + base ≤ second)
    (hzero : base = 0 → second = 0) :
    min first bound = min second bound ↔ base = 0 ∨ bound ≤ first := by
  by_cases hbase : base = 0
  · have hsecond := hzero hbase
    omega
  · omega

theorem min_mul_two_cut (n bound : Nat) : min (min n bound * 2) bound = min (n * 2) bound := by
  omega

section

variable (base cap : Span) (past : List Attempt)

theorem nanos_delay_run (h : 0 < streak past) : ((start base cap).run past).delay.nanos =
    min (base.nanos * factor (streak past)) (ceiling base cap) := by
  have hlimit : 0 < failureLimit := by decide
  have hpos : 0 < min (streak past) failureLimit := by omega
  rw [run_start, nanos_delay _ hpos]
  simp only [factor_min, Span.nanos_longer, ceiling]
  omega

omit past in
theorem run_replicate (n : Nat) :
    (start base cap).run (List.replicate n .failed) = fail^[n] (start base cap) := by
  induction n with
  | zero => rfl
  | succ n ih =>
    rw [Function.iterate_succ_apply', ← ih, List.replicate_succ', run, List.foldl_append]
    rfl

omit past in
theorem nanos_delay_iterate {n : Nat} (h : 0 < n) :
    (fail^[n] (start base cap)).delay.nanos = min (base.nanos * factor n) (ceiling base cap) := by
  rw [← run_replicate, nanos_delay_run base cap _ (by rwa [streak_replicate]), streak_replicate]

theorem nanos_delay_failed : ((start base cap).run (past ++ [.failed])).delay.nanos =
    min (base.nanos * factor (streak past + 1)) (ceiling base cap) := by
  have hstreak : streak (past ++ [Attempt.failed]) = streak past + 1 := streak_concat past .failed
  rw [nanos_delay_run base cap _ (by omega), hstreak]

theorem delay_run_of_streak_zero (h : streak past = 0) :
    ((start base cap).run past).delay = .zero := by
  rw [run_start, h]
  rfl

/-! ### The climb -/

theorem delay_exact_iff (h : 0 < streak past) :
    ((start base cap).run past).delay.nanos = exact base cap (streak past) ↔
      streak past ≤ 32 ∨ Covers base cap := by
  rw [nanos_delay_run base cap past h, exact, Covers]
  by_cases hn : streak past ≤ 32
  · rw [factor_of_le hn]
    exact iff_of_true rfl (.inl hn)
  · -- the exact multiple is beyond the largest one that a word gives
    have hle : Nat.pow 2 32 ≤ Nat.pow 2 (streak past - 1) := two_pow_le (by omega)
    have hsize : Nat.pow 2 32 = UInt32.size - 1 + 1 := by decide
    have hmul : base.nanos * (UInt32.size - 1 + 1) ≤ base.nanos * Nat.pow 2 (streak past - 1) :=
      Nat.mul_le_mul_left _ (hsize ▸ hle)
    have hzero (hbase : base.nanos = 0) : base.nanos * Nat.pow 2 (streak past - 1) = 0 := by
      rw [hbase, Nat.zero_mul]
    rw [Nat.mul_succ] at hmul
    rw [factor_of_lt (by omega), cut_eq_iff hmul hzero]
    exact (or_iff_right hn).symm

theorem delay_first (h : streak past = 1) :
    ((start base cap).run past).delay.nanos = min base.nanos Span.max.nanos := by
  have hfactor : factor 1 = 1 := by decide
  have hmax : base.nanos ≤ Nat.max cap.nanos base.nanos := Nat.le_max_right ..
  rw [nanos_delay_run base cap past (by omega), h, hfactor, ceiling]
  omega

theorem delay_doubles_iff (h : 0 < streak past) :
    ((start base cap).run (past ++ [.failed])).delay.nanos =
        min (((start base cap).run past).delay.nanos * 2) (ceiling base cap) ↔
      streak past < 32 ∨ Covers base cap := by
  rw [nanos_delay_failed, nanos_delay_run base cap past h, Covers, min_mul_two_cut]
  by_cases hn : streak past < 32
  · rw [factor_succ h hn, Nat.mul_assoc]
    exact iff_of_true rfl (.inl hn)
  · have hsize : UInt32.size - 1 + 1 ≤ factor (streak past) * 2 := size_le_factor (by omega)
    have hmul : base.nanos * (UInt32.size - 1 + 1) ≤ base.nanos * (factor (streak past) * 2) :=
      Nat.mul_le_mul_left _ hsize
    have hzero (hbase : base.nanos = 0) : base.nanos * (factor (streak past) * 2) = 0 := by
      rw [hbase, Nat.zero_mul]
    rw [Nat.mul_succ] at hmul
    rw [factor_of_lt (by omega), Nat.mul_assoc, cut_eq_iff hmul hzero]
    exact (or_iff_right hn).symm

theorem delay_le_failed : ((start base cap).run past).delay ≤
    ((start base cap).run (past ++ [.failed])).delay := by
  rw [Span.le_def]
  by_cases h : streak past = 0
  · rw [delay_run_of_streak_zero base cap past h]
    exact Nat.zero_le _
  · have hmul : base.nanos * factor (streak past) ≤ base.nanos * factor (streak past + 1) :=
      Nat.mul_le_mul_left _ (factor_le_succ (by omega))
    rw [nanos_delay_failed, nanos_delay_run base cap past (by omega)]
    omega

/-- From some failure on the delay is the ceiling. -/
def Arrives : Prop := ∃ n, ∀ past, n ≤ streak past →
  ((start base cap).run past).delay.nanos = ceiling base cap

theorem arrives_iff (h : 0 < base.nanos) : Arrives base cap ↔ Covers base cap := by
  constructor
  · rintro ⟨n, hn⟩
    have hstreak : streak (List.replicate (n + 1) .failed) = n + 1 := streak_replicate (n + 1)
    have hdelay := hn (List.replicate (n + 1) .failed) (by omega)
    have hmul : base.nanos * factor (n + 1) ≤ base.nanos * (UInt32.size - 1) :=
      Nat.mul_le_mul_left _ (factor_le (n + 1))
    rw [nanos_delay_run base cap _ (by omega), hstreak] at hdelay
    exact .inr (by omega)
  · intro hcovers
    -- from the thirty-third failure on the factor is the largest one
    refine ⟨33, fun past hpast => ?_⟩
    have hle : ceiling base cap ≤ base.nanos * (UInt32.size - 1) :=
      hcovers.resolve_left (by omega)
    rw [nanos_delay_run base cap past (by omega), factor_of_lt (by omega)]
    omega

end

/-- The first delay is the base, and no delay is shorter than the one before it. The delays are
exact, and each failure doubles the one before it up to the ceiling, through the thirty-second
failure in a row; beyond it they are, and the ceiling is ever reached, if and only if the multiples
of the base go up to the ceiling. -/
theorem delays_iff (base cap : Span) :
    (∀ past, 0 < streak past →
      (((start base cap).run past).delay.nanos = exact base cap (streak past) ↔
        streak past ≤ 32 ∨ Covers base cap)) ∧
    (∀ past, streak past = 1 →
      ((start base cap).run past).delay.nanos = min base.nanos Span.max.nanos) ∧
    (∀ past, 0 < streak past →
      (((start base cap).run (past ++ [.failed])).delay.nanos =
          min (((start base cap).run past).delay.nanos * 2) (ceiling base cap) ↔
        streak past < 32 ∨ Covers base cap)) ∧
    (∀ past, ((start base cap).run past).delay ≤
      ((start base cap).run (past ++ [.failed])).delay) ∧
    (0 < base.nanos → (Arrives base cap ↔ Covers base cap)) :=
  ⟨delay_exact_iff base cap, delay_first base cap, delay_doubles_iff base cap,
    delay_le_failed base cap, arrives_iff base cap⟩

/-- The theorem applies to a base of five seconds and a cap of five minutes, as they are by
default. -/
theorem delays_iff_minutes :
    let base := Span.seconds 5
    let cap := Span.seconds 300
    0 < base.nanos ∧ Covers base cap ∧ Arrives base cap ∧
      ∀ past, 0 < streak past →
        ((start base cap).run past).delay.nanos = exact base cap (streak past) := by
  intro base cap
  have positive : 0 < base.nanos := by decide
  have covers : Covers base cap := by decide
  obtain ⟨hexact, _, _, _, harrives⟩ := delays_iff base cap
  exact ⟨positive, covers, (harrives positive).mpr covers,
    fun past h => (hexact past h).mpr (.inr covers)⟩

/-- A cap of `2 ^ 32` milliseconds is not reached from a base of one: after thirty-three failures
the delay should be the cap, and the ladder stays one millisecond below it from there on. -/
theorem stops_below_cap :
    let base := Span.millis 1
    let cap := Span.millis 4294967296
    let past := List.replicate 33 Attempt.failed
    streak past = 33 ∧ exact base cap 33 = cap.nanos ∧
      ((start base cap).run past).delay = .millis 4294967295 ∧ ¬Arrives base cap := by
  intro base cap past
  have uncovered : ¬Covers base cap := by decide
  have positive : 0 < base.nanos := by decide
  refine ⟨streak_replicate 33, by decide +kernel, by decide +kernel, ?_⟩
  rw [arrives_iff base cap positive]
  exact uncovered

end Warren.Backoff
