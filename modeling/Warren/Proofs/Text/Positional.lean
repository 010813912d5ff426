import Mathlib.Data.List.TakeWhile
import Mathlib.Data.Nat.Digits.Lemmas
import Warren.Proofs.Text.Blank
import Warren.Proofs.Text.Numeral

/-!
# Numerals and their values

A numeral over an alphabet stands for the number with these digits in the base that the alphabet has
letters. `read?_eq_some_iff` says which texts are read and as which number, `Numeral.write_eq` that
writing takes the numeral back, less the zero digits in front.
-/

namespace Warren.Text

/-- The number that letters of an alphabet stand for, the least significant one last. -/
def valueOf (alphabet ds : List Char) : Nat :=
  Nat.ofDigits alphabet.length (ds.reverse.map fun c => alphabet.idxOf c)

/-- One letter of the alphabet or more, and the number that they stand for. -/
structure Numeral (alphabet ds : List Char) (n : Nat) : Prop where
  nonempty : ds ≠ []
  letters : ∀ c ∈ ds, c ∈ alphabet
  value : valueOf alphabet ds = n

/-- A numeral without the zero digits in front of it that can be left out. -/
def shortest (zero : Char) (ds : List Char) : List Char :=
  match ds.dropWhile (· = zero) with
  | [] => [zero]
  | rest => rest

variable {alphabet ds : List Char} {n : Nat}

/-! ### Reading -/

theorem ofDigits_eq (base : Nat) (ds : List Nat) :
    ofDigits base ds = Nat.ofDigits base ds.reverse := by
  induction ds using List.reverseRecOn with
  | nil => rfl
  | append_singleton ds d ih =>
    rw [ofDigits_append_singleton, ih, List.reverse_append, List.reverse_singleton,
      List.singleton_append, Nat.ofDigits_cons, Nat.mul_comm, Nat.add_comm]

theorem idxOf?_of_mem {c : Char} (h : c ∈ alphabet) :
    alphabet.idxOf? c = some (alphabet.idxOf c) := by
  obtain ⟨i, hi⟩ := Option.isSome_iff_exists.mp (List.isSome_idxOf?.mpr h)
  rw [List.idxOf_eq_getD_idxOf?, hi, Option.getD_some]

theorem mapM_idxOf?_of_forall (h : ∀ c ∈ ds, c ∈ alphabet) :
    (ds.mapM fun c => alphabet.idxOf? c) = some (ds.map fun c => alphabet.idxOf c) := by
  induction ds with
  | nil => rfl
  | cons c ds ih =>
    obtain ⟨hc, hds⟩ := List.forall_mem_cons.mp h
    rw [List.mapM_cons, idxOf?_of_mem hc, ih hds]
    rfl

theorem forall_mem_of_mapM_idxOf? {is : List Nat}
    (h : (ds.mapM fun c => alphabet.idxOf? c) = some is) : ∀ c ∈ ds, c ∈ alphabet := by
  induction ds generalizing is with
  | nil => simp
  | cons c ds ih =>
    rw [List.mapM_cons] at h
    obtain ⟨i, hi, h⟩ := Option.bind_eq_some_iff.mp h
    obtain ⟨js, hjs, -⟩ := Option.bind_eq_some_iff.mp h
    refine List.forall_mem_cons.mpr ⟨?_, ih hjs⟩
    exact List.isSome_idxOf?.mp (Option.isSome_iff_exists.mpr ⟨i, hi⟩)

theorem read?_eq_some_iff : read? alphabet ds = some n ↔ Numeral alphabet ds n := by
  have hvalue : ofDigits alphabet.length (ds.map fun c => alphabet.idxOf c) =
      valueOf alphabet ds := by
    rw [ofDigits_eq, valueOf, List.map_reverse]
  constructor
  · intro h
    simp only [read?, List.isEmpty_iff] at h
    split at h
    · cases h
    · rename_i hne
      obtain ⟨is, his, hn⟩ := Option.map_eq_some_iff.mp h
      have hletters := forall_mem_of_mapM_idxOf? his
      rw [mapM_idxOf?_of_forall hletters] at his
      obtain rfl := Option.some.inj his
      exact ⟨hne, hletters, hvalue ▸ hn⟩
  · rintro ⟨hne, hletters, rfl⟩
    rw [read?, if_neg (by simpa using hne), mapM_idxOf?_of_forall hletters, Option.map_some,
      hvalue]

/-! ### Writing -/

theorem digits_go_eq {base : Nat} (hb : 2 ≤ base) (fuel n : Nat) (hn : n < fuel) (hpos : 0 < n)
    (low : List Nat) : digits.go base fuel n low = (Nat.digits base n).reverse ++ low := by
  induction fuel generalizing n low with
  | zero => omega
  | succ fuel ih =>
    simp only [digits.go]
    by_cases h : n < base
    · rw [if_pos h, Nat.digits_of_lt base n (by omega) h]
      rfl
    · have hlt : n / base < n := Nat.div_lt_self hpos (by omega)
      have hdiv : 0 < n / base := Nat.div_pos (by omega) (by omega)
      rw [if_neg h, ih (n / base) (by omega) hdiv, Nat.digits_def' (by omega) hpos,
        List.reverse_cons, List.append_assoc, List.singleton_append]

theorem digits_eq {base : Nat} (hb : 2 ≤ base) (hpos : 0 < n) :
    digits base n = (Nat.digits base n).reverse := by
  rw [digits, digits_go_eq hb (n + 1) n (by omega) hpos, List.append_nil]

theorem write_zero (hl : 2 ≤ alphabet.length) : write alphabet 0 = [letter alphabet 0] := by
  rw [write, digits, digits.go, if_pos (by omega)]
  rfl

theorem letter_idxOf {c : Char} (h : c ∈ alphabet) : letter alphabet (alphabet.idxOf c) = c := by
  have hlt : alphabet.idxOf c < alphabet.length := List.idxOf_lt_length_iff.mpr h
  rw [letter, List.getElem?_eq_getElem hlt, Option.getD_some, List.getElem_idxOf]

theorem idxOf_eq_zero_iff {c : Char} (h : c ∈ alphabet) :
    alphabet.idxOf c = 0 ↔ c = letter alphabet 0 := by
  obtain ⟨first, rest, rfl⟩ := List.exists_cons_of_ne_nil (List.ne_nil_of_mem h)
  have hletter : letter (first :: rest) 0 = first := rfl
  rw [hletter]
  by_cases hc : first = c
  · simp [hc]
  · simp [List.idxOf_cons_ne rest hc, Ne.symm hc]

theorem valueOf_zero_cons (hne : alphabet ≠ []) (ds : List Char) :
    valueOf alphabet (letter alphabet 0 :: ds) = valueOf alphabet ds := by
  obtain ⟨first, rest, rfl⟩ := List.exists_cons_of_ne_nil hne
  have hzero : (first :: rest).idxOf (letter (first :: rest) 0) = 0 := List.idxOf_cons_self
  rw [valueOf, List.reverse_cons, List.map_append, Nat.ofDigits_append, List.map_singleton, hzero,
    Nat.ofDigits_singleton, Nat.mul_zero, Nat.add_zero, valueOf]

theorem valueOf_zeros_append (hne : alphabet ≠ []) (k : Nat) (ds : List Char) :
    valueOf alphabet (List.replicate k (letter alphabet 0) ++ ds) = valueOf alphabet ds := by
  induction k with
  | zero => rfl
  | succ k ih => rw [List.replicate_succ, List.cons_append, valueOf_zero_cons hne, ih]

/-- Without a zero digit in front, the letters are what is written for their value. -/
theorem write_valueOf (hl : 2 ≤ alphabet.length) {c : Char} (hc : c ≠ letter alphabet 0)
    (h : ∀ d ∈ c :: ds, d ∈ alphabet) :
    write alphabet (valueOf alphabet (c :: ds)) = c :: ds := by
  have hfirst : alphabet.idxOf c ≠ 0 := fun h0 => hc ((idxOf_eq_zero_iff (h c (by simp))).mp h0)
  have hdigits : Nat.digits alphabet.length (valueOf alphabet (c :: ds)) =
      (c :: ds).reverse.map fun d => alphabet.idxOf d := by
    refine Nat.digits_ofDigits _ (by omega) _ (fun i hi => ?_) fun _ => ?_
    · obtain ⟨d, hd, rfl⟩ := List.mem_map.mp hi
      exact List.idxOf_lt_length_iff.mpr (h d (List.mem_reverse.mp hd))
    · simpa using hfirst
  have hpos : 0 < valueOf alphabet (c :: ds) := by
    rw [Nat.pos_iff_ne_zero]
    intro h0
    rw [h0, Nat.digits_zero] at hdigits
    simp at hdigits
  rw [write, digits_eq hl hpos, hdigits, ← List.map_reverse, List.reverse_reverse, List.map_map]
  exact (List.map_congr_left fun d hd => letter_idxOf (h d hd)).trans (List.map_id _)

/-- Writing the number of a numeral gives the numeral, less the zero digits in front. -/
theorem Numeral.write_eq (hl : 2 ≤ alphabet.length) (h : Numeral alphabet ds n) :
    write alphabet n = shortest (letter alphabet 0) ds := by
  obtain ⟨-, hletters, rfl⟩ := h
  have hne : alphabet ≠ [] := List.ne_nil_of_length_pos (by omega)
  induction ds with
  | nil => exact write_zero hl
  | cons c ds ih =>
    by_cases hc : c = letter alphabet 0
    · subst hc
      rw [valueOf_zero_cons hne, ih (List.forall_mem_cons.mp hletters).2, shortest, shortest,
        List.dropWhile_cons_of_pos (by simp)]
    · rw [write_valueOf hl hc hletters, shortest, List.dropWhile_cons_of_neg (by simpa using hc)]

theorem numeral_write (ha : alphabet.Nodup) (hl : 2 ≤ alphabet.length) (n : Nat) :
    Numeral alphabet (write alphabet n) n :=
  read?_eq_some_iff.mp (read?_write ha hl n)

/-! ### Decimal numerals -/

theorem not_isBlank_of_mem_decimalDigits : ∀ c ∈ decimalDigits, isBlank c = false := by
  have each : decimalDigits.all (fun c => !isBlank c) = true := by decide
  exact fun c hc => Bool.not_eq_true' _ ▸ List.all_eq_true.mp each c hc

theorem isDigit_iff (c : Char) : isDigit c = true ↔ c ∈ decimalDigits := by
  constructor
  · intro h
    simp only [isDigit, Bool.and_eq_true, decide_eq_true_eq] at h
    have hlow : 48 ≤ c.toNat := h.1
    have hhigh : c.toNat ≤ 57 := h.2
    have each : ∀ n ≤ 57, 48 ≤ n → Char.ofNat n ∈ decimalDigits := by decide
    rw [← Char.ofNat_toNat c]
    exact each _ hhigh hlow
  · intro h
    have each : decimalDigits.all isDigit = true := by decide
    exact List.all_eq_true.mp each c h

theorem numeral_decimal (n : Nat) : Numeral decimalDigits (decimal n) n :=
  numeral_write (by decide) (by decide) n

theorem letter_decimalDigits_zero : letter decimalDigits 0 = '0' := rfl

theorem numeral_filled (width n : Nat) : Numeral decimalDigits (filled width n) n := by
  have hdecimal := numeral_decimal n
  refine ⟨by simp [filled, hdecimal.nonempty], ?_, ?_⟩
  · rw [filled, List.forall_mem_append]
    refine ⟨fun c hc => ?_, hdecimal.letters⟩
    rw [List.eq_of_mem_replicate hc]
    decide
  · rw [filled, ← letter_decimalDigits_zero, valueOf_zeros_append (by decide), hdecimal.value]

theorem length_filled {width : Nat} (h : (decimal n).length ≤ width) :
    (filled width n).length = width := by
  rw [filled, List.length_append, List.length_replicate]
  omega

theorem filled_zero {width : Nat} (h : 0 < width) : filled width 0 = List.replicate width '0' := by
  rw [filled, show decimal 0 = List.replicate 1 '0' from rfl, List.replicate_append_replicate,
    List.length_replicate, Nat.sub_add_cancel h]

theorem Numeral.eq_filled (h : Numeral decimalDigits ds n) : ds = filled ds.length n := by
  have hwrite : decimal n = shortest '0' ds := letter_decimalDigits_zero ▸ h.write_eq (by decide)
  have hsplit : ds.takeWhile (· = '0') ++ ds.dropWhile (· = '0') = ds :=
    List.takeWhile_append_dropWhile
  have hzeros : ds.takeWhile (· = '0') = List.replicate (ds.takeWhile (· = '0')).length '0' :=
    List.eq_replicate_iff.mpr ⟨rfl, fun c hc => by simpa using List.mem_takeWhile_imp hc⟩
  rw [shortest] at hwrite
  rw [filled, hwrite]
  generalize ds.dropWhile (· = '0') = back at hsplit
  generalize (ds.takeWhile (· = '0')).length = k at hzeros
  rw [hzeros] at hsplit
  subst hsplit
  cases back with
  | nil =>
    -- the last zero is the number itself
    obtain ⟨j, rfl⟩ : ∃ j, k = j + 1 := by
      have hpos := List.length_pos_of_ne_nil h.nonempty
      rw [List.append_nil, List.length_replicate] at hpos
      exact ⟨k - 1, by omega⟩
    simp [List.replicate_succ']
  | cons c back => simp

theorem Numeral.length_decimal_le (h : Numeral decimalDigits ds n) :
    (decimal n).length ≤ ds.length := by
  have hlength := congrArg List.length h.eq_filled
  rw [filled, List.length_append] at hlength
  omega

end Warren.Text
