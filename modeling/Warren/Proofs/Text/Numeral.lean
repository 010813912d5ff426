import Warren.Proofs.JobId

/-!
# Versions as numbers

The text of a number is its decimal numeral, and a number below a bound is read back from it.
-/

namespace Warren.Text

theorem letter_decimalDigits {d : Nat} (h : d < 10) : letter decimalDigits d = d.digitChar := by
  have each : ∀ i : Fin 10, letter decimalDigits i = (i : Nat).digitChar := by decide
  exact each ⟨d, h⟩

theorem letter_decimalDigits_ne_plus {d : Nat} (h : d < 10) : letter decimalDigits d ≠ '+' := by
  have each : ∀ i : Fin 10, letter decimalDigits i ≠ '+' := by decide
  exact each ⟨d, h⟩

theorem map_digits_go (fuel n : Nat) (hn : n < fuel) (low : List Nat) :
    (digits.go 10 fuel n low).map (letter decimalDigits) =
      Nat.toDigits 10 n ++ low.map (letter decimalDigits) := by
  induction fuel generalizing n low with
  | zero => omega
  | succ fuel ih =>
    simp only [digits.go]
    split
    · rename_i h
      rw [List.map_cons, Nat.toDigits_of_lt_base h, letter_decimalDigits h, List.singleton_append]
    · have hmod : n % 10 < 10 := Nat.mod_lt n (by omega)
      have hn' : 10 * (n / 10) + n % 10 = n := by omega
      have split : Nat.toDigits 10 (n / 10) ++ Nat.toDigits 10 (n % 10) = Nat.toDigits 10 n := by
        rw [Nat.toDigits_append_toDigits (by omega) (by omega) hmod, hn']
      rw [ih (n / 10) (by omega), ← split, List.map_cons, letter_decimalDigits hmod,
        Nat.toDigits_of_lt_base hmod]
      simp

theorem decimal_eq_toList (n : Nat) : decimal n = (toString n).toList := by
  have h : decimal n = Nat.toDigits 10 n ++ [] := map_digits_go (n + 1) n (by omega) []
  rw [h, List.append_nil]
  exact Nat.toList_repr.symm

theorem read?_toString (n : Nat) : read? decimalDigits (toString n).toList = some n := by
  rw [← decimal_eq_toList]
  exact read?_write (by decide) (by decide) n

theorem readBelow?_toString (bound n : Nat) :
    readBelow? bound (toString n).toList = if n < bound then some n else none := by
  have hread := read?_toString n
  rw [← decimal_eq_toList] at hread ⊢
  have hplus : ∀ rest, decimal n ≠ '+' :: rest := by
    intro rest h
    have hmem : '+' ∈ decimal n := by simp [h]
    obtain ⟨d, hd, hletter⟩ := List.mem_map.mp hmem
    exact letter_decimalDigits_ne_plus (lt_of_mem_digits (by decide) n d hd) hletter
  unfold readBelow?
  split
  · rename_i rest h
    exact absurd h (hplus rest)
  · dsimp only
    rw [hread, Option.filter_some]
    simp

end Warren.Text
