import Warren.JobId

/-!
# Identifiers and their names

A numeral is read back as the number that it was written for, so different jobs have workflows with
different names.
-/

namespace Warren

namespace Text

theorem lt_of_mem_digits_go {base : Nat} (hb : 0 < base) (fuel n : Nat) (low : List Nat)
    (hlow : ∀ d ∈ low, d < base) : ∀ d ∈ digits.go base fuel n low, d < base := by
  induction fuel generalizing n low with
  | zero => exact hlow
  | succ fuel ih =>
    intro d hd
    simp only [digits.go] at hd
    split at hd
    · rename_i hn
      rcases List.mem_cons.mp hd with rfl | hd
      · exact hn
      · exact hlow d hd
    · refine ih (n / base) (n % base :: low) (fun e he => ?_) d hd
      rcases List.mem_cons.mp he with rfl | he
      · exact Nat.mod_lt n hb
      · exact hlow e he

theorem lt_of_mem_digits {base : Nat} (hb : 0 < base) (n : Nat) : ∀ d ∈ digits base n, d < base :=
  lt_of_mem_digits_go hb (n + 1) n [] (by simp)

theorem digits_go_ne_nil (base fuel n : Nat) (low : List Nat) (h : 0 < fuel ∨ low ≠ []) :
    digits.go base fuel n low ≠ [] := by
  induction fuel generalizing n low with
  | zero =>
    rcases h with h | h
    · omega
    · exact h
  | succ fuel ih =>
    simp only [digits.go]
    split
    · simp
    · exact ih _ _ (Or.inr (by simp))

theorem idxOf?_letter {alphabet : List Char} (ha : alphabet.Nodup) {d : Nat}
    (hd : d < alphabet.length) : alphabet.idxOf? (letter alphabet d) = some d := by
  have hletter : letter alphabet d = alphabet[d] := by
    simp only [letter, List.getElem?_eq_getElem hd, Option.getD_some]
  refine List.idxOf?_eq_some_iff.mpr ⟨hd, hletter.symm, fun j hj hjd => ?_⟩
  exact List.pairwise_iff_getElem.mp ha j d (by omega) hd hj (hjd.trans hletter)

theorem read?_write {alphabet : List Char} (ha : alphabet.Nodup) (hl : 2 ≤ alphabet.length)
    (n : Nat) : read? alphabet (write alphabet n) = some n := by
  have hne : (write alphabet n).isEmpty = false := by
    have h := digits_go_ne_nil alphabet.length (n + 1) n [] (Or.inl (by omega))
    simpa [write, digits] using h
  have hmap : ((write alphabet n).mapM fun c => alphabet.idxOf? c) =
      some (digits alphabet.length n) := by
    have hbase : 0 < alphabet.length := by omega
    have hlt := lt_of_mem_digits hbase n
    simp only [write]
    generalize digits alphabet.length n = ds at hlt
    induction ds with
    | nil => rfl
    | cons d ds ih =>
      have hrest := ih fun e he => hlt e (List.mem_cons_of_mem _ he)
      rw [List.map_cons, List.mapM_cons, idxOf?_letter ha (hlt d (List.mem_cons_self ..)), hrest]
      rfl
  simp only [read?, hne, Bool.false_eq_true, if_false, hmap, Option.map_some,
    ofDigits_digits hl]

theorem decimal_inj {a b : Nat} (h : decimal a = decimal b) : a = b := by
  have read (n : Nat) : read? decimalDigits (decimal n) = some n :=
    read?_write (by decide) (by decide) n
  have hab := read a
  rw [h, read b] at hab
  exact (Option.some.inj hab).symm

end Text

namespace JobId

instance : Trans (α := JobId) (· < ·) (· < ·) (· < ·) := ⟨Nat.lt_trans⟩

instance : Std.Irrefl (α := JobId) (· < ·) := ⟨fun a => Nat.lt_irrefl a.value⟩

instance : Std.Trichotomous (α := JobId) (· < ·) where
  trichotomous _ _ hab hba := JobId.ext (Nat.le_antisymm (Nat.not_lt.mp hba) (Nat.not_lt.mp hab))

theorem workflowName_inj {a b : JobId} (h : a.workflowName = b.workflowName) : a = b := by
  have hdecimal : a.decimal = b.decimal := String.append_right_inj namePrefix |>.mp h
  exact JobId.ext (Text.decimal_inj (String.ofList_injective hdecimal))

end JobId

end Warren
