import Mathlib.Data.List.Chain
import Warren.Hostlist
import Warren.Proofs.Fallible

/-!
# Runs of numbers

Successive numbers are written as one range. To see whether a number is the successor of the one
before it, the successor is computed, and the largest word has none: `foldlM_addNumber` says that
there are ranges exactly if nothing follows the largest word. If there are, they span the numbers:
`flatMap_spanned`.
-/

namespace Warren.Hostlist

/-- The largest number of a host. -/
def largest : UInt64 := 0xFFFFFFFFFFFFFFFF

/-- A number has a successor that is a word. -/
def HasNext (number : UInt64) : Prop := number ≠ largest

/-- The numbers that a range says, if it is not decreasing. -/
def spanned (range : UInt64 × UInt64) : List Nat :=
  List.range' range.1.toNat (range.2.toNat + 1 - range.1.toNat)

/-- The ranges, the last one first, with one more number. -/
def extend (ranges : List (UInt64 × UInt64)) (n : UInt64) : List (UInt64 × UInt64) :=
  match ranges with
  | [] => [(n, n)]
  | (first, last) :: rest =>
    if n.toNat = last.toNat + 1 then (first, n) :: rest else (n, n) :: ranges

/-- The ranges of some numbers, the last one first as the numbers are. -/
def rangesOf (numbers : List UInt64) : List (UInt64 × UInt64) :=
  numbers.foldr (fun n ranges => extend ranges n) []

variable {numbers : List UInt64} {n last : UInt64}

theorem rangesOf_cons (n : UInt64) (numbers : List UInt64) :
    rangesOf (n :: numbers) = extend (rangesOf numbers) n := rfl

theorem spanned_self (n : UInt64) : spanned (n, n) = [n.toNat] := by
  rw [spanned, Nat.add_sub_cancel_left]
  rfl

theorem extend_cases (first last : UInt64) (rest : List (UInt64 × UInt64)) (n : UInt64) :
    (n.toNat = last.toNat + 1 ∧ extend ((first, last) :: rest) n = (first, n) :: rest) ∨
      extend ((first, last) :: rest) n = (n, n) :: (first, last) :: rest := by
  by_cases h : n.toNat = last.toNat + 1
  · exact .inl ⟨h, if_pos h⟩
  · exact .inr (if_neg h)

theorem head?_rangesOf (numbers : List UInt64) :
    (rangesOf numbers).head?.map Prod.snd = numbers.head? := by
  cases numbers with
  | nil => rfl
  | cons n numbers =>
    rw [rangesOf_cons]
    cases rangesOf numbers with
    | nil => rfl
    | cons range rest =>
      rcases extend_cases range.1 range.2 rest n with ⟨-, heq⟩ | heq <;> rw [heq] <;> rfl

theorem forall_mem_rangesOf {p : UInt64 → Prop} (h : ∀ n ∈ numbers, p n) :
    ∀ range ∈ rangesOf numbers, p range.1 ∧ p range.2 := by
  induction numbers with
  | nil => simp [rangesOf]
  | cons n numbers ih =>
    obtain ⟨hn, hnumbers⟩ := List.forall_mem_cons.mp h
    have hranges := ih hnumbers
    rw [rangesOf_cons]
    generalize rangesOf numbers = ranges at hranges
    cases ranges with
    | nil => simpa [extend] using hn
    | cons range rest =>
      obtain ⟨hrange, hrest⟩ := List.forall_mem_cons.mp hranges
      rcases extend_cases range.1 range.2 rest n with ⟨-, heq⟩ | heq <;> rw [heq]
      · exact List.forall_mem_cons.mpr ⟨⟨hrange.1, hn⟩, hrest⟩
      · exact List.forall_mem_cons.mpr ⟨⟨hn, hn⟩, hranges⟩

/-- No range is decreasing, and together they say the numbers. -/
theorem flatMap_spanned (numbers : List UInt64) :
    (∀ range ∈ rangesOf numbers, range.1.toNat ≤ range.2.toNat) ∧
      (rangesOf numbers).reverse.flatMap spanned = numbers.reverse.map UInt64.toNat := by
  induction numbers with
  | nil => simp [rangesOf]
  | cons n numbers ih =>
    obtain ⟨hle, hspanned⟩ := ih
    rw [rangesOf_cons, List.reverse_cons, List.map_append, ← hspanned]
    generalize rangesOf numbers = ranges at hle hspanned
    cases ranges with
    | nil => simp [extend, spanned_self]
    | cons range rest =>
      obtain ⟨first, last⟩ := range
      obtain ⟨hfirst, hrest⟩ := List.forall_mem_cons.mp hle
      dsimp only at hfirst
      rcases extend_cases first last rest n with ⟨hnext, heq⟩ | heq <;> rw [heq]
      · have hstep : spanned (first, n) = spanned (first, last) ++ [n.toNat] := by
          have hlength : n.toNat + 1 - first.toNat = last.toNat + 1 - first.toNat + 1 := by omega
          have hend : first.toNat + 1 * (last.toNat + 1 - first.toNat) = n.toNat := by omega
          rw [spanned, spanned, hlength, List.range'_concat, hend]
        refine ⟨List.forall_mem_cons.mpr ⟨?_, hrest⟩, by simp [hstep]⟩
        dsimp only
        omega
      · exact ⟨List.forall_mem_cons.mpr ⟨Nat.le_refl _, hle⟩, by simp [spanned_self]⟩

/-! ### Successors -/

theorem hasNext_iff : HasNext last ↔ last.toNat + 1 < UInt64.size := by
  have hlargest : largest.toNat + 1 = UInt64.size := rfl
  have hlast : last.toNat < UInt64.size := last.toNat_lt
  have hne : last = largest ↔ last.toNat = largest.toNat := UInt64.toNat_inj.symm
  rw [HasNext, Ne, hne]
  omega

theorem addNumber_of_hasNext (first : UInt64) (h : HasNext last)
    (rest : List (UInt64 × UInt64)) (n : UInt64) :
    addNumber ((first, last) :: rest) n = .ok (extend ((first, last) :: rest) n) := by
  have hfits := Crash.fit64_of_lt (hasNext_iff.mp h)
  have hnext : n = UInt64.ofNat (last.toNat + 1) ↔ n.toNat = last.toNat + 1 := by
    rw [← UInt64.toNat_inj, UInt64.toNat_ofNat_of_lt' (hasNext_iff.mp h)]
  rw [addNumber, hfits, extend]
  simp only [← hnext]
  rfl

theorem addNumber_of_not_hasNext (first : UInt64) (h : ¬HasNext last)
    (rest : List (UInt64 × UInt64)) (n : UInt64) :
    addNumber ((first, last) :: rest) n = .error .overflow := by
  have hoverflow : Crash.fit64 (last.toNat + 1) = .error .overflow :=
    if_neg fun hlt => h (hasNext_iff.mpr hlt)
  rw [addNumber, hoverflow]
  rfl

/-- One more number leads on from the ranges of the numbers before, if the last one of these has a
successor. -/
theorem addNumber_rangesOf (numbers : List UInt64) (n : UInt64) :
    ((∀ last ∈ numbers.head?, HasNext last) →
        addNumber (rangesOf numbers) n = .ok (rangesOf (n :: numbers))) ∧
      ((¬∀ last ∈ numbers.head?, HasNext last) →
        addNumber (rangesOf numbers) n = .error .overflow) := by
  rw [← head?_rangesOf, rangesOf_cons]
  cases rangesOf numbers with
  | nil => exact ⟨fun _ => rfl, fun h => absurd (by simp) h⟩
  | cons range rest =>
    obtain ⟨first, last⟩ := range
    simp only [List.head?_cons, Option.map_some, Option.mem_some_iff, forall_eq']
    exact ⟨fun h => addNumber_of_hasNext first h rest n,
      fun h => addNumber_of_not_hasNext first h rest n⟩

theorem foldlM_addNumber (numbers : List UInt64) :
    ((numbers.IsChain fun _ number => HasNext number) →
        numbers.reverse.foldlM addNumber [] = .ok (rangesOf numbers)) ∧
      ((¬numbers.IsChain fun _ number => HasNext number) →
        numbers.reverse.foldlM addNumber [] = .error .overflow) := by
  induction numbers with
  | nil => exact ⟨fun _ => rfl, fun h => absurd List.isChain_nil h⟩
  | cons n numbers ih =>
    obtain ⟨hok, herror⟩ := addNumber_rangesOf numbers n
    rw [List.reverse_cons, List.foldlM_append, List.isChain_cons]
    constructor
    · rintro ⟨hlast, hchain⟩
      rw [bind_of_ok (ih.1 hchain), List.foldlM_cons, bind_of_ok (hok hlast)]
      rfl
    · intro hnot
      by_cases hchain : numbers.IsChain fun _ number => HasNext number
      · rw [bind_of_ok (ih.1 hchain), List.foldlM_cons, herror fun hlast => hnot ⟨hlast, hchain⟩]
        rfl
      · rw [ih.2 hchain]
        rfl

end Warren.Hostlist
