import Mathlib.Data.List.Infix
import Warren.Text.Occurrence

/-!
# Cutting a text at a pattern

A text is cut at a pattern if the pieces, joined with the pattern again, are the text, and none of
them holds the pattern. A pattern that never overlaps itself leaves one such cut only
(`piecesBetween_eq_iff`), so the pieces do not depend on the order in which its occurrences are
found.
-/

namespace Warren.Text

variable {pattern cs rest : List Char} {pieces : List (List Char)}

theorem occurs_iff : occurs pattern cs = true ↔ pattern <:+: cs := by
  induction cs with
  | nil => simp [occurs]
  | cons c rest ih =>
    rw [occurs, Bool.or_eq_true, ih, List.infix_cons_iff, List.isPrefixOf_iff_prefix ]

/-- Pieces of a text between the occurrences of a pattern. -/
structure Cuts (pattern cs : List Char) (pieces : List (List Char)) : Prop where
  nonempty : pieces ≠ []
  joined : pattern.intercalate pieces = cs
  free : ∀ piece ∈ pieces, ¬pattern <:+: piece

/-- A pattern no part of which is both its beginning and its end. -/
def Borderless (pattern : List Char) : Prop :=
  ∀ border, border <+: pattern → border <:+ pattern → border = [] ∨ border = pattern

/-! ### The pieces are a cut -/

theorem Cuts.cons {c : Char} {first : List Char} {others : List (List Char)}
    (h : Cuts pattern rest (first :: others)) (hnot : ¬pattern <+: c :: rest) :
    Cuts pattern (c :: rest) ((c :: first) :: others) := by
  have hjoined : pattern.intercalate ((c :: first) :: others) = c :: rest := by
    rw [← h.joined]
    cases others <;> simp [List.intercalate_cons_cons]
  refine ⟨List.cons_ne_nil _ _, hjoined, fun piece hpiece => ?_⟩
  rcases List.mem_cons.mp hpiece with rfl | hpiece
  · rw [List.infix_cons_iff]
    rintro (hhead | hrest)
    · -- the first piece begins the text, so the pattern would too
      have hfirst : c :: first <+: c :: rest := by
        rw [← hjoined]
        cases others with
        | nil => rw [List.intercalate_singleton]
        | cons second more =>
          rw [List.intercalate_cons_cons, List.append_assoc]
          exact List.prefix_append _ _
      exact hnot (hhead.trans hfirst)
    · exact h.free first (List.mem_cons_self ..) hrest
  · exact h.free piece (List.mem_cons_of_mem _ hpiece)

theorem Cuts.nil_cons (hne : pattern ≠ []) (h : Cuts pattern rest pieces) :
    Cuts pattern (pattern ++ rest) ([] :: pieces) := by
  refine ⟨List.cons_ne_nil _ _, ?_, fun piece hpiece => ?_⟩
  · rw [List.intercalate_cons_of_ne_nil h.nonempty, h.joined, List.nil_append]
  · rcases List.mem_cons.mp hpiece with rfl | hpiece
    · rwa [List.infix_nil]
    · exact h.free piece hpiece

theorem cuts_piecesFrom (hne : pattern ≠ []) (skip : Nat) (cs : List Char) :
    Cuts pattern (cs.drop skip) (piecesFrom pattern skip cs) := by
  induction cs generalizing skip with
  | nil =>
    rw [List.drop_nil, piecesFrom]
    exact ⟨List.cons_ne_nil _ _, rfl, by simpa using hne⟩
  | cons c rest ih =>
    cases skip with
    | succ skip =>
      rw [List.drop_succ_cons, piecesFrom]
      exact ih skip
    | zero =>
      rw [List.drop_zero, piecesFrom]
      split
      · rename_i hhead
        obtain ⟨tail, htail⟩ := List.isPrefixOf_iff_prefix.mp hhead
        obtain ⟨p, ps, rfl⟩ := List.exists_cons_of_ne_nil hne
        rw [List.cons_append, List.cons.injEq] at htail
        obtain ⟨rfl, rfl⟩ := htail
        have cut := ih ps.length
        rw [List.drop_left] at cut
        exact .nil_cons hne cut
      · rename_i hhead
        have cut := ih 0
        rw [List.drop_zero] at cut
        cases hpieces : piecesFrom pattern 0 rest with
        | nil => exact absurd hpieces cut.nonempty
        | cons first others =>
          rw [hpieces] at cut
          exact cut.cons fun h => hhead (List.isPrefixOf_iff_prefix.mpr h)

theorem cuts_piecesBetween (hne : pattern ≠ []) (cs : List Char) :
    Cuts pattern cs (piecesBetween pattern cs) := by
  have cut := cuts_piecesFrom hne 0 cs
  rwa [List.drop_zero] at cut

/-! ### There is one cut only -/

/-- A piece without the pattern that is followed by the pattern: the pattern starts where the piece
ends, not before. -/
theorem not_prefix_of_free {piece : List Char} (hborder : Borderless pattern)
    (hpiece : piece ≠ []) (hfree : ¬pattern <:+: piece) (rest : List Char) :
    ¬pattern <+: piece ++ (pattern ++ rest) := by
  intro h
  rcases List.prefix_or_prefix_of_prefix h (List.prefix_append piece _) with hwithin | hbeyond
  · exact hfree hwithin.isInfix
  · obtain ⟨tail, rfl⟩ := hbeyond
    rw [List.prefix_append_right_inj] at h
    have hstart : tail <+: piece ++ tail :=
      List.prefix_of_prefix_length_le h (List.prefix_append _ rest) (by simp)
    rcases hborder tail hstart (List.suffix_append piece tail) with rfl | hall
    · exact hfree (by rw [List.append_nil])
    · exact hpiece (by simpa using hall)

theorem piecesFrom_append_of_length {skip : Nat} {taken : List Char} (h : taken.length = skip)
    (rest : List Char) : piecesFrom pattern skip (taken ++ rest) = piecesBetween pattern rest := by
  induction taken generalizing skip with
  | nil =>
    obtain rfl : 0 = skip := h
    rfl
  | cons c taken ih =>
    obtain rfl : taken.length + 1 = skip := h
    rw [List.cons_append, piecesFrom]
    exact ih rfl

theorem piecesBetween_cons_of_not {c : Char} {first : List Char} {others : List (List Char)}
    (hnot : ¬pattern <+: c :: rest) (h : piecesBetween pattern rest = first :: others) :
    piecesBetween pattern (c :: rest) = (c :: first) :: others := by
  unfold piecesBetween at h ⊢
  rw [piecesFrom, if_neg (fun hhead => hnot (List.isPrefixOf_iff_prefix.mp hhead)), h]

theorem piecesBetween_of_free (hfree : ¬pattern <:+: cs) : piecesBetween pattern cs = [cs] := by
  induction cs with
  | nil => rfl
  | cons c rest ih =>
    rw [List.infix_cons_iff, not_or] at hfree
    exact piecesBetween_cons_of_not hfree.1 (ih hfree.2)

theorem piecesBetween_append (hne : pattern ≠ []) (hborder : Borderless pattern)
    {piece : List Char} (hfree : ¬pattern <:+: piece) (rest : List Char) :
    piecesBetween pattern (piece ++ (pattern ++ rest)) = piece :: piecesBetween pattern rest := by
  induction piece with
  | nil =>
    obtain ⟨p, ps, rfl⟩ := List.exists_cons_of_ne_nil hne
    have hhead : (p :: ps).isPrefixOf (p :: (ps ++ rest)) = true :=
      List.isPrefixOf_iff_prefix.mpr (List.prefix_append (p :: ps) rest)
    rw [List.nil_append, List.cons_append, piecesBetween, piecesFrom, if_pos hhead]
    exact congrArg (List.cons []) (piecesFrom_append_of_length rfl rest)
  | cons c piece ih =>
    have hnot := not_prefix_of_free hborder (List.cons_ne_nil c piece) hfree rest
    rw [List.infix_cons_iff, not_or] at hfree
    exact piecesBetween_cons_of_not hnot (ih hfree.2)

/-- The pieces of a text are its only cut at a pattern that does not overlap itself. -/
theorem piecesBetween_eq_iff (hne : pattern ≠ []) (hborder : Borderless pattern) :
    piecesBetween pattern cs = pieces ↔ Cuts pattern cs pieces := by
  constructor
  · rintro rfl
    exact cuts_piecesBetween hne cs
  · rintro ⟨hnonempty, rfl, hfree⟩
    induction pieces with
    | nil => exact absurd rfl hnonempty
    | cons piece others ih =>
      have hpiece : ¬pattern <:+: piece := hfree piece (List.mem_cons_self ..)
      cases others with
      | nil => rw [List.intercalate_singleton, piecesBetween_of_free hpiece]
      | cons second more =>
        rw [List.intercalate_cons_cons, List.append_assoc,
          piecesBetween_append hne hborder hpiece,
          ih (List.cons_ne_nil _ _) fun q hq => hfree q (List.mem_cons_of_mem _ hq)]

end Warren.Text
