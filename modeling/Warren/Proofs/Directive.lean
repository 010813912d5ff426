import Warren.Directive
import Warren.Proofs.Cleanup.Finalizers
import Warren.Proofs.Message.Fields
import Warren.Proofs.Text.Blank
import Warren.Proofs.Text.Pieces

/-!
# Reading directives

The texts of a job, with the presets put in for their names, are cut at the markers, and the clauses
between them become single directives, in their order. A single directive is read as itself.
-/

namespace Warren.Directive

variable {presets : Dict String Preset} {text : String} {clauses : List (List Char)}

/-- What stands between the markers of a text, without the white space around it, as far as anything
is left. -/
def Clauses (text : String) (clauses : List (List Char)) : Prop :=
  ∃ pieces, Text.Cuts marker.toList text.toList pieces ∧
    clauses = (pieces.map Text.trimChars).filter fun clause => !clause.isEmpty

/-- A clause of a directive: it is not empty, has no white space around it, and does not hold the
marker. -/
structure IsClause (clause : List Char) : Prop where
  nonempty : clause ≠ []
  bare : Text.Bare clause
  unmarked : ¬marker.toList <:+: clause

def ofClause (clause : List Char) : String := marker ++ String.ofList clause

/-- The texts that an entry stands for. -/
def textsOf (presets : Dict String Preset) (entry : String) : List String :=
  match presets.find? (Text.trim entry) with
  | some preset => preset.texts
  | none => [entry]

/-- The entries of directives that come as a text or as a list of texts. -/
inductive Entries : Json → List String → Prop
  | text (entry : String) : Entries (.string entry) [entry]
  | list (entries : List String) : Entries (.strings entries) entries

/-! ### Texts are cut into clauses -/

theorem marker_ne_nil : marker.toList ≠ [] := by decide

theorem borderless_marker : Text.Borderless marker.toList := by
  have hall : ∀ border ∈ marker.toList.inits,
      border <:+ marker.toList → border = [] ∨ border = marker.toList := by decide
  exact fun border hstart => hall border ((List.mem_inits ..).mpr hstart)

theorem split_of_clauses (h : Clauses text clauses) : split text = clauses.map ofClause := by
  obtain ⟨pieces, hcut, rfl⟩ := h
  have hpieces := (Text.piecesBetween_eq_iff marker_ne_nil borderless_marker).mpr hcut
  rw [split, hpieces]
  rfl

theorem exists_clauses (text : String) : ∃ clauses, Clauses text clauses :=
  ⟨_, _, Text.cuts_piecesBetween marker_ne_nil text.toList, rfl⟩

/-- White space is cut off, so nothing that was not in a piece is in its clause. -/
theorem Clauses.isClause (h : Clauses text clauses) : ∀ clause ∈ clauses, IsClause clause := by
  obtain ⟨pieces, hcut, rfl⟩ := h
  intro clause hclause
  obtain ⟨hmem, hnonempty⟩ := List.mem_filter.mp hclause
  obtain ⟨piece, hpiece, rfl⟩ := List.mem_map.mp hmem
  obtain ⟨before, after, _, _, hsurrounds⟩ := Text.surrounds_trimChars piece
  refine ⟨by simpa using hnonempty, Text.bare_trimChars piece, fun hmarked => ?_⟩
  have hwithin : Text.trimChars piece <:+: piece := ⟨before, after, hsurrounds.symm⟩
  exact hcut.free piece hpiece (hmarked.trans hwithin)

/-! ### Single directives -/

variable {clause : List Char}

theorem toList_ofClause (clause : List Char) :
    (ofClause clause).toList = marker.toList ++ clause := by
  rw [ofClause, String.toList_append, String.toList_ofList]

theorem clauses_ofClause (h : IsClause clause) : Clauses (ofClause clause) [clause] := by
  refine ⟨[[], clause], ⟨List.cons_ne_nil _ _, ?_, fun piece hpiece => ?_⟩, ?_⟩
  · rw [List.intercalate_cons_cons, List.intercalate_singleton, toList_ofClause, List.nil_append]
  · rcases List.mem_pair.mp hpiece with rfl | rfl
    · rw [List.infix_nil]
      exact marker_ne_nil
    · exact h.unmarked
  · simp [Text.trimChars_of_bare h.bare, h.nonempty]

theorem IsClause.bare_directive (h : IsClause clause) :
    Text.trim (ofClause clause) = ofClause clause := by
  have hbare : Text.Bare (marker.toList ++ clause) := by
    refine ⟨fun c hc => ?_, fun c hc => h.bare.last c ?_⟩
    · obtain rfl : c = '#' := by simpa [marker] using hc.symm
      decide
    · rwa [List.getLast?_append_of_ne_nil _ h.nonempty] at hc
  rw [Text.trim, toList_ofClause, Text.trimChars_of_bare hbare, ← toList_ofClause,
    String.ofList_toList]

theorem IsClause.expand (h : IsClause clause) (hnone : presets.find? (ofClause clause) = none) :
    expand presets (ofClause clause) = [ofClause clause] := by
  rw [Directive.expand, h.bare_directive, hnone]
  exact split_of_clauses (clauses_ofClause h)

/-! ### Directives -/

theorem expand_eq (presets : Dict String Preset) (entry : String) :
    expand presets entry = (textsOf presets entry).flatMap split := by
  rw [expand, textsOf]
  cases presets.find? (Text.trim entry) with
  | some preset => rfl
  | none => simp

theorem read?_of_entries {directives : Json} {entries : List String}
    (h : Entries directives entries) (presets : Dict String Preset) :
    read? presets directives = some (entries.flatMap (expand presets)) := by
  cases h with
  | text entry => simp [read?]
  | list entries =>
    have hentries : (entries.map Json.string).mapM Json.string? = some entries :=
      Json.list?_strings entries
    rw [Json.strings, read?, hentries, Option.map_some]

theorem exists_entries {directives : Json} {output : List String}
    (h : read? presets directives = some output) :
    ∃ entries, Entries directives entries ∧ output = entries.flatMap (expand presets) := by
  cases directives with
  | string entry =>
    have hread := read?_of_entries (.text entry) presets
    exact ⟨[entry], .text entry, Option.some.inj (h.symm.trans hread)⟩
  | array items =>
    obtain ⟨entries, hentries, rfl⟩ := Option.map_eq_some_iff.mp h
    obtain rfl := Json.mapM_string?_eq_some hentries
    exact ⟨entries, .list entries, rfl⟩
  | _ => cases h

/-- What is read are the clauses of the texts that the entries stand for, in their order. -/
theorem clauses_of_read? {directives : Json} {output : List String}
    (h : read? presets directives = some output) :
    ∃ entries clauses, Entries directives entries ∧
      List.Forall₂ Clauses (entries.flatMap (textsOf presets)) clauses ∧
      output = clauses.flatten.map ofClause := by
  obtain ⟨entries, hentries, rfl⟩ := exists_entries h
  have cut (texts : List String) : ∃ clauses, List.Forall₂ Clauses texts clauses ∧
      texts.flatMap split = clauses.flatten.map ofClause := by
    induction texts with
    | nil => exact ⟨[], .nil, rfl⟩
    | cons text texts ih =>
      obtain ⟨first, hfirst⟩ := exists_clauses text
      obtain ⟨others, hothers, hsplit⟩ := ih
      refine ⟨first :: others, .cons hfirst hothers, ?_⟩
      rw [List.flatMap_cons, hsplit, split_of_clauses hfirst, List.flatten_cons, List.map_append]
  obtain ⟨clauses, hclauses, hsplit⟩ := cut (entries.flatMap (textsOf presets))
  refine ⟨entries, clauses, hentries, hclauses, ?_⟩
  rw [← hsplit, List.flatMap_assoc]
  exact congrArg entries.flatMap (funext (expand_eq presets))

theorem isClause_of_mem_flatten {texts : List String} {clauses : List (List (List Char))}
    (h : List.Forall₂ Clauses texts clauses) : ∀ clause ∈ clauses.flatten, IsClause clause := by
  induction h with
  | nil => simp
  | cons hfirst _ ih =>
    intro clause hclause
    rcases List.mem_append.mp hclause with hclause | hclause
    · exact hfirst.isClause clause hclause
    · exact ih clause hclause

theorem read?_map_ofClause {clauses : List (List Char)} (h : ∀ clause ∈ clauses, IsClause clause)
    (hnone : ∀ clause ∈ clauses, presets.find? (ofClause clause) = none) :
    read? presets (.strings (clauses.map ofClause)) = some (clauses.map ofClause) := by
  rw [read?_of_entries (.list _) presets, List.flatMap_map]
  congr 1
  induction clauses with
  | nil => rfl
  | cons clause clauses ih =>
    rw [List.flatMap_cons, (h clause (List.mem_cons_self ..)).expand
      (hnone clause (List.mem_cons_self ..)), List.map_cons, List.singleton_append,
      ih (fun c hc => h c (List.mem_cons_of_mem _ hc))
        fun c hc => hnone c (List.mem_cons_of_mem _ hc)]

end Warren.Directive
