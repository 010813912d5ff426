import Warren.Proofs.Api.Log

/-!
# What a list with a selector finds

A selector asks for labels, part by part. The one for the objects of a workflow asks for two labels,
so a list with it finds the objects that carry both (`matchesSelector_iff`). A comma in the name of
the workflow would end the first part too early, and what is found then belongs to another name
(`not_belongsTo_of_matchesSelector`). No object is found twice.
-/

namespace Warren.Api

/-! ### Labels -/

def label? (object : Json) (key : String) : Option String :=
  (object.path? ["metadata", "labels", key]).bind Json.string?

def nameLabel : String := workflowGroup ++ "/workflow.name"

def spaceLabel : String := workflowGroup ++ "/workflow.namespace"

/-- An object carries the labels of a workflow. -/
def BelongsTo (name : String) (object : Json) : Prop :=
  label? object nameLabel = some name ∧ label? object spaceLabel = some defaultSpace

instance (name : String) (object : Json) : Decidable (BelongsTo name object) :=
  inferInstanceAs (Decidable (_ ∧ _))

/-! ### Selectors -/

/-- Whether an object carries the label that one part of a selector asks for. -/
def matchesTerm (object : Json) (term : List Char) : Bool :=
  match Text.cut? '=' term with
  | some (key, value) => label? object (String.ofList key) = some (String.ofList value)
  | none => false

theorem matchesSelector_some (object : Json) (selector : String) :
    matchesSelector object (some selector) =
      (Text.pieces ',' selector.toList).all (matchesTerm object) := rfl

theorem matchesTerm_append {key : String} (h : '=' ∉ key.toList) (object : Json)
    (value : List Char) : matchesTerm object (key.toList ++ '=' :: value) = true ↔
      label? object key = some (String.ofList value) := by
  simp [matchesTerm, Text.cut?_append_cons h]

theorem toList_workflowSelector (name : String) :
    (workflowSelector name).toList = nameLabel.toList ++ '=' :: name.toList ++
      ',' :: (spaceLabel.toList ++ '=' :: defaultSpace.toList) := by
  have h : workflowSelector name = workflowGroup ++ "/workflow" ++ ".name=" ++ name ++ "," ++
      (workflowGroup ++ "/workflow") ++ ".namespace=" ++ defaultSpace := rfl
  rw [h]
  simp [nameLabel, spaceLabel, String.toList_append]

theorem not_mem_nameLabel : ',' ∉ nameLabel.toList ∧ '=' ∉ nameLabel.toList := by decide +kernel

theorem not_mem_spaceTerm : ',' ∉ spaceLabel.toList ++ '=' :: defaultSpace.toList ∧
    '=' ∉ spaceLabel.toList := by decide +kernel

/-- The selector for a workflow asks for its labels, as long as there is no comma in the name. -/
theorem matchesSelector_iff {name : String} (h : ',' ∉ name.toList) (object : Json) :
    matchesSelector object (some (workflowSelector name)) = true ↔ BelongsTo name object := by
  have hterm : ',' ∉ nameLabel.toList ++ '=' :: name.toList := by
    simp [not_mem_nameLabel.1, h]
  rw [matchesSelector_some, toList_workflowSelector, Text.pieces_append_cons hterm,
    Text.pieces_of_not_mem not_mem_spaceTerm.1, List.all_cons, List.all_cons, List.all_nil,
    Bool.and_true, Bool.and_eq_true, matchesTerm_append not_mem_nameLabel.2,
    matchesTerm_append not_mem_spaceTerm.2, String.ofList_toList, String.ofList_toList, BelongsTo]

/-- With a comma in the name, the selector asks for what stands in front of it. -/
theorem not_belongsTo_of_matchesSelector {name : String} (h : ',' ∈ name.toList) {object : Json}
    (hmatches : matchesSelector object (some (workflowSelector name)) = true) :
    ¬BelongsTo name object := by
  obtain ⟨first, rest, hname, hfirst⟩ := List.eq_append_cons_of_mem h
  have hterm : ',' ∉ nameLabel.toList ++ '=' :: first := by
    simp [not_mem_nameLabel.1, hfirst]
  have hlist : (workflowSelector name).toList = nameLabel.toList ++ '=' :: first ++
      ',' :: (rest ++ ',' :: (spaceLabel.toList ++ '=' :: defaultSpace.toList)) := by
    rw [toList_workflowSelector, hname]
    simp
  rw [matchesSelector_some, hlist, Text.pieces_append_cons hterm, List.all_cons, Bool.and_eq_true,
    matchesTerm_append not_mem_nameLabel.2] at hmatches
  intro hbelongs
  have hsame : String.ofList first = name := Option.some.inj (hmatches.1.symm.trans hbelongs.1)
  have hlength := congrArg (fun s => s.toList.length) hsame
  simp [hname] at hlength

/-! ### Lists -/

namespace Server

variable {s : Server}

theorem Logged.key_eq_of_object? (hs : s.Logged) {key other : Key} {object : Json}
    (h : s.object? key = some object) (h' : s.object? other = some object) : key = other := by
  obtain ⟨c, hc, -, marked⟩ := hs.exists_of_object? h
  obtain ⟨c', hc', -, marked'⟩ := hs.exists_of_object? h'
  obtain ⟨hmem, rfl⟩ := Logged.mem_of_latest? hc
  obtain ⟨hmem', rfl⟩ := Logged.mem_of_latest? hc'
  have hstring : toString c.version = toString c'.version :=
    Json.string.inj (Option.some.inj (marked.version.symm.trans marked'.version))
  have hversion : c.version = c'.version := by
    rw [← Option.some.injEq, ← Text.read?_toString, ← Text.read?_toString, hstring]
  -- versions grow along the log, so changes with the same version are the same
  have hsame : c = c' := by
    have hgrowing := List.pairwise_iff_getElem.mp hs.growing
    obtain ⟨i, hi, rfl⟩ := List.getElem_of_mem hmem
    obtain ⟨j, hj, rfl⟩ := List.getElem_of_mem hmem'
    rcases Nat.lt_trichotomy i j with h | rfl | h
    · exact absurd hversion (Nat.ne_of_lt (hgrowing i j hi hj h))
    · rfl
    · exact absurd hversion (Nat.ne_of_gt (hgrowing j i hj hi h))
  rw [hsame]

theorem Logged.nodup_objectsIn (hs : s.Logged) (kind : Kind) (scope : Scope) :
    (s.objectsIn kind scope).Nodup := by
  have hstored (p : Key × Json → Bool) : ∀ e ∈ s.objects.filter p, s.object? e.1 = some e.2 :=
    fun e he => (hs.sorted.mem_iff e.1 e.2).mp (List.mem_filter.mp he).1
  refine List.pairwise_map.mpr ((hs.sorted.filter _).imp_of_mem fun {e other} he he' hlt heq => ?_)
  have hkey : e.1 = other.1 :=
    hs.key_eq_of_object? (hstored _ e he) (heq ▸ hstored _ other he')
  rw [hkey] at hlt
  exact Std.Irrefl.irrefl other.1 hlt

/-- A list that is let through finds the first ones of the objects that match. -/
theorem run_list_of_grants (h : s.grants .list = true) (kind : Kind) (scope : Scope)
    (selector : Option String) (limit : Nat) :
    (list kind scope selector (some limit)).run s =
      (.ok (((s.objectsIn kind scope).filter (matchesSelector · selector)).take limit,
        toString s.version), s.noted (.list kind scope selector (some limit))) := by
  have hsame := sameStore_noted s (.list kind scope selector (some limit))
  rw [list, run_answer_of_grants h]
  simp only [objectsIn, hsame.objects, hsame.version, Option.getD_some]

end Server

end Warren.Api
