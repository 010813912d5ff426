import Warren.Proofs.Api.Glance

/-!
# Servers on which the same conversation is held twice

Setting a job up reads its workflow and the breakdowns, and writes one path of some objects.
`Akin` servers answer alike whatever was written there; `Twin` follows a second run beside the
first: every object is as in the first run so far, or as the first run left it.
-/

namespace Warren.Api

/-! ### Objects without what is written -/

/-- The path that setting a job up writes in an object. -/
def Key.path (key : Key) : List String :=
  if key.plural = Kind.computes.plural then ["data"]
  else if key.plural = Kind.servers.plural then ["spec", "allocationSets"]
  else ["spec", "desiredState"]

/-- What setting a job up writes into an object. -/
def Key.writing (key : Key) (value : Json) : Json := Json.nested key.path value

/-- A stored object without its version and what setting a job up writes. -/
def Key.blank (key : Key) (object : Json) : Json :=
  (key.bare object).merge (key.writing (.string ""))

/-- What a workflow says of its status, if it is readable. -/
def glance (object : Json) : Option (Option Workflow.Status) :=
  (Workflow.decode? object).map Workflow.status

variable {key : Key} {value : Json}

theorem exists_writing (h : value.IsLeaf) (key : Key) :
    ∃ field part : _, field ≠ "metadata" ∧ Json.isNull part = false ∧
      key.writing value = .object [(field, part)] := by
  unfold Key.writing Key.path
  split
  · exact ⟨"data", value, by decide, h.isNull, rfl⟩
  · split
    · exact ⟨"spec", .object [("allocationSets", value)], by decide, rfl, rfl⟩
    · exact ⟨"spec", .object [("desiredState", value)], by decide, rfl, rfl⟩

theorem sparesStamp_writing (h : value.IsLeaf) (key : Key) : SparesStamp (key.writing value) := by
  obtain ⟨field, part, hfield, hpart, heq⟩ := exists_writing h key
  rw [heq]
  exact sparesStamp_of_field hfield hpart

theorem isParting_writing (h : value.IsLeaf) (key : Key) (object : Json) :
    isParting (object.merge (key.writing value)) = isParting object := by
  obtain ⟨field, part, hfield, -, heq⟩ := exists_writing h key
  rw [heq]
  exact isParting_merge_of_field hfield object part

theorem isParting_blank (key : Key) (object : Json) :
    isParting (key.blank object) = isParting object := by
  rw [Key.blank, isParting_writing (Json.isLeaf_string _), isParting_bare]

theorem overrides_writing (h : value.IsLeaf) {other : Json} (h' : other.IsLeaf) (key : Key) :
    Json.Overrides (key.writing value) (key.writing other) := Json.overrides_nested h h' key.path

theorem blank_merge (h : value.IsLeaf) (key : Key) (object : Json) :
    key.blank (object.merge (key.writing value)) = key.blank object := by
  rw [Key.blank, Key.blank, (sparesStamp_writing h key).bare_merge,
    overrides_writing (Json.isLeaf_string _) h]

theorem blank_stamped (s : Server) (key : Key) (object : Json) :
    key.blank (s.stamped key object) = key.blank object := by
  rw [Key.blank, Key.blank, bare_stamped]

theorem bare_merge_of_blank (h : value.IsLeaf) {object other : Json}
    (hblank : key.blank object = key.blank other) :
    key.bare (object.merge (key.writing value)) = key.bare (other.merge (key.writing value)) := by
  have through (object : Json) : key.bare (object.merge (key.writing value)) =
      (key.blank object).merge (key.writing value) := by
    rw [Key.blank, overrides_writing h (Json.isLeaf_string _),
      (sparesStamp_writing h key).bare_merge]
  rw [through, through, hblank]

namespace Server

variable {s t origin last : Server}

/-! ### Servers that answer alike -/

/-- The same objects are there, apart from what is written, and the breakdowns are the same. -/
structure Akin (s t : Server) : Prop where
  blanks : ∀ key, (t.object? key).map key.blank = (s.object? key).map key.blank
  breakdowns : ∀ space name, t.object? (Kind.breakdown.key space name) =
    s.object? (Kind.breakdown.key space name)

instance : Std.Refl Akin := ⟨fun _ => ⟨fun _ => rfl, fun _ _ => rfl⟩⟩

instance : Trans Akin Akin Akin where
  trans h h' := ⟨fun key => (h'.blanks key).trans (h.blanks key),
    fun space name => (h'.breakdowns space name).trans (h.breakdowns space name)⟩

theorem Akin.symm (h : Akin s t) : Akin t s :=
  ⟨fun key => (h.blanks key).symm, fun space name => (h.breakdowns space name).symm⟩

theorem akin_noted (s : Server) (q : Request) : Akin s (s.noted q) where
  blanks key := by rw [object?_noted]
  breakdowns space name := object?_noted s q _

theorem Akin.exists_object (h : Akin s t) {object : Json} (hobject : s.object? key = some object) :
    ∃ other, t.object? key = some other ∧ key.blank other = key.blank object := by
  have hmap := h.blanks key
  rw [hobject, Option.map_some] at hmap
  exact Option.map_eq_some_iff.mp hmap

theorem Akin.object?_eq_none (h : Akin s t) (hnone : s.object? key = none) :
    t.object? key = none := by
  have hmap := h.blanks key
  rw [hnone, Option.map_none] at hmap
  exact Option.map_eq_none_iff.mp hmap

theorem Akin.nonePart (h : Akin s t) (hs : s.NonePart) : t.NonePart := by
  intro key object hobject
  obtain ⟨before, hbefore, hblank⟩ := h.symm.exists_object hobject
  rw [← isParting_blank key, ← hblank, isParting_blank]
  exact hs key before hbefore

theorem object?_writing (hs : s.NonePart) (h : value.IsLeaf) (key other : Key) :
    (s.applyPatch key (key.writing value)).2.object? other =
      if key = other then (s.object? key).map fun object =>
        s.stamped key (object.merge (key.writing value))
      else s.object? other := by
  rw [object?_applyPatch]
  cases hobject : s.object? key with
  | none => rfl
  | some object =>
    have hparting : Api.isParting (object.merge (key.writing value)) = false :=
      (isParting_writing h key object).trans (hs key object hobject)
    simp [patched, hparting]

/-- What setting a job up writes makes no difference to the rest. -/
theorem akin_applyPatch (hs : s.NonePart) (h : value.IsLeaf)
    (hbreakdown : key.plural ≠ Kind.breakdown.plural) :
    Akin s (s.applyPatch key (key.writing value)).2 where
  blanks other := by
    rw [object?_writing hs h]
    split
    · rename_i hkey
      subst hkey
      cases s.object? key with
      | none => rfl
      | some object =>
        rw [Option.map_some, Option.map_some, Option.map_some, blank_stamped, blank_merge h]
    · rfl
  breakdowns space name := by
    rw [object?_writing hs h, if_neg fun hkey => hbreakdown (congrArg Key.plural hkey)]

/-! ### A second run beside the first -/

/-- A run that is at `t` beside the same run at `s`, which began at `origin`. The run at `t` began
where the one at `s` is to end, at `last`. -/
structure Twin (origin last s t : Server) : Prop where
  akin : Akin s t
  first : Akin s last
  contents : ∀ key, (t.object? key).map unversioned = (s.object? key).map unversioned ∨
    (t.object? key).map unversioned = (last.object? key).map unversioned
  workflows : ∀ name, s.workflow? name = origin.workflow? name ∧
    t.workflow? name = last.workflow? name
  glances : ∀ name, (last.workflow? name).map glance = (origin.workflow? name).map glance
  willing : s.IsWilling ∧ t.IsWilling
  nonePart : s.NonePart

theorem twin_self (hwilling : s.IsWilling) (hpart : s.NonePart) : Twin s s s s :=
  ⟨Std.Refl.refl s, Std.Refl.refl s, fun _ => Or.inl rfl, fun _ => ⟨rfl, rfl⟩, fun _ => rfl,
    ⟨hwilling, hwilling⟩, hpart⟩

theorem twin_of_akin (h : Akin s t)
    (hglances : ∀ name, (t.workflow? name).map glance = (s.workflow? name).map glance)
    (hwilling : s.IsWilling ∧ t.IsWilling) (hpart : s.NonePart) : Twin s t s t :=
  ⟨h, h, fun _ => Or.inr rfl, fun _ => ⟨rfl, rfl⟩, hglances, hwilling, hpart⟩

theorem Twin.sameContents (h : Twin origin s s t) : SameContents s t :=
  fun key => (h.contents key).elim id id

theorem Twin.noted (h : Twin origin last s t) (q q' : Request) :
    Twin origin last (s.noted q) (t.noted q') where
  akin := Trans.trans (akin_noted s q).symm (Trans.trans h.akin (akin_noted t q') : Akin s _)
  first := Trans.trans (akin_noted s q).symm h.first
  contents key := by
    rw [object?_noted, object?_noted]
    exact h.contents key
  workflows name := ⟨(object?_noted s q _).trans (h.workflows name).1,
    (object?_noted t q' _).trans (h.workflows name).2⟩
  glances := h.glances
  willing := ⟨h.willing.1.noted q, h.willing.2.noted q'⟩
  nonePart := h.nonePart.noted q

theorem Twin.contents_applyPatch (h : Twin origin last s t) (hvalue : value.IsLeaf)
    (key other : Key) :
    let s' := (s.applyPatch key (key.writing value)).2
    let t' := (t.applyPatch key (key.writing value)).2
    (t'.object? other).map unversioned = (s'.object? other).map unversioned ∨
      (t'.object? other).map unversioned = (last.object? other).map unversioned := by
  intro s' t'
  have hs' := object?_writing h.nonePart hvalue key other
  have ht' := object?_writing (h.akin.nonePart h.nonePart) hvalue key other
  rw [hs', ht']
  by_cases hkey : key = other
  · -- both runs write the same, and what was there before makes no difference
    subst hkey
    rw [if_pos rfl, if_pos rfl]
    cases hobject : s.object? key with
    | none =>
      rw [h.akin.object?_eq_none hobject]
      exact Or.inl rfl
    | some object =>
      obtain ⟨twin, htwin, hblank⟩ := h.akin.exists_object hobject
      refine Or.inl ?_
      rw [htwin, Option.map_some, Option.map_some, Option.map_some, Option.map_some,
        unversioned_stamped, unversioned_stamped, bare_merge_of_blank hvalue hblank]
  · rw [if_neg hkey, if_neg hkey]
    exact h.contents other

theorem Twin.applyPatch (h : Twin origin last s t) (hvalue : value.IsLeaf)
    (hbreakdown : key.plural ≠ Kind.breakdown.plural)
    (hworkflow : key.plural ≠ Kind.workflow.plural) :
    Twin origin last (s.applyPatch key (key.writing value)).2
      (t.applyPatch key (key.writing value)).2 := by
  have hpart' : t.NonePart := h.akin.nonePart h.nonePart
  have kept : Akin s (s.applyPatch key (key.writing value)).2 :=
    akin_applyPatch h.nonePart hvalue hbreakdown
  have kept' : Akin t (t.applyPatch key (key.writing value)).2 :=
    akin_applyPatch hpart' hvalue hbreakdown
  have same {u : Server} (hu : u.NonePart) (name : String) :
      (u.applyPatch key (key.writing value)).2.workflow? name = u.workflow? name := by
    have hne : key ≠ workflowKey name := fun hkey => hworkflow (congrArg Key.plural hkey)
    exact (object?_writing hu hvalue key (workflowKey name)).trans (if_neg hne)
  exact {
    akin := Trans.trans kept.symm (Trans.trans h.akin kept' : Akin s _)
    first := Trans.trans kept.symm h.first
    contents := fun other => h.contents_applyPatch hvalue key other
    workflows := fun name =>
      ⟨(same h.nonePart name).trans (h.workflows name).1,
        (same hpart' name).trans (h.workflows name).2⟩
    glances := h.glances
    willing := ⟨isWilling_applyPatch h.willing.1 _ _, isWilling_applyPatch h.willing.2 _ _⟩
    nonePart := kept.nonePart h.nonePart }

end Server

theorem writing_workflowKey (name : String) (stage : Stage) :
    (workflowKey name).writing stage.encode = stagePatch stage := rfl

/-- A server after it granted a request for a stage. -/
def Server.staged (s : Server) (name : String) (stage : Stage) : Server :=
  ((s.noted (stageRequest name stage)).applyPatch (workflowKey name) (stagePatch stage)).2

theorem Server.isWilling_staged {s : Server} (h : s.IsWilling) (name : String) (stage : Stage) :
    (s.staged name stage).IsWilling := isWilling_applyPatch (h.noted _) _ _

theorem Server.sameContents_staged (s : Server) (name : String) (stage : Stage) :
    SameContents (s.staged name stage) ((s.staged name stage).staged name stage) := by
  have settled : (s.staged name stage).Settled (workflowKey name) (stagePatch stage) :=
    settled_applyPatch (sparesStamp_stagePatch stage) (overrides_stagePatch stage) _ _
  have noted : ((s.staged name stage).noted (stageRequest name stage)).Settled (workflowKey name)
      (stagePatch stage) := settled_noted settled _
  exact Trans.trans (sameContents_noted (s.staged name stage) (stageRequest name stage))
    noted.sameContents

theorem Server.akin_staged {s : Server} (hpart : s.NonePart) (name : String) (stage : Stage) :
    Akin s (s.staged name stage) := by
  have hbreakdown : (workflowKey name).plural ≠ Kind.breakdown.plural := by
    change Kind.workflow.plural ≠ Kind.breakdown.plural
    decide
  have hleaf : stage.encode.IsLeaf := Json.isLeaf_string _
  exact Trans.trans (akin_noted s (stageRequest name stage))
    (akin_applyPatch (hpart.noted _) hleaf hbreakdown)

theorem Server.workflow?_staged {s : Server} (hpart : s.NonePart) (name : String) (stage : Stage)
    (other : String) : (s.staged name stage).workflow? other =
      if name = other then (s.workflow? name).map fun object =>
        (s.noted (stageRequest name stage)).stamped (workflowKey name)
          (object.merge (stagePatch stage))
      else s.workflow? other := by
  have hleaf : stage.encode.IsLeaf := Json.isLeaf_string _
  have hafter := object?_writing (hpart.noted (stageRequest name stage)) hleaf (workflowKey name)
    (workflowKey other)
  rw [writing_workflowKey] at hafter
  rw [staged, workflow?, hafter, object?_noted, object?_noted]
  by_cases hname : name = other
  · subst hname
    rw [if_pos rfl, if_pos rfl]
    rfl
  · rw [if_neg hname, if_neg fun hkey => hname (congrArg Key.name hkey)]
    rfl

theorem Server.Twin.staged {origin s t : Server} {name : String} {stage : Stage}
    (h : Twin origin (s.staged name stage) s t) :
    SameContents (s.staged name stage) (t.staged name stage) := by
  intro other
  have hnoted := h.noted (stageRequest name stage) (stageRequest name stage)
  have hleaf : stage.encode.IsLeaf := Json.isLeaf_string _
  exact (hnoted.contents_applyPatch hleaf (workflowKey name) other).elim id id

/-- A request for a stage leaves the status of every workflow readable that was readable, if the
specification of that workflow is no array. -/
theorem glances_staged {s : Server} {name : String} {fields : Dict String Json} {w : Workflow}
    (hpart : s.NonePart) (hobject : s.workflow? name = some (.object fields))
    (hw : Workflow.decode? (.object fields) = some w)
    (hspec : ∀ items, fields.find? "spec" ≠ some (.array items)) (stage : Stage)
    (other : String) :
    ((s.staged name stage).workflow? other).map glance = (s.workflow? other).map glance := by
  rw [Server.workflow?_staged hpart]
  split
  · rename_i hname
    subst hname
    obtain ⟨w', hw', hstatus⟩ := Workflow.status_of_requested hw hspec stage (workflowKey name)
      (toString ((s.noted (stageRequest name stage)).version + 1))
    rw [hobject, Option.map_some, Option.map_some, Option.map_some, stamped_eq, glance, glance, hw',
      hw, Option.map_some, Option.map_some, hstatus]
  · rfl

/-! ### Requests of both runs -/

open Server (Twin)

variable {s t origin last : Server}

theorem lockstep_observe {α : Type} {Q : α → α → Prop} {R : Server → Server → Prop}
    {x y : Call α} (h : Lockstep (fun a b s' t' => Q a b ∧ R s' t') R x y s t) :
    Lockstep (fun out out' s' t' => ((∃ a b, out = .ok a ∧ out' = .ok b ∧ Q a b) ∨
        ∃ fault, out = .error fault ∧ out' = .error fault) ∧ R s' t') R
      (observe x) (observe y) s t := by
  obtain ⟨a, b, s', t', hx, hy, hQ, hR⟩ | ⟨fault, s', t', hx, hy, hR⟩ := h.cases
  · have hs : (observe x).run s = (.ok (.ok a), s') := by rw [run_observe, hx]
    have ht : (observe y).run t = (.ok (.ok b), t') := by rw [run_observe, hy]
    exact .of_ok hs ht ⟨Or.inl ⟨a, b, rfl, rfl, hQ⟩, hR⟩
  · have hs : (observe x).run s = (.ok (.error fault), s') := by rw [run_observe, hx]
    have ht : (observe y).run t = (.ok (.error fault), t') := by rw [run_observe, hy]
    exact .of_ok hs ht ⟨Or.inr ⟨fault, rfl, rfl⟩, hR⟩

theorem lockstep_getWorkflow (h : Twin origin last s t) (name : String) :
    Lockstep (fun object other s' t' => (origin.workflow? name = some object ∧
        glance other = glance object) ∧ Twin origin last s' t')
      (Twin origin last) (getWorkflow name) (getWorkflow name) s t := by
  have hs := h.willing.1.run_get .workflow defaultSpace name
  have ht := h.willing.2.run_get .workflow defaultSpace name
  have hglance : (t.workflow? name).map glance = (s.workflow? name).map glance := by
    rw [(h.workflows name).1, (h.workflows name).2, h.glances name]
  cases hobject : s.workflow? name with
  | none =>
    rw [hobject, Option.map_none, Option.map_eq_none_iff] at hglance
    rw [show s.object? (Kind.workflow.key defaultSpace name) = none from hobject] at hs
    rw [show t.object? (Kind.workflow.key defaultSpace name) = none from hglance] at ht
    exact .of_error hs ht (h.noted _ _)
  | some object =>
    rw [hobject, Option.map_some] at hglance
    obtain ⟨other, hother, heq⟩ := Option.map_eq_some_iff.mp hglance
    rw [show s.object? (Kind.workflow.key defaultSpace name) = some object from hobject] at hs
    rw [show t.object? (Kind.workflow.key defaultSpace name) = some other from hother] at ht
    exact .of_ok hs ht ⟨⟨(h.workflows name).1.symm.trans hobject, heq⟩, h.noted _ _⟩

theorem lockstep_getBreakdown (h : Twin origin last s t) (space name : String) :
    Lockstep (fun object other s' t' => object = other ∧ Twin origin last s' t')
      (Twin origin last) (get .breakdown space name) (get .breakdown space name)
      s t := by
  have hs := h.willing.1.run_get .breakdown space name
  have ht := h.willing.2.run_get .breakdown space name
  rw [h.akin.breakdowns space name] at ht
  cases hobject : s.object? (Kind.breakdown.key space name) with
  | none =>
    rw [hobject] at hs ht
    exact .of_error hs ht (h.noted _ _)
  | some object =>
    rw [hobject] at hs ht
    exact .of_ok hs ht ⟨rfl, h.noted _ _⟩

theorem lockstep_decoded {α : Type} (h : Twin origin last s t) (decode : Decoder α)
    (object : Json) :
    Lockstep (fun a b s' t' => a = b ∧ Twin origin last s' t')
      (Twin origin last) (decoded decode object) (decoded decode object) s t := by
  unfold decoded
  cases decode object with
  | none => exact .of_error rfl rfl h
  | some a => exact .of_ok rfl rfl ⟨rfl, h⟩

theorem lockstep_writing (h : Twin origin last s t) (hvalue : value.IsLeaf) (kind : Kind)
    (space name : String) (hbreakdown : kind.plural ≠ Kind.breakdown.plural)
    (hworkflow : kind.plural ≠ Kind.workflow.plural) :
    Lockstep (fun _ _ s' t' => Twin origin last s' t') (Twin origin last)
      (discard (patch kind space name ((kind.key space name).writing value)))
      (discard (patch kind space name ((kind.key space name).writing value))) s t := by
  let key : Key := kind.key space name
  let q : Request := .patch kind space name (key.writing value)
  have run {u : Server} (hu : u.IsWilling) :
      (discard (patch kind space name (key.writing value))).run u =
        (((u.noted q).applyPatch key (key.writing value)).1.map fun _ => PUnit.unit,
          ((u.noted q).applyPatch key (key.writing value)).2) := by
    rw [run_discard, hu.run_patch]
  have noted : Twin origin last (s.noted q) (t.noted q) := h.noted q q
  have written : Twin origin last ((s.noted q).applyPatch key (key.writing value)).2
      ((t.noted q).applyPatch key (key.writing value)).2 :=
    noted.applyPatch hvalue hbreakdown hworkflow
  have hs := run h.willing.1
  have ht := run h.willing.2
  cases hobject : (s.noted q).object? key with
  | none =>
    rw [Server.applyPatch_of_none hobject] at hs
    rw [Server.applyPatch_of_none (noted.akin.object?_eq_none hobject)] at ht
    exact .of_error hs ht noted
  | some object =>
    obtain ⟨other, hother, _⟩ := noted.akin.exists_object hobject
    obtain ⟨answer, hanswer⟩ := Server.exists_answer_applyPatch hobject (key.writing value)
    obtain ⟨answer', hanswer'⟩ := Server.exists_answer_applyPatch hother (key.writing value)
    rw [hanswer] at hs
    rw [hanswer'] at ht
    exact .of_ok hs ht written

end Warren.Api
