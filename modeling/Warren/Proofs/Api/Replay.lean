import Warren.Proofs.Api.Faults
import Warren.Proofs.Cleanup.Finalizers

/-!
# The objects of a server from its events

Whoever stores what the events of a collection add or modify, and drops what they delete, ends with
the objects of the collection (`Logged.replay_history`). A request that is answered with a fault
takes no part in this. An object that was deleted while it had finalizers goes with the patch that
takes the last of them, and not before (`object?_after_eq_none_iff`).
-/

namespace Warren.Api

/-! ### Replays -/

/-- The objects of a collection after one more event in a namespace. -/
def replayEvent (plural : String) (objects : Dict Key Json) (e : String × Event) : Dict Key Json :=
  match e.2 with
  | .added object | .modified object => objects.insert ⟨plural, e.1, nameOf object⟩ object
  | .deleted object => objects.erase ⟨plural, e.1, nameOf object⟩
  | .bookmark _ | .error .. => objects

/-- What the events of a collection, each with its namespace, make of no objects. -/
def replay (plural : String) (events : List (String × Event)) : Dict Key Json :=
  events.foldl (replayEvent plural) []

theorem sorted_replayEvent (plural : String) {objects : Dict Key Json} (h : objects.Sorted)
    (e : String × Event) : (replayEvent plural objects e).Sorted := by
  obtain ⟨space, event⟩ := e
  cases event with
  | added object => exact h.insert _ object
  | modified object => exact h.insert _ object
  | deleted object => exact h.erase _
  | bookmark version => exact h
  | error code message => exact h

theorem sorted_replay (plural : String) (events : List (String × Event)) :
    (replay plural events).Sorted := by
  have hfold (objects : Dict Key Json) (h : objects.Sorted) :
      Dict.Sorted (events.foldl (replayEvent plural) objects) := by
    induction events generalizing objects with
    | nil => exact h
    | cons e rest ih => exact ih _ (sorted_replayEvent plural h e)
  exact hfold [] Dict.sorted_nil

theorem Marked.nameOf {key : Key} {version : Nat} {object : Json}
    (h : Marked key version object) : nameOf object = key.name := by
  rw [Api.nameOf, h.name]
  rfl

theorem find?_replayEvent {c : Change} (h : c.event.Carries c.key c.version)
    (objects : Dict Key Json) (key : Key) :
    (replayEvent c.key.plural objects (c.key.space, c.event)).find? key =
      if c.key = key then c.event.stored? else objects.find? key := by
  obtain ⟨object, hobject, marked⟩ := h
  have hkey : (⟨c.key.plural, c.key.space, nameOf object⟩ : Key) = c.key := by rw [marked.nameOf]
  cases he : c.event with
  | bookmark version => simp [he, Event.object?] at hobject
  | error code message => simp [he, Event.object?] at hobject
  | deleted other =>
    obtain rfl : other = object := by simpa [he, Event.object?] using hobject
    simp only [replayEvent, hkey, Dict.find?_erase]
    rfl
  | _ other =>
    obtain rfl : other = object := by simpa [he, Event.object?] using hobject
    simp only [replayEvent, hkey, Dict.find?_insert]
    rfl

theorem find?_foldl_replayEvent {plural : String} {changes : List Change}
    (h : ∀ c ∈ changes, c.key.plural = plural ∧ c.event.Carries c.key c.version)
    (objects : Dict Key Json) (key : Key) :
    Dict.find? ((changes.map fun c => (c.key.space, c.event)).foldl (replayEvent plural) objects)
        key =
      ((changes.filter (·.key = key)).getLast?.map fun c => c.event.stored?).getD
        (objects.find? key) := by
  induction changes generalizing objects with
  | nil => rfl
  | cons c rest ih =>
    obtain ⟨hplural, hcarries⟩ := h c (List.mem_cons_self ..)
    have hrest : ∀ c ∈ rest, c.key.plural = plural ∧ c.event.Carries c.key c.version :=
      fun c hc => h c (List.mem_cons_of_mem _ hc)
    have hfirst := find?_replayEvent hcarries objects key
    rw [hplural] at hfirst
    -- a later change of the key hides what this one leaves
    rw [List.map_cons, List.foldl_cons, ih hrest, hfirst]
    by_cases hkey : c.key = key
    · rw [List.filter_cons_of_pos (by simpa using hkey), List.getLast?_cons, if_pos hkey]
      cases (rest.filter (·.key = key)).getLast? <;> rfl
    · rw [List.filter_cons_of_neg (by simpa using hkey), if_neg hkey]

namespace Server

variable {s t : Server} {key : Key}

/-- What happened in a collection, the oldest first. -/
def changesOf (s : Server) (plural : String) : List Change :=
  s.log.filter (·.key.plural = plural)

/-- The events of a collection with their namespaces, the oldest first. -/
def history (s : Server) (plural : String) : List (String × Event) :=
  (s.changesOf plural).map fun c => (c.key.space, c.event)

def collection (s : Server) (plural : String) : Dict Key Json :=
  s.objects.filter fun e => e.1.plural = plural

theorem find?_collection (s : Server) (plural : String) (key : Key) :
    (s.collection plural).find? key = if key.plural = plural then s.object? key else none := by
  have hfilter := Dict.find?_filter (fun k : Key => decide (k.plural = plural)) s.objects key
  simp only [decide_eq_true_eq] at hfilter
  exact hfilter

theorem filter_changesOf (s : Server) (plural : String) (key : Key) :
    (s.changesOf plural).filter (·.key = key) =
      if key.plural = plural then s.log.filter (·.key = key) else [] := by
  rw [changesOf, List.filter_filter]
  split
  · rename_i hplural
    refine List.filter_congr fun c _ => ?_
    by_cases hkey : c.key = key
    · simp [hkey, hplural]
    · simp [hkey]
  · rename_i hplural
    rw [List.filter_eq_nil_iff]
    intro c _ hc
    simp only [Bool.and_eq_true, decide_eq_true_eq] at hc
    exact hplural (hc.1 ▸ hc.2)

theorem Logged.replay_history (hs : s.Logged) (plural : String) :
    replay plural (s.history plural) = s.collection plural := by
  have hchanges : ∀ c ∈ s.changesOf plural,
      c.key.plural = plural ∧ c.event.Carries c.key c.version := by
    intro c hc
    obtain ⟨hlog, hplural⟩ := List.mem_filter.mp hc
    exact ⟨by simpa using hplural, hs.carries c hlog⟩
  refine Dict.Sorted.ext (sorted_replay plural _) (hs.sorted.filter _) fun key => ?_
  rw [replay, history, find?_foldl_replayEvent hchanges, find?_collection, filter_changesOf,
    Dict.find?_nil, hs.stored]
  split
  · rw [latest?]
    cases (s.log.filter (·.key = key)).getLast? <;> rfl
  · rfl

theorem Logged.growing_changesOf (hs : s.Logged) (plural : String) :
    (s.changesOf plural).Pairwise (fun a b => a.version < b.version) ∧
      ∀ c ∈ s.changesOf plural, c.version ≤ s.version :=
  ⟨hs.growing.filter _, fun c hc => (hs.numbered c (List.mem_filter.mp hc).1).2⟩

/-! ### Faults -/

theorem sameStore_run_answer {act : Server → Except Fault α × Server} {q : Request}
    {fault : Fault} (hact : ∀ t, faultOf (act t).1 = some fault → SameStore t (act t).2)
    (h : faultOf ((answer q act).run s).1 = some fault) :
    SameStore s ((answer q act).run s).2 := by
  rw [run_answer] at h ⊢
  cases hout : (s.outcome q.verb).1 with
  | none =>
    rw [hout] at h
    exact (sameStore_noted s q).trans (hact _ h)
  | some scripted => exact sameStore_noted s q

/-- A request that is answered with a fault leaves the objects and the log alone. -/
theorem sameStore_serve_of_fault {q : Request} {fault : Fault} (h : s.fault? q = some fault) :
    SameStore s (s.serve q) := by
  cases q with
  | get kind space name =>
    refine sameStore_run_answer (fun t _ => ?_) h
    cases t.object? (kind.key space name) <;> exact .refl t
  | list kind scope selector limit => exact sameStore_run_answer (fun t _ => .refl t) h
  | create kind space body =>
    refine sameStore_run_answer (fun t ht => ?_) h
    unfold applyCreate at ht ⊢
    cases hobject : t.object? (kind.key space (nameOf body)) with
    | none => simp [hobject, faultOf] at ht
    | some object => exact .refl t
  | patch kind space name body =>
    refine sameStore_run_answer (fun t ht => ?_) h
    cases hobject : t.object? (kind.key space name) with
    | none =>
      rw [applyPatch_of_none hobject]
      exact .refl t
    | some object =>
      obtain ⟨answer, hanswer⟩ := exists_answer_applyPatch hobject body
      rw [hanswer] at ht
      cases ht
  | delete kind space name =>
    refine sameStore_run_answer (fun t ht => ?_) h
    cases hobject : t.object? (kind.key space name) with
    | none =>
      rw [applyDelete_of_none hobject]
      exact .refl t
    | some object =>
      rw [answer_applyDelete hobject] at ht
      cases ht
  | watch kind scope version =>
    change faultOf (watch kind scope version s).1 = some fault at h
    change SameStore s (watch kind scope version s).2
    unfold watch at h ⊢
    split at h
    · cases h
    · exact sameStore_run_answer (fun t _ => .refl t) h

end Server

/-! ### Objects on their way out -/

/-- The object that an occurrence is to write, if there is one. -/
def Occurrence.key? : Occurrence → Option Key
  | .put key _ | .update key _ => some key
  | .request (.create kind space body) => some (kind.key space (nameOf body))
  | .request (.patch kind space name _) | .request (.delete kind space name) =>
    some (kind.key space name)
  | _ => none

/-- The patch that an occurrence asks for, if it patches the object of a key. -/
def Occurrence.patch? (key : Key) : Occurrence → Option Json
  | .request (.patch kind space name body) =>
    if kind.key space name = key then some body else none
  | _ => none

/-- A patch that leaves the time of a deletion alone, whatever it is applied to. -/
def SparesDeletion (body : Json) : Prop := ∀ object : Json,
  (object.merge body).path? ["metadata", "deletionTimestamp"] =
    object.path? ["metadata", "deletionTimestamp"]

/-- An occurrence that does nothing to an object but patch it, and leaves the time of its deletion
alone. -/
def Occurrence.OnlyPatches (key : Key) (o : Occurrence) : Prop :=
  o.key? = some key → ∃ body, o.patch? key = some body ∧ SparesDeletion body

@[simp] theorem patch?_patch (kind : Kind) (space name : String) (body : Json) :
    Occurrence.patch? (kind.key space name) (.request (.patch kind space name body)) = some body :=
  if_pos rfl

theorem exists_of_patch? {o : Occurrence} {key : Key} {body : Json} (h : o.patch? key = some body) :
    ∃ kind space name, o = .request (.patch kind space name body) ∧ kind.key space name = key := by
  cases o with
  | request asked =>
    cases asked with
    | patch kind space name other =>
      simp only [Occurrence.patch?, Option.ite_none_right_eq_some, Option.some.injEq] at h
      obtain ⟨hkey, rfl⟩ := h
      exact ⟨kind, space, name, rfl, hkey⟩
    | _ => cases h
  | _ => cases h

theorem SparesDeletion.onlyPatches {body : Json} (h : SparesDeletion body) (kind : Kind)
    (space name : String) :
    Occurrence.OnlyPatches (kind.key space name) (.request (.patch kind space name body)) :=
  fun _ => ⟨body, patch?_patch kind space name body, h⟩

theorem SparesDeletion.isDeleting {body : Json} (h : SparesDeletion body) (object : Json) :
    isDeleting (object.merge body) = isDeleting object := by
  rw [Api.isDeleting, h, Api.isDeleting]

theorem sparesDeletion_metadataPatch (field : String) (value : Json)
    (h : field ≠ "deletionTimestamp") : SparesDeletion (metadataPatch [(field, value)]) :=
  fun object => path?_metadataPatch h object value

namespace Server

variable {s t : Server} {key : Key} {o : Occurrence} {later : List Occurrence}

/-- An occurrence is a patch of the stored object of a key, it is let through, and it leaves the
object without finalizers. -/
def Releases (s : Server) (key : Key) (o : Occurrence) : Prop :=
  ∃ body object, o.patch? key = some body ∧ s.grants .patch = true ∧
    s.object? key = some object ∧ finalizersOf (object.merge body) = []

theorem object?_serve_create (s : Server) (kind : Kind) (space : String) (body : Json)
    (h : kind.key space (nameOf body) ≠ key) :
    (s.serve (.create kind space body)).object? key = s.object? key := by
  change ((create kind space body).run s).2.object? key = _
  rw [create, run_answer]
  cases (s.outcome (Request.create kind space body).verb).1 with
  | some fault => exact object?_noted s _ key
  | none =>
    rw [Option.elim_none, applyCreate]
    split
    · exact object?_noted s _ key
    · rw [object?_store, if_neg h, object?_noted]

theorem object?_serve_watch (s : Server) (kind : Kind) (scope : Scope) (version : String) :
    (s.serve (.watch kind scope version)).object? key = s.object? key := by
  change (watch kind scope version s).2.object? key = _
  unfold watch
  split
  · rfl
  · refine (congrArg (fun t : Server => t.object? key) ?_).trans
      (object?_noted s (.watch kind scope version) key)
    exact state_run_answer_of_read (fun _ => rfl) (.watch kind scope version) s

theorem object?_occur_of_ne (s : Server) (h : o.key? ≠ some key) :
    (s.occur o).object? key = s.object? key := by
  have other {k : Key} (hk : some k ≠ some key) : k ≠ key := fun he => hk (congrArg some he)
  cases o with
  | put k object => exact (object?_store s k key object _).trans (if_neg (other h))
  | update k patch => exact (object?_store s k key _ false).trans (if_neg (other h))
  | compact asEvent => rfl
  | script verb added => rfl
  | request asked =>
    cases asked with
    | get kind space name => exact object?_serve_get s kind space name key
    | list kind scope selector limit => exact object?_serve_list s kind scope selector limit key
    | create kind space body => exact object?_serve_create s kind space body (other h)
    | patch kind space name body =>
      exact (object?_serve_patch s kind space name body key).trans
        (if_neg fun hc => other h hc.1)
    | delete kind space name =>
      exact (object?_serve_delete s kind space name key).trans (if_neg fun hc => other h hc.1)
    | watch kind scope version => exact object?_serve_watch s kind scope version

theorem object?_occur_of_patch? {body : Json} (s : Server) (h : o.patch? key = some body) :
    (s.occur o).object? key =
      if s.grants .patch then (s.object? key).bind (s.patched key body) else s.object? key := by
  obtain ⟨kind, space, name, rfl, rfl⟩ := exists_of_patch? h
  have hserve := object?_serve_patch s kind space name body (kind.key space name)
  simp only [true_and] at hserve
  exact hserve

/-- An object that is being deleted goes with an occurrence that releases it, and stays on its way
out with any other. -/
theorem occur_cases_of_isDeleting {object : Json} (hobject : s.object? key = some object)
    (hdeleting : isDeleting object = true) (h : o.OnlyPatches key) :
    (s.Releases key o ∧ (s.occur o).object? key = none) ∨
      (¬s.Releases key o ∧
        ∃ next, (s.occur o).object? key = some next ∧ isDeleting next = true) := by
  -- only what writes to the key matters, and that is a patch which keeps the object on its way out
  by_cases hkey : o.key? = some key
  · obtain ⟨body, hbody, hspares⟩ := h hkey
    have hmerged : isDeleting (object.merge body) = true :=
      (hspares.isDeleting object).trans hdeleting
    have hoccur := object?_occur_of_patch? s hbody
    by_cases hgrants : s.grants .patch = true
    · rw [if_pos hgrants, hobject, Option.bind_some] at hoccur
      by_cases hfree : finalizersOf (object.merge body) = []
      · refine .inl ⟨⟨body, object, hbody, hgrants, hobject, hfree⟩, ?_⟩
        have hparting : Api.isParting (object.merge body) = true := by
          simp [Api.isParting, hmerged, hfree]
        rw [hoccur, patched, if_pos hparting]
      · refine .inr ⟨?_, s.stamped key (object.merge body), ?_, ?_⟩
        · rintro ⟨body', object', hbody', _, hobject', hfree'⟩
          rw [hbody] at hbody'
          rw [hobject] at hobject'
          cases hbody'
          cases hobject'
          exact hfree hfree'
        · have hparting : Api.isParting (object.merge body) = false := by
            simp [Api.isParting, hfree]
          rw [hoccur, patched, hparting]
          rfl
        · rw [isDeleting_stamped, hmerged]
    · rw [if_neg hgrants] at hoccur
      refine .inr ⟨?_, object, hoccur.trans hobject, hdeleting⟩
      rintro ⟨_, _, _, hgrants', _⟩
      exact hgrants hgrants'
  · have hoccur := object?_occur_of_ne s hkey
    refine .inr ⟨?_, object, hoccur.trans hobject, hdeleting⟩
    rintro ⟨body, _, hbody, _⟩
    obtain ⟨kind, space, name, rfl, rfl⟩ := exists_of_patch? hbody
    exact hkey rfl

theorem object?_after_of_none (hnone : s.object? key = none)
    (h : ∀ o ∈ later, o.OnlyPatches key) : (s.after later).object? key = none := by
  induction later generalizing s with
  | nil => exact hnone
  | cons o rest ih =>
    have hrest : ∀ o ∈ rest, o.OnlyPatches key := fun o ho => h o (List.mem_cons_of_mem _ ho)
    refine ih ?_ hrest
    by_cases hkey : o.key? = some key
    · obtain ⟨body, hbody, _⟩ := h o (List.mem_cons_self ..) hkey
      rw [object?_occur_of_patch? s hbody, hnone]
      split <;> rfl
    · exact (object?_occur_of_ne s hkey).trans hnone

/-- An object that is being deleted and only patched is gone as soon as a patch released it. -/
theorem object?_after_eq_none_iff {object : Json} (hobject : s.object? key = some object)
    (hdeleting : isDeleting object = true) (h : ∀ o ∈ later, o.OnlyPatches key) :
    (s.after later).object? key = none ↔
      ∃ before o rest, later = before ++ o :: rest ∧ (s.after before).Releases key o := by
  induction later generalizing s object with
  | nil =>
    change s.object? key = none ↔ _
    simp [hobject]
  | cons o rest ih =>
    have hrest : ∀ o ∈ rest, o.OnlyPatches key := fun o ho => h o (List.mem_cons_of_mem _ ho)
    change ((s.occur o).after rest).object? key = none ↔ _
    rcases occur_cases_of_isDeleting hobject hdeleting (h o (List.mem_cons_self ..)) with
      ⟨hreleases, hnone⟩ | ⟨hkept, next, hnext, hdeleting'⟩
    · exact iff_of_true (object?_after_of_none hnone hrest) ⟨[], o, rest, rfl, hreleases⟩
    · -- no release yet, so the split of the rest is one of the whole with this occurrence in front
      rw [ih hnext hdeleting' hrest]
      constructor
      · rintro ⟨before, o', rest', rfl, hreleases⟩
        exact ⟨o :: before, o', rest', rfl, hreleases⟩
      · rintro ⟨before, o', rest', heq, hreleases⟩
        cases before with
        | nil =>
          cases heq
          exact absurd hreleases hkept
        | cons first before =>
          cases heq
          exact ⟨before, o', rest', rfl, hreleases⟩

theorem object?_serve_delete_of_finalizers {kind : Kind} {space name : String} {object : Json}
    (hobject : s.object? (kind.key space name) = some object) (hheld : finalizersOf object ≠ [])
    (hgrants : s.grants .delete = true) :
    ∃ marked, (s.serve (.delete kind space name)).object? (kind.key space name) = some marked ∧
      isDeleting marked = true := by
  have hempty : (finalizersOf object).isEmpty = false := by simpa using hheld
  rw [object?_serve_delete, if_pos ⟨rfl, hgrants⟩, hobject, Option.bind_some, deleted, hempty]
  exact ⟨_, rfl, by rw [isDeleting_stamped, isDeleting_deletionPatch]⟩

/-- Whatever happened to a server that was empty at first: every stored object has the version of
its last change, the versions of a collection grow and are not beyond that of the server, and its
events tell its objects. A request that is answered with a fault changes none of this. An object
that a deletion left in place because of its finalizers is gone exactly if one of the patches since
then left it without them. -/
theorem event_sourced (past : List Occurrence) :
    let s := empty.after past
    (∀ key object, s.object? key = some object → ∃ c, s.latest? key = some c ∧
      object.path? ["metadata", "resourceVersion"] = some (.string (toString c.version))) ∧
    (∀ plural, (s.changesOf plural).Pairwise (fun a b => a.version < b.version) ∧
      ∀ c ∈ s.changesOf plural, c.version ≤ s.version) ∧
    (∀ plural, replay plural (s.history plural) = s.collection plural) ∧
    (∀ q, (s.fault? q).isSome = true → SameStore s (s.serve q)) ∧
    ∀ kind space name object later, s.object? (kind.key space name) = some object →
      finalizersOf object ≠ [] → s.grants .delete = true →
      (∀ o ∈ later, o.OnlyPatches (kind.key space name)) →
      let marked := s.serve (.delete kind space name)
      ((marked.after later).object? (kind.key space name) = none ↔
        ∃ before o rest, later = before ++ o :: rest ∧
          (marked.after before).Releases (kind.key space name) o) := by
  intro s
  have hlogged : s.Logged := (logged_after logged_empty rfl past).1
  refine ⟨?_, hlogged.growing_changesOf, hlogged.replay_history, ?_, ?_⟩
  · intro key object hobject
    obtain ⟨c, hlatest, _, hmarked⟩ := hlogged.exists_of_object? hobject
    exact ⟨c, hlatest, hmarked.version⟩
  · intro q hfault
    obtain ⟨fault, hfault⟩ := Option.isSome_iff_exists.mp hfault
    exact sameStore_serve_of_fault hfault
  · intro kind space name object later hobject hheld hgrants hpatches marked
    obtain ⟨left, hleft, hdeleting⟩ := object?_serve_delete_of_finalizers hobject hheld hgrants
    exact object?_after_eq_none_iff hleft hdeleting hpatches

/-- The theorem applies to a workflow that is deleted while it has a finalizer: it stays while it
gets a label, and goes when the finalizer is taken. -/
theorem event_sourced_released :
    let key := Kind.workflow.key defaultSpace "fluxjob-1"
    let past : List Occurrence :=
      [.put key (metadataPatch [("finalizers", .strings [Cleanup.finalizer])])]
    let labeling : Occurrence := .request (.patch .workflow defaultSpace "fluxjob-1"
      (metadataPatch [("labels", .ofFields [("rack", .string "r1")])]))
    let release : Occurrence := .request (.patch .workflow defaultSpace "fluxjob-1"
      (Cleanup.finalizersPatch [Cleanup.finalizer]))
    let marked := (empty.after past).serve (.delete .workflow defaultSpace "fluxjob-1")
    (∃ object, (empty.after past).object? key = some object ∧ finalizersOf object ≠ []) ∧
      (∀ o ∈ [labeling, release], o.OnlyPatches key) ∧
      ((marked.after [labeling]).object? key).isSome = true ∧
      (marked.after [labeling, release]).object? key = none := by
  intro key past labeling release marked
  have held : ((empty.after past).object? key).any
      (fun object => finalizersOf object ≠ []) = true := by decide +kernel
  have left : ((marked.after [labeling]).object? key).any (fun object =>
      finalizersOf (object.merge (Cleanup.finalizersPatch [Cleanup.finalizer])) = []) = true := by
    decide +kernel
  obtain ⟨object, hobject, hheld⟩ := (Option.any_eq_true _ _).mp held
  obtain ⟨labeled, hlabeled, hfree⟩ := (Option.any_eq_true _ _).mp left
  have patches : ∀ o ∈ [labeling, release], o.OnlyPatches key := by
    intro o ho
    simp only [List.mem_cons, List.not_mem_nil, or_false] at ho
    rcases ho with rfl | rfl
    · exact (sparesDeletion_metadataPatch "labels" _ (by decide)).onlyPatches .workflow _ _
    · exact (sparesDeletion_metadataPatch "finalizers" _ (by decide)).onlyPatches .workflow _ _
  have releases : (marked.after [labeling]).Releases key release :=
    ⟨_, labeled, patch?_patch .., by decide +kernel, hlabeled, by simpa using hfree⟩
  obtain ⟨_, _, _, _, hgone⟩ := event_sourced past
  have hheld' : finalizersOf object ≠ [] := by simpa using hheld
  refine ⟨⟨object, hobject, hheld'⟩, patches, by rw [hlabeled]; rfl, ?_⟩
  exact (hgone .workflow defaultSpace "fluxjob-1" object [labeling, release] hobject hheld'
    (by decide +kernel) patches).mpr ⟨[labeling], release, [], rfl, releases⟩

end Server

end Warren.Api
