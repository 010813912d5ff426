import Warren.Proofs.Api.Serving
import Warren.Proofs.Dict
import Warren.Proofs.Json.Merge
import Warren.Proofs.Text.Numeral

/-!
# The log of a server

Clients change a server by requests, and tests by hand. Whatever they do, a server only ever stores
or removes one object at a time and notes that in its log under the next version (`Evolves`), so the
log tells the stored objects: the last change of a key has the object that is stored under it
(`Logged`).
-/

namespace Warren.Api

/-! ### Keys -/

instance : Std.Irrefl (α := Key) (· < ·) where
  irrefl a h := by
    rcases h with h | ⟨_, h | ⟨_, h⟩⟩ <;> exact String.lt_irrefl _ h

instance : Trans (α := Key) (· < ·) (· < ·) (· < ·) where
  trans := by
    intro a b c hab hbc
    rcases hab with hab | ⟨hplural, hab⟩
    · rcases hbc with hbc | ⟨hplural', _⟩
      · exact Or.inl (String.lt_trans hab hbc)
      · exact Or.inl (hplural' ▸ hab)
    · rcases hbc with hbc | ⟨hplural', hbc⟩
      · exact Or.inl (hplural ▸ hbc)
      · refine Or.inr ⟨hplural.trans hplural', ?_⟩
        rcases hab with hab | ⟨hspace, hab⟩
        · rcases hbc with hbc | ⟨hspace', _⟩
          · exact Or.inl (String.lt_trans hab hbc)
          · exact Or.inl (hspace' ▸ hab)
        · rcases hbc with hbc | ⟨hspace', hbc⟩
          · exact Or.inl (hspace ▸ hbc)
          · exact Or.inr ⟨hspace.trans hspace', String.lt_trans hab hbc⟩

instance : Std.Trichotomous (α := Key) (· < ·) where
  trichotomous := by
    intro a b hab hba
    have same {x y : String} (hxy : ¬x < y) (hyx : ¬y < x) : x = y :=
      String.le_antisymm (String.not_lt.mp hyx) (String.not_lt.mp hxy)
    have hplural : a.plural = b.plural :=
      same (fun h => hab (Or.inl h)) fun h => hba (Or.inl h)
    have hspace : a.space = b.space :=
      same (fun h => hab (Or.inr ⟨hplural, Or.inl h⟩)) fun h =>
        hba (Or.inr ⟨hplural.symm, Or.inl h⟩)
    have hname : a.name = b.name :=
      same (fun h => hab (Or.inr ⟨hplural, Or.inr ⟨hspace, h⟩⟩)) fun h =>
        hba (Or.inr ⟨hplural.symm, Or.inr ⟨hspace.symm, h⟩⟩)
    cases a
    cases b
    simp_all

/-! ### What an event says -/

namespace Event

/-- The name of the object of an event. -/
def name? (e : Event) : Option String :=
  (e.object?.bind (·.path? ["metadata", "name"])).bind Json.string?

/-- The version of an event as a number. -/
def number? (e : Event) : Option Nat :=
  e.version?.bind fun version => Text.read? Text.decimalDigits version.toList

/-- The object that is stored after an event. -/
def stored? : Event → Option Json
  | .added object | .modified object => some object
  | _ => none

end Event

/-- An object carries the name of its key, and a version. -/
structure Marked (key : Key) (version : Nat) (object : Json) : Prop where
  name : object.path? ["metadata", "name"] = some (.string key.name)
  version : object.path? ["metadata", "resourceVersion"] = some (.string (toString version))

/-- An event is about an object with the marks of a key and a version. -/
def Event.Carries (key : Key) (version : Nat) (e : Event) : Prop :=
  ∃ object, e.object? = some object ∧ Marked key version object

namespace Event.Carries

variable {key : Key} {version : Nat} {e : Event}

theorem name? (h : e.Carries key version) : e.name? = some key.name := by
  obtain ⟨object, hobject, marked⟩ := h
  simp only [Event.name?, hobject, Option.bind_some, marked.name, Json.string?]

theorem version? (h : e.Carries key version) : e.version? = some (toString version) := by
  obtain ⟨object, hobject, marked⟩ := h
  cases e with
  | bookmark => cases hobject
  | error => cases hobject
  | _ => simp only [Event.version?, hobject, Option.bind_some, marked.version, Json.string?]

theorem number? (h : e.Carries key version) : e.number? = some version := by
  simp only [Event.number?, h.version?, Option.bind_some, Text.read?_toString]

end Event.Carries

theorem marked_stamped (s : Server) (key : Key) (object : Json) :
    Marked key (s.version + 1) (s.stamped key object) := by
  have hpatch : metadataPatch [("name", .string key.name), ("namespace", .string key.space),
      ("resourceVersion", .string (toString (s.version + 1)))] =
      .object [("metadata", .object [("name", .string key.name), ("namespace", .string key.space),
        ("resourceVersion", .string (toString (s.version + 1)))])] := by
    simp only [metadataPatch, Json.ofFields, Dict.ofEntries, Dict.insert, List.foldl_cons,
      List.foldl_nil, String.reduceEq, String.reduceLT, if_false]
  unfold Server.stamped
  rw [hpatch]
  constructor
  · rw [Json.path?_merge_inner]
    simp [Json.mergeFields, Json.find?_mergeField, Json.isNull, Json.merge_string]
  · rw [Json.path?_merge_inner]
    simp [Json.mergeFields, Json.find?_mergeField, Json.isNull, Json.merge_string]

theorem Marked.renumber {key : Key} {version : Nat} {object : Json} (h : Marked key version object)
    (next : Nat) : Marked key next
      (object.merge (metadataPatch [("resourceVersion", .string (toString next))])) := by
  have hpatch : metadataPatch [("resourceVersion", .string (toString next))] =
      .object [("metadata", .object [("resourceVersion", .string (toString next))])] := by
    simp [metadataPatch, Json.ofFields, Dict.ofEntries, Dict.insert]
  rw [hpatch]
  constructor
  · have hname := h.name
    rw [Json.path?_merge_inner]
    rw [Json.path?_cons] at hname
    cases hf : object.field? "metadata" with
    | none => simp [hf] at hname
    | some metadata =>
      rw [hf, Option.bind_some, Json.path?_cons] at hname
      have hfield : metadata.fields.find? "name" = some (.string key.name) := by
        simpa [Json.field?] using hname
      simp [Json.mergeFields, Json.find?_mergeField, hfield]
  · rw [Json.path?_merge_inner]
    simp [Json.mergeFields, Json.find?_mergeField, Json.isNull, Json.merge_string]

namespace Server

variable {s t u : Server}

/-! ### What is stored and noted -/

/-- Two servers with the same objects and the same log. -/
structure SameStore (s t : Server) : Prop where
  objects : t.objects = s.objects
  log : t.log = s.log
  version : t.version = s.version
  scripted : t.scripted = s.scripted

theorem SameStore.refl (s : Server) : SameStore s s := ⟨rfl, rfl, rfl, rfl⟩

theorem SameStore.trans (h : SameStore s t) (h' : SameStore t u) : SameStore s u :=
  ⟨h'.objects.trans h.objects, h'.log.trans h.log, h'.version.trans h.version,
    h'.scripted.trans h.scripted⟩

theorem SameStore.object? (h : SameStore s t) (key : Key) : t.object? key = s.object? key := by
  simp only [Server.object?, h.objects]

theorem sameStore_noted (s : Server) (q : Request) : SameStore s (s.noted q) := by
  unfold noted outcome receive
  dsimp only
  constructor <;> split <;> rfl

/-- A server notes one more change, and stores its object or removes it. -/
structure Records (s t : Server) (c : Change) : Prop where
  log : t.log = s.log ++ [c]
  version : t.version = s.version + 1
  number : c.version = s.version + 1
  carries : c.event.Carries c.key c.version
  object? : ∀ key, t.object? key = if c.key = key then c.event.stored? else s.object? key
  sorted : s.objects.Sorted → t.objects.Sorted
  scripted : t.scripted = s.scripted

theorem SameStore.records {c : Change} (h : SameStore s t) (h' : Records t u c) :
    Records s u c where
  log := by rw [h'.log, h.log]
  version := by rw [h'.version, h.version]
  number := by rw [h'.number, h.version]
  carries := h'.carries
  object? key := by rw [h'.object?, h.object?]
  sorted hs := h'.sorted (h.objects ▸ hs)
  scripted := h'.scripted.trans h.scripted

theorem records_store (s : Server) (key : Key) (object : Json) (isNew : Bool) :
    Records s (s.store key object isNew) ⟨key, s.version + 1,
      if isNew then .added (s.stamped key object) else .modified (s.stamped key object)⟩ where
  log := rfl
  version := rfl
  number := rfl
  carries := by
    refine ⟨s.stamped key object, ?_, marked_stamped s key object⟩
    cases isNew <;> rfl
  object? other := by
    rw [object?_store]
    cases isNew <;> rfl
  sorted hs := hs.insert key _
  scripted := rfl

theorem records_remove {key : Key} {object : Json} {version : Nat}
    (ho : s.object? key = some object) (hm : Marked key version object) :
    ∃ event, Records s (s.remove key) ⟨key, s.version + 1, event⟩ := by
  refine ⟨.deleted (object.merge
    (metadataPatch [("resourceVersion", .string (toString (s.version + 1)))])), ?_⟩
  have hremove : s.remove key = { s with
      objects := s.objects.erase key
      version := s.version + 1
      log := s.log ++ [⟨key, s.version + 1, .deleted (object.merge
        (metadataPatch [("resourceVersion", .string (toString (s.version + 1)))]))⟩] } := by
    simp only [remove, ho]
  constructor
  · rw [hremove]
  · rw [hremove]
  · rfl
  · exact ⟨_, rfl, hm.renumber (s.version + 1)⟩
  · intro other
    rw [object?_remove]
    rfl
  · intro hs
    rw [hremove]
    exact hs.erase key
  · rw [hremove]

/-! ### The log tells the stored objects -/

/-- The last change of a key. -/
def latest? (s : Server) (key : Key) : Option Change := (s.log.filter (·.key = key)).getLast?

/-- The log tells what is stored: versions grow along it, every event carries its key and its
version, and the stored object of a key is the one of its last change. -/
structure Logged (s : Server) : Prop where
  sorted : s.objects.Sorted
  growing : s.log.Pairwise fun a b => a.version < b.version
  numbered : ∀ c ∈ s.log, 0 < c.version ∧ c.version ≤ s.version
  carries : ∀ c ∈ s.log, c.event.Carries c.key c.version
  stored : ∀ key, s.object? key = (s.latest? key).bind fun c => c.event.stored?

theorem logged_empty : Logged empty where
  sorted := Dict.sorted_nil
  growing := List.Pairwise.nil
  numbered c hc := by cases hc
  carries c hc := by cases hc
  stored key := rfl

theorem SameStore.logged (h : SameStore s t) (hs : s.Logged) : t.Logged where
  sorted := h.objects ▸ hs.sorted
  growing := h.log ▸ hs.growing
  numbered c hc := by
    rw [h.log] at hc
    rw [h.version]
    exact hs.numbered c hc
  carries c hc := hs.carries c (h.log ▸ hc)
  stored key := by
    rw [h.object?, hs.stored]
    simp only [latest?, h.log]

theorem Records.latest? {c : Change} (h : Records s t c) (key : Key) :
    t.latest? key = if c.key = key then some c else s.latest? key := by
  simp only [Server.latest?, h.log, List.filter_append]
  by_cases hk : c.key = key
  · simp [hk]
  · simp [hk]

theorem Records.logged {c : Change} (h : Records s t c) (hs : s.Logged) : t.Logged where
  sorted := h.sorted hs.sorted
  growing := by
    rw [h.log]
    refine List.pairwise_append.mpr ⟨hs.growing, List.pairwise_singleton _ _, ?_⟩
    intro a ha b hb
    obtain rfl := List.mem_singleton.mp hb
    have hle := (hs.numbered a ha).2
    have hnumber := h.number
    omega
  numbered a ha := by
    rw [h.log] at ha
    have hnumber := h.number
    have hversion := h.version
    rcases List.mem_append.mp ha with ha | ha
    · have hle := hs.numbered a ha
      omega
    · obtain rfl := List.mem_singleton.mp ha
      omega
  carries a ha := by
    rw [h.log] at ha
    rcases List.mem_append.mp ha with ha | ha
    · exact hs.carries a ha
    · obtain rfl := List.mem_singleton.mp ha
      exact h.carries
  stored key := by
    rw [h.object?, h.latest?, hs.stored]
    split <;> rfl

theorem Logged.mem_of_latest? {key : Key} {c : Change} (h : s.latest? key = some c) :
    c ∈ s.log ∧ c.key = key := by
  have hmem := List.mem_of_getLast? h
  simpa using hmem

/-- What is stored was put there by the last change of its key, with that version. -/
theorem Logged.exists_of_object? (hs : s.Logged) {key : Key} {object : Json}
    (ho : s.object? key = some object) :
    ∃ c, s.latest? key = some c ∧ c.event.stored? = some object ∧ Marked key c.version object := by
  rw [hs.stored] at ho
  obtain ⟨c, hc, hstored⟩ := Option.bind_eq_some_iff.mp ho
  obtain ⟨hmem, hkey⟩ := Logged.mem_of_latest? hc
  obtain ⟨object', hobject, marked⟩ := hs.carries c hmem
  refine ⟨c, hc, hstored, ?_⟩
  have hsame : object' = object := by
    cases he : c.event <;> simp_all [Event.object?, Event.stored?]
  rw [← hkey, ← hsame]
  exact marked

/-! ### What clients do -/

/-- What one act does to a server: it stores or removes one object, or it leaves the store alone. -/
def Evolves (s t : Server) : Prop := SameStore s t ∨ ∃ c, Records s t c

theorem SameStore.evolves (h : SameStore s t) (h' : Evolves t u) : Evolves s u := by
  rcases h' with h' | ⟨c, h'⟩
  · exact Or.inl (h.trans h')
  · exact Or.inr ⟨c, h.records h'⟩

theorem Evolves.logged (h : Evolves s t) (hs : s.Logged) : t.Logged := by
  rcases h with h | ⟨c, h⟩
  · exact h.logged hs
  · exact h.logged hs

theorem Evolves.scripted (h : Evolves s t) : t.scripted = s.scripted := by
  rcases h with h | ⟨c, h⟩
  · exact h.scripted
  · exact h.scripted

theorem Evolves.version_le (h : Evolves s t) : s.version ≤ t.version := by
  rcases h with h | ⟨c, h⟩
  · exact Nat.le_of_eq h.version.symm
  · exact h.version ▸ Nat.le_succ s.version

theorem Evolves.log_subset (h : Evolves s t) : s.log ⊆ t.log := by
  rcases h with h | ⟨c, h⟩
  · exact h.log ▸ List.Subset.refl _
  · exact h.log ▸ List.subset_append_left ..

theorem evolves_store (s : Server) (key : Key) (object : Json) (isNew : Bool) :
    Evolves s (s.store key object isNew) := Or.inr ⟨_, records_store s key object isNew⟩

theorem evolves_remove (hs : s.Logged) (key : Key) : Evolves s (s.remove key) := by
  cases ho : s.object? key with
  | none =>
    have hremove : s.remove key = s := by simp only [remove, ho]
    rw [hremove]
    exact Or.inl (.refl s)
  | some object =>
    obtain ⟨c, _, _, marked⟩ := hs.exists_of_object? ho
    obtain ⟨event, h⟩ := records_remove ho marked
    exact Or.inr ⟨_, h⟩

theorem evolves_applyPatch (hs : s.Logged) (key : Key) (body : Json) :
    Evolves s (s.applyPatch key body).2 := by
  simp only [applyPatch]
  split
  · exact Or.inl (.refl s)
  · split
    · exact evolves_remove hs key
    · exact evolves_store s key _ false

theorem evolves_applyCreate (s : Server) (key : Key) (body : Json) :
    Evolves s (s.applyCreate key body).2 := by
  simp only [applyCreate]
  split
  · exact Or.inl (.refl s)
  · exact evolves_store s key body true

theorem evolves_applyDelete (hs : s.Logged) (key : Key) : Evolves s (s.applyDelete key).2 := by
  simp only [applyDelete]
  split
  · exact Or.inl (.refl s)
  · split
    · exact evolves_remove hs key
    · exact evolves_store s key _ false

/-- A request that is refused changes nothing but the notes, any other does what it asks for. -/
theorem evolves_run_answer {act : Server → Except Fault α × Server} (q : Request)
    (hact : Evolves (s.noted q) (act (s.noted q)).2) : Evolves s ((answer q act).run s).2 := by
  rw [run_answer]
  cases (s.outcome q.verb).1 with
  | none => exact (sameStore_noted s q).evolves hact
  | some fault => exact Or.inl (sameStore_noted s q)

theorem evolves_serve (hs : s.Logged) (hscripted : s.scripted = []) (q : Request) :
    Evolves s (s.serve q) := by
  have hn : (s.noted q).Logged := (sameStore_noted s q).logged hs
  cases q with
  | get kind space name =>
    refine evolves_run_answer _ (Or.inl ?_)
    cases Server.object? _ (kind.key space name) <;> exact .refl _
  | list kind scope selector limit => exact evolves_run_answer _ (Or.inl (.refl _))
  | create kind space body => exact evolves_run_answer _ (evolves_applyCreate _ _ _)
  | patch kind space name body => exact evolves_run_answer _ (evolves_applyPatch hn _ _)
  | delete kind space name => exact evolves_run_answer _ (evolves_applyDelete hn _)
  | watch kind scope version =>
    change Evolves s (watch kind scope version s).2
    simp only [watch, hscripted]
    exact evolves_run_answer _ (Or.inl (.refl _))

end Server

/-- Something that happens to a server: an object is written by hand, a client makes a request, the
log is compacted, or requests are to fail. -/
inductive Occurrence where
  | put (key : Key) (object : Json)
  | update (key : Key) (patch : Json)
  | request (asked : Request)
  | compact (asEvent : Bool)
  | script (verb : Verb) (added : List (Option Fault))

namespace Server

variable {s : Server}

def occur (s : Server) : Occurrence → Server
  | .put key object => s.put key object
  | .update key patch => s.update key patch
  | .request asked => s.serve asked
  | .compact asEvent => s.compact asEvent
  | .script verb added => s.script verb added

/-- The server after some occurrences, the first one first. -/
def after (s : Server) (past : List Occurrence) : Server := past.foldl occur s

theorem evolves_occur (hs : s.Logged) (hscripted : s.scripted = []) (o : Occurrence) :
    Evolves s (s.occur o) := by
  cases o with
  | put key object => exact evolves_store s key object _
  | update key patch => exact evolves_store s key _ false
  | request asked => exact evolves_serve hs hscripted asked
  | compact asEvent => exact Or.inl ⟨rfl, rfl, rfl, rfl⟩
  | script verb added => exact Or.inl ⟨rfl, rfl, rfl, rfl⟩

/-- Whatever happened to a server that was empty at first, its log tells what is stored. -/
theorem logged_after (hs : s.Logged) (hscripted : s.scripted = []) (past : List Occurrence) :
    (s.after past).Logged ∧ (s.after past).scripted = [] := by
  induction past generalizing s with
  | nil => exact ⟨hs, hscripted⟩
  | cons o rest ih =>
    have h := evolves_occur hs hscripted o
    exact ih (h.logged hs) (h.scripted.trans hscripted)

end Server

end Warren.Api
