import Warren.Proofs.Api.Serving

/-!
# Faults that requests are answered with

A server keeps the requests that it noted, so the requests that led from one server to another one
are known, and with them the answers. `Faced` says that one of these answers was a fault of some
kind; `faced_iff_or` cuts the way in two.
-/

namespace Warren.Api

/-- The fault in an outcome, if it is one. -/
def faultOf : Except Fault α → Option Fault
  | .ok _ => none
  | .error fault => some fault

/-- The request that reads a workflow. -/
def lookRequest (name : String) : Request := .get .workflow defaultSpace name

namespace Server

variable {s t u : Server} {asked P : Request → Prop} {bad : Fault → Bool}

/-- The fault with which the server would answer a request. -/
def fault? (s : Server) : Request → Option Fault
  | .get kind space name => faultOf ((get kind space name).run s).1
  | .list kind scope selector limit => faultOf ((list kind scope selector limit).run s).1
  | .create kind space body => faultOf ((create kind space body).run s).1
  | .patch kind space name body => faultOf ((patch kind space name body).run s).1
  | .delete kind space name => faultOf ((delete kind space name).run s).1
  | .watch kind scope version => faultOf ((watch kind scope version).run s).1

/-- Of some requests, made one after the other, one of a kind is answered with a fault of a kind. -/
def Faces (asked : Request → Prop) (bad : Fault → Bool) (s : Server) : List Request → Prop
  | [] => False
  | q :: qs => (asked q ∧ (s.fault? q).any bad = true) ∨ Faces asked bad (s.serve q) qs

instance decidableFaces (asked : Request → Prop) [DecidablePred asked] (bad : Fault → Bool) :
    (s : Server) → (qs : List Request) → Decidable (Faces asked bad s qs)
  | _, [] => inferInstanceAs (Decidable False)
  | s, q :: qs =>
    have := decidableFaces asked bad (s.serve q) qs
    inferInstanceAs (Decidable ((asked q ∧ (s.fault? q).any bad = true) ∨
      Faces asked bad (s.serve q) qs))

/-- Of the requests that one server noted since another one, one of a kind was answered with a fault
of a kind. -/
def Faced (asked : Request → Prop) (bad : Fault → Bool) (s t : Server) : Prop :=
  Faces asked bad s (t.requests.drop s.requests.length)

instance [DecidablePred asked] : Decidable (Faced asked bad s t) :=
  inferInstanceAs (Decidable (Faces asked bad s (t.requests.drop s.requests.length)))

theorem faces_append {qs rest : List Request} : Faces asked bad s (qs ++ rest) ↔
    Faces asked bad s qs ∨ Faces asked bad (s.serveAll qs) rest := by
  induction qs generalizing s with
  | nil => simp [Faces]
  | cons q qs ih => simp only [List.cons_append, Faces, ih, serveAll_cons, or_assoc]

@[simp] theorem faced_serveAll {qs : List Request} :
    Faced asked bad s (s.serveAll qs) ↔ Faces asked bad s qs := by
  rw [Faced, requests_serveAll, List.drop_left]

@[simp] theorem faced_serve {q : Request} :
    Faced asked bad s (s.serve q) ↔ asked q ∧ (s.fault? q).any bad = true := by
  have h : Faced asked bad s (s.serveAll [q]) ↔ Faces asked bad s [q] := faced_serveAll
  simpa [Faces] using h

@[simp] theorem not_faced_refl (s : Server) : ¬Faced asked bad s s := by
  rw [Faced, List.drop_length]
  exact id

theorem faced_iff_or {Q : Request → Prop} (hs : Asked P s t) (ht : Asked Q t u) :
    Faced asked bad s u ↔ Faced asked bad s t ∨ Faced asked bad t u := by
  obtain ⟨qs, _, rfl⟩ := hs
  obtain ⟨rest, _, rfl⟩ := ht
  rw [← serveAll_append, faced_serveAll, faced_serveAll, serveAll_append, faced_serveAll]
  exact faces_append

theorem faced_or {other : Request → Prop} : Faced (fun q => asked q ∨ other q) bad s t ↔
    Faced asked bad s t ∨ Faced other bad s t := by
  unfold Faced
  generalize t.requests.drop s.requests.length = qs
  induction qs generalizing s with
  | nil => simp [Faces]
  | cons q qs ih =>
    simp only [Faces, ih, or_and_right]
    grind

theorem Asked.not_faced (h : Asked P s t) (hP : ∀ q, P q → ¬asked q) : ¬Faced asked bad s t := by
  obtain ⟨qs, hqs, rfl⟩ := h
  rw [faced_serveAll]
  induction qs generalizing s with
  | nil => exact id
  | cons q qs ih =>
    rintro (⟨hasked, _⟩ | hrest)
    · exact hP q (hqs q (List.mem_cons_self ..)) hasked
    · exact ih (fun r hr => hqs r (List.mem_cons_of_mem _ hr)) hrest

/-! ### What is read -/

theorem serve_get (s : Server) (kind : Kind) (space name : String) :
    s.serve (.get kind space name) = s.noted (.get kind space name) := by
  refine state_run_answer_of_read (fun t => ?_) _ s
  cases t.object? (kind.key space name) <;> rfl

theorem object?_of_run_get {kind : Kind} {space name : String} {object : Json}
    (h : (get kind space name).run s = (.ok object, t)) :
    s.object? (kind.key space name) = some object := by
  rw [get, run_answer] at h
  cases hout : (s.outcome (Request.get kind space name).verb).1 with
  | some fault =>
    rw [hout] at h
    cases h
  | none =>
    rw [hout, Option.elim_none, object?_noted] at h
    cases ho : s.object? (kind.key space name) with
    | none =>
      rw [ho] at h
      cases h
    | some stored =>
      rw [ho] at h
      exact congrArg some (Except.ok.inj (congrArg Prod.fst h))

/-! ### Faults to come -/

/-- How many requests of a kind are still to fail. -/
def failures (s : Server) (verb : Verb) : Nat := (s.outcomes verb).countP Option.isSome

theorem outcomes_noted (s : Server) (q : Request) (verb : Verb) :
    (s.noted q).outcomes verb =
      if verb = q.verb then (s.outcomes verb).tail else s.outcomes verb := by
  have hreceive : (s.receive q).outcomes = s.outcomes := rfl
  rw [noted, outcome, hreceive]
  cases hout : s.outcomes q.verb with
  | nil =>
    change s.outcomes verb = _
    split
    · rename_i hverb
      rw [hverb, hout, List.tail_nil]
    · rfl
  | cons next rest =>
    change (if verb = q.verb then rest else s.outcomes verb) = _
    split
    · rename_i hverb
      rw [hverb, hout, List.tail_cons]
    · rfl

theorem suffix_outcomes_noted (s : Server) (q : Request) (verb : Verb) :
    (s.noted q).outcomes verb <:+ s.outcomes verb := by
  rw [outcomes_noted]
  split
  · exact List.tail_suffix _
  · exact List.suffix_refl _

@[simp] theorem outcomes_remove (s : Server) (key : Key) :
    (s.remove key).outcomes = s.outcomes := by
  simp only [remove]
  split <;> rfl

theorem outcomes_applyPatch (s : Server) (key : Key) (body : Json) :
    (s.applyPatch key body).2.outcomes = s.outcomes := by
  simp only [applyPatch]
  split
  · rfl
  · split
    · exact outcomes_remove s key
    · rfl

theorem outcomes_applyCreate (s : Server) (key : Key) (body : Json) :
    (s.applyCreate key body).2.outcomes = s.outcomes := by
  simp only [applyCreate]
  split <;> rfl

theorem outcomes_applyDelete (s : Server) (key : Key) :
    (s.applyDelete key).2.outcomes = s.outcomes := by
  simp only [applyDelete]
  split
  · rfl
  · split
    · exact outcomes_remove s key
    · rfl

theorem outcomes_run_answer {act : Server → Except Fault α × Server}
    (hact : ∀ s, (act s).2.outcomes = s.outcomes) (q : Request) (s : Server) :
    ((answer q act).run s).2.outcomes = (s.noted q).outcomes := by
  rw [run_answer]
  cases (s.outcome q.verb).1 with
  | none => exact hact _
  | some fault => rfl

/-- Requests use up the outcomes that are scripted, and script none. -/
theorem suffix_outcomes_serve (s : Server) (q : Request) (verb : Verb) :
    (s.serve q).outcomes verb <:+ s.outcomes verb := by
  have used {t : Server} (h : t.outcomes = (s.noted q).outcomes) :
      t.outcomes verb <:+ s.outcomes verb := h ▸ suffix_outcomes_noted s q verb
  cases q with
  | get kind space name =>
    refine used (outcomes_run_answer (fun t => ?_) _ s)
    cases t.object? (kind.key space name) <;> rfl
  | list kind scope selector limit => exact used (outcomes_run_answer (fun _ => rfl) _ s)
  | create kind space body =>
    exact used (outcomes_run_answer (fun t => outcomes_applyCreate t _ _) _ s)
  | patch kind space name body =>
    exact used (outcomes_run_answer (fun t => outcomes_applyPatch t _ _) _ s)
  | delete kind space name =>
    exact used (outcomes_run_answer (fun t => outcomes_applyDelete t _) _ s)
  | watch kind scope version =>
    change (watch kind scope version s).2.outcomes verb <:+ _
    simp only [watch]
    split
    · exact List.suffix_refl _
    · exact used (outcomes_run_answer (fun _ => rfl) _ s)

theorem failures_noted_of_outcome {q : Request} {fault : Fault}
    (h : (s.outcome q.verb).1 = some fault) :
    (s.noted q).failures q.verb + 1 = s.failures q.verb ∧ some fault ∈ s.outcomes q.verb := by
  unfold failures
  rw [outcomes_noted, if_pos rfl]
  unfold outcome at h
  split at h
  · cases h
  · rename_i next rest hcons
    obtain rfl : next = some fault := h
    rw [hcons]
    exact ⟨by simp, List.mem_cons_self ..⟩

end Server

end Warren.Api
