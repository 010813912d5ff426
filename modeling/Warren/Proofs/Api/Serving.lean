import Warren.Cleanup.Basic
import Warren.Proofs.Fallible

/-!
# What conversations do to a server

A conversation changes a server by the requests that it makes, one after the other, and by nothing
else. `serve` is what one request does, and `Asks` says of a conversation that every request it
makes is of some kind. The rest of the module says what the requests leave alone.
-/

namespace Warren

namespace Api

namespace Server

/-- The server after a request. -/
def serve (s : Server) : Request → Server
  | .get kind space name => ((get kind space name).run s).2
  | .list kind scope selector limit => ((list kind scope selector limit).run s).2
  | .create kind space body => ((create kind space body).run s).2
  | .patch kind space name body => ((patch kind space name body).run s).2
  | .delete kind space name => ((delete kind space name).run s).2
  | .watch kind scope version => ((watch kind scope version).run s).2

/-- The server after some requests, the first one first. -/
def serveAll (s : Server) (requests : List Request) : Server := requests.foldl serve s

@[simp] theorem serveAll_nil (s : Server) : s.serveAll [] = s := rfl

@[simp] theorem serveAll_cons (s : Server) (q : Request) (qs : List Request) :
    s.serveAll (q :: qs) = (s.serve q).serveAll qs := rfl

theorem serveAll_append (s : Server) (qs rest : List Request) :
    s.serveAll (qs ++ rest) = (s.serveAll qs).serveAll rest := List.foldl_append

/-- The server after it noted a request and used up the outcome of it. -/
def noted (s : Server) (q : Request) : Server := ((s.receive q).outcome q.verb).2

/-- Whether the next request of a kind is let through. -/
def grants (s : Server) (verb : Verb) : Bool := (s.outcome verb).1.isNone

@[simp] theorem outcome_receive (s : Server) (q : Request) (verb : Verb) :
    ((s.receive q).outcome verb).1 = (s.outcome verb).1 := by
  simp only [outcome, receive]
  cases s.outcomes verb <;> rfl

@[simp] theorem objects_noted (s : Server) (q : Request) : (s.noted q).objects = s.objects := by
  simp only [noted, outcome, receive]
  split <;> rfl

@[simp] theorem object?_noted (s : Server) (q : Request) (key : Key) :
    (s.noted q).object? key = s.object? key := by
  simp only [object?, objects_noted]

@[simp] theorem requests_noted (s : Server) (q : Request) :
    (s.noted q).requests = s.requests ++ [q] := by
  simp only [noted, outcome, receive]
  split <;> rfl

end Server

/-! ### Answers -/

theorem run_answer (q : Request) (act : Server → Except Fault α × Server) (s : Server) :
    (answer q act).run s =
      (s.outcome q.verb).1.elim (act (s.noted q)) fun fault => (Except.error fault, s.noted q) := by
  change answer q act s = _
  unfold answer
  rw [← Server.outcome_receive s q, Server.noted]
  obtain ⟨out, t⟩ := (s.receive q).outcome q.verb
  cases out <;> rfl

theorem run_answer_of_grants {q : Request} {s : Server} (h : s.grants q.verb = true)
    (act : Server → Except Fault α × Server) : (answer q act).run s = act (s.noted q) := by
  have hnone : (s.outcome q.verb).1 = none := Option.isNone_iff_eq_none.mp h
  rw [run_answer, hnone, Option.elim_none]

/-- A request that is to fail changes nothing but the notes of the server. -/
theorem run_answer_of_not_grants {q : Request} {s : Server} (h : s.grants q.verb = false)
    (act : Server → Except Fault α × Server) :
    ∃ fault, (answer q act).run s = (.error fault, s.noted q) := by
  cases hout : (s.outcome q.verb).1 with
  | none => simp [Server.grants, hout] at h
  | some fault => exact ⟨fault, by rw [run_answer, hout, Option.elim_some]⟩

theorem state_run_answer_of_read {act : Server → Except Fault α × Server}
    (hact : ∀ s, (act s).2 = s)
    (q : Request) (s : Server) : ((answer q act).run s).2 = s.noted q := by
  rw [run_answer]
  cases (s.outcome q.verb).1 with
  | none => exact hact _
  | some fault => rfl

namespace Server

theorem object?_store (s : Server) (key other : Key) (object : Json) (isNew : Bool) :
    (s.store key object isNew).object? other =
      if key = other then some (s.stamped key object) else s.object? other := by
  simp only [store, object?]
  exact Dict.find?_insert s.objects key other (s.stamped key object)

theorem object?_remove (s : Server) (key other : Key) :
    (s.remove key).object? other = if key = other then none else s.object? other := by
  simp only [remove]
  cases h : s.object? key with
  | none =>
    by_cases hk : key = other
    · rw [if_pos hk, ← hk]
      exact h
    · rw [if_neg hk]
  | some object => exact Dict.find?_erase s.objects key other

@[simp] theorem requests_remove (s : Server) (key : Key) :
    (s.remove key).requests = s.requests := by
  simp only [remove]
  split <;> rfl

theorem requests_applyPatch (s : Server) (key : Key) (body : Json) :
    (s.applyPatch key body).2.requests = s.requests := by
  simp only [applyPatch]
  split
  · rfl
  · split
    · exact requests_remove s key
    · rfl

theorem requests_applyCreate (s : Server) (key : Key) (body : Json) :
    (s.applyCreate key body).2.requests = s.requests := by
  simp only [applyCreate]
  split <;> rfl

theorem requests_applyDelete (s : Server) (key : Key) :
    (s.applyDelete key).2.requests = s.requests := by
  simp only [applyDelete]
  split
  · rfl
  · split
    · exact requests_remove s key
    · rfl

end Server

theorem requests_run_answer {act : Server → Except Fault α × Server}
    (hact : ∀ s, (act s).2.requests = s.requests) (q : Request) (s : Server) :
    ((answer q act).run s).2.requests = s.requests ++ [q] := by
  rw [run_answer]
  cases (s.outcome q.verb).1 with
  | none => exact (hact _).trans (Server.requests_noted s q)
  | some fault => exact Server.requests_noted s q

namespace Server

@[simp] theorem requests_serve (s : Server) (q : Request) :
    (s.serve q).requests = s.requests ++ [q] := by
  cases q with
  | get kind space name =>
    refine requests_run_answer (fun t => ?_) _ s
    cases t.object? (kind.key space name) <;> rfl
  | list kind scope selector limit => exact requests_run_answer (fun _ => rfl) _ s
  | create kind space body => exact requests_run_answer (fun t => requests_applyCreate t _ _) _ s
  | patch kind space name body => exact requests_run_answer (fun t => requests_applyPatch t _ _) _ s
  | delete kind space name => exact requests_run_answer (fun t => requests_applyDelete t _) _ s
  | watch kind scope version =>
    change (watch kind scope version s).2.requests = _
    simp only [watch]
    split
    · rfl
    · exact requests_run_answer (fun _ => rfl) _ s

theorem requests_serveAll (s : Server) (qs : List Request) :
    (s.serveAll qs).requests = s.requests ++ qs := by
  induction qs generalizing s with
  | nil => simp
  | cons q qs ih => rw [serveAll_cons, ih, requests_serve, List.append_assoc, List.singleton_append]

/-! ### Requests of a kind -/

/-- A server that served some requests of a kind. -/
def Asked (P : Request → Prop) (s t : Server) : Prop :=
  ∃ qs : List Request, (∀ q ∈ qs, P q) ∧ t = s.serveAll qs

variable {P Q : Request → Prop}

instance : Std.Refl (Asked P) := ⟨fun s => ⟨[], by simp, rfl⟩⟩

instance : Trans (Asked P) (Asked P) (Asked P) where
  trans := by
    rintro s t u ⟨qs, hqs, rfl⟩ ⟨rest, hrest, rfl⟩
    refine ⟨qs ++ rest, fun q hq => ?_, (s.serveAll_append qs rest).symm⟩
    rcases List.mem_append.mp hq with hq | hq
    · exact hqs q hq
    · exact hrest q hq

theorem Asked.one {q : Request} (hq : P q) (s : Server) : Asked P s (s.serve q) :=
  ⟨[q], by simpa using hq, rfl⟩

theorem Asked.mono (h : ∀ q, P q → Q q) {s t : Server} (hs : Asked P s t) : Asked Q s t := by
  obtain ⟨qs, hqs, ht⟩ := hs
  exact ⟨qs, fun q hq => h q (hqs q hq), ht⟩

theorem Asked.drop_requests {s t : Server} (h : Asked P s t) :
    ∀ q ∈ t.requests.drop s.requests.length, P q := by
  obtain ⟨qs, hqs, rfl⟩ := h
  rw [requests_serveAll, List.drop_left]
  exact hqs

/-- What single requests of a kind keep, any number of them keeps. -/
theorem Asked.keeps {I : Server → Server → Prop} (refl : ∀ s, I s s)
    (trans : ∀ s t u, I s t → I t u → I s u) (step : ∀ s q, P q → I s (s.serve q)) {s t : Server}
    (h : Asked P s t) : I s t := by
  obtain ⟨qs, hqs, rfl⟩ := h
  induction qs generalizing s with
  | nil => exact refl s
  | cons q qs ih =>
    have hq : P q := hqs q (List.mem_cons_self ..)
    have hrest : ∀ r ∈ qs, P r := fun r hr => hqs r (List.mem_cons_of_mem _ hr)
    exact trans s _ _ (step s q hq) (ih hrest)

end Server

/-- Every request of a conversation is of a kind. -/
def Asks (P : Request → Prop) (call : Call α) : Prop := ∀ s, Leads (Server.Asked P) call s

section

variable {P Q : Request → Prop} {call : Call α}

theorem Asks.mono (h : ∀ q, P q → Q q) (hc : Asks P call) : Asks Q call :=
  fun s => (hc s).mono fun _ _ => Server.Asked.mono h

theorem Asks.pure (a : α) : Asks P (Pure.pure a : Call α) := fun s => .pure a s

theorem Asks.throw (fault : Fault) : Asks P (throw fault : Call α) := fun s => .throw fault s

theorem Asks.bind {next : α → Call β} (hc : Asks P call) (hn : ∀ a, Asks P (next a)) :
    Asks P (call >>= next) := fun s => (hc s).bind fun a t _ => hn a t

theorem Asks.discard (hc : Asks P call) : Asks P (Functor.discard call) := fun s => (hc s).discard

theorem Asks.observe (hc : Asks P call) : Asks P (observe call) := hc

theorem Asks.mapM {items : List α} {f : α → Call β} (h : ∀ a ∈ items, Asks P (f a)) :
    Asks P (items.mapM f) := fun s => .mapM h s

theorem Asks.decoded (decode : Decoder α) (object : Json) : Asks P (decoded decode object) := by
  unfold Api.decoded
  cases decode object with
  | none => exact .throw _
  | some a => exact .pure a

theorem Asks.get {kind : Kind} {space name : String} (h : P (.get kind space name)) :
    Asks P (get kind space name) := Server.Asked.one h

theorem Asks.list {kind : Kind} {scope : Scope} {selector : Option String} {limit : Option Nat}
    (h : P (.list kind scope selector limit)) : Asks P (list kind scope selector limit) :=
  Server.Asked.one h

theorem Asks.create {kind : Kind} {space : String} {body : Json} (h : P (.create kind space body)) :
    Asks P (create kind space body) := Server.Asked.one h

theorem Asks.patch {kind : Kind} {space name : String} {body : Json}
    (h : P (.patch kind space name body)) : Asks P (patch kind space name body) :=
  Server.Asked.one h

theorem Asks.delete {kind : Kind} {space name : String} (h : P (.delete kind space name)) :
    Asks P (delete kind space name) := Server.Asked.one h

end

end Api

/-! ### Conversations of the cleanup -/

namespace Cleanup

variable {P : Api.Request → Prop} {name : String}

theorem asks_currentFinalizers (hget : P (.get .workflow Api.defaultSpace name)) :
    Api.Asks P (currentFinalizers name) :=
  .bind (.get hget) fun _ => .bind (.decoded _ _) fun _ => .pure _

theorem asks_dropFinalizer {finalizers : List String}
    (hpatch : P (.patch .workflow Api.defaultSpace name (finalizersPatch finalizers))) :
    Api.Asks P (dropFinalizer name finalizers) := by
  unfold dropFinalizer
  split
  · exact .discard (.patch hpatch)
  · exact .pure _

theorem asks_releaseFinalizer (hget : P (.get .workflow Api.defaultSpace name))
    (hpatch : ∀ finalizers, P (.patch .workflow Api.defaultSpace name (finalizersPatch finalizers)))
    (finalizers : List String) : Api.Asks P (releaseFinalizer name finalizers) := by
  refine .bind (.observe (asks_dropFinalizer (hpatch finalizers))) fun released => ?_
  cases released with
  | ok _ => exact .pure _
  | error fault =>
    change Api.Asks _ (if fault.isNotFound = true then _ else _)
    split
    · exact .pure _
    · exact (asks_currentFinalizers hget).bind fun _ => asks_dropFinalizer (hpatch _)

theorem asks_dataMovements
    (hlist : ∀ selector limit, P (.list .dataMovement .cluster selector limit)) (count : Nat) :
    Api.Asks P (dataMovements name count) := by
  unfold dataMovements
  split
  · exact .pure _
  · exact .bind (.list (hlist _ _)) fun _ => .pure _

end Cleanup

end Warren
