import Warren.Proofs.Api.Faults
import Warren.Proofs.Api.StoredStage

/-!
# Stages that are asked for with success

A request for a stage may be refused. `granted?` is the stage of a workflow that was asked for last,
between two states of a server, with an answer other than a fault; `granted?_trans` puts it together
from the parts of the way.
-/

namespace Warren.Api

/-- The stage of a workflow that a request asks for. -/
def Request.stage? (name : String) : Request → Option Stage
  | .patch kind space n body =>
    if kind.key space n = workflowKey name then desiredStage? body else none
  | _ => none

theorem Request.stage?_of_not_setsStage {name : String} {q : Request} (h : ¬q.SetsStage name) :
    q.stage? name = none := by
  cases q with
  | patch kind space n body =>
    rw [Request.stage?]
    split
    · rename_i hkey
      have hnone : body.path? ["spec", "desiredState"] = none := by
        cases hpath : body.path? ["spec", "desiredState"] with
        | none => rfl
        | some value => exact absurd ⟨hkey, by rw [hpath]; rfl⟩ h
      rw [desiredStage?, hnone, Option.bind_none]
    · rfl
  | _ => rfl

theorem Request.stage?_stageRequest (name : String) (stage : Stage) :
    (stageRequest name stage).stage? name = some stage := by
  have hpath : (stagePatch stage).path? ["spec", "desiredState"] = some stage.encode := rfl
  rw [stageRequest, Request.stage?, if_pos (by rfl), desiredStage?, hpath, Option.bind_some,
    stage.decode?_encode]

namespace Server

variable {name : String} {s t u : Server} {P Q : Request → Prop}

/-- The stage of a workflow that a request asks for, unless it is answered with a fault. -/
def grant? (name : String) (s : Server) (q : Request) : Option Stage :=
  if (s.fault? q).isNone then q.stage? name else none

/-- The stage of a workflow that was asked for last, with success, in some requests made one after
the other. -/
def grants? (name : String) : Server → List Request → Option Stage
  | _, [] => none
  | s, q :: qs => (grants? name (s.serve q) qs).or (s.grant? name q)

/-- The stage of a workflow that was asked for last, with success, between two states. -/
def granted? (name : String) (s t : Server) : Option Stage :=
  grants? name s (t.requests.drop s.requests.length)

theorem grants?_append (qs rest : List Request) : grants? name s (qs ++ rest) =
    (grants? name (s.serveAll qs) rest).or (grants? name s qs) := by
  induction qs generalizing s with
  | nil => simp [grants?]
  | cons q qs ih => rw [List.cons_append, grants?, ih, grants?, serveAll_cons, Option.or_assoc]

theorem granted?_serveAll (s : Server) (qs : List Request) :
    granted? name s (s.serveAll qs) = grants? name s qs := by
  rw [granted?, requests_serveAll, List.drop_left]

@[simp] theorem granted?_self (s : Server) : granted? name s s = none := by
  rw [granted?, List.drop_length, grants?]

theorem granted?_trans (hs : Asked P s t) (ht : Asked Q t u) :
    granted? name s u = (granted? name t u).or (granted? name s t) := by
  obtain ⟨qs, _, rfl⟩ := hs
  obtain ⟨rest, _, rfl⟩ := ht
  rw [← serveAll_append, granted?_serveAll, grants?_append, granted?_serveAll, serveAll_append,
    granted?_serveAll]

theorem Asked.granted? (h : Asked P s t) (hP : ∀ q, P q → ¬q.SetsStage name) :
    granted? name s t = none := by
  obtain ⟨qs, hqs, rfl⟩ := h
  rw [granted?_serveAll]
  induction qs generalizing s with
  | nil => rfl
  | cons q qs ih =>
    have hq : q.stage? name = none :=
      Request.stage?_of_not_setsStage (hP q (hqs q (List.mem_cons_self ..)))
    rw [grants?, ih fun r hr => hqs r (List.mem_cons_of_mem _ hr), grant?, hq, ite_self,
      Option.none_or]

theorem granted?_stageRequest (s : Server) (name : String) (stage : Stage) :
    Server.granted? name s (s.serve (stageRequest name stage)) =
      if (s.fault? (stageRequest name stage)).isNone then some stage else none := by
  have hone : s.serve (stageRequest name stage) = s.serveAll [stageRequest name stage] := rfl
  rw [hone, granted?_serveAll, grants?, grants?, grant?, Request.stage?_stageRequest,
    Option.none_or]

end Server

end Warren.Api
