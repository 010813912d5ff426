import Warren.Json.Decode
import Warren.Span

/-!
# Stages of a workflow

A workflow visits its stages in a fixed order. `onComplete` says what the service does when a
stage is complete, `Timeouts.of` how long it waits for a stage that holds compute nodes.
-/

namespace Warren

inductive Stage where
  | proposal
  | setup
  | dataIn
  | preRun
  | postRun
  | dataOut
  | teardown
deriving DecidableEq, Repr

namespace Stage

/-- All stages, in the order in which they are visited. -/
def all : List Stage := [.proposal, .setup, .dataIn, .preRun, .postRun, .dataOut, .teardown]

def rank : Stage → Nat
  | .proposal => 0
  | .setup => 1
  | .dataIn => 2
  | .preRun => 3
  | .postRun => 4
  | .dataOut => 5
  | .teardown => 6

instance : LT Stage := ⟨fun a b => a.rank < b.rank⟩
instance : LE Stage := ⟨fun a b => a.rank ≤ b.rank⟩
instance : DecidableLT Stage := fun a b => inferInstanceAs (Decidable (a.rank < b.rank))
instance : DecidableLE Stage := fun a b => inferInstanceAs (Decidable (a.rank ≤ b.rank))

def name : Stage → String
  | .proposal => "Proposal"
  | .setup => "Setup"
  | .dataIn => "DataIn"
  | .preRun => "PreRun"
  | .postRun => "PostRun"
  | .dataOut => "DataOut"
  | .teardown => "Teardown"

def ofName? (s : String) : Option Stage := all.find? fun stage => stage.name = s

@[simp] theorem ofName?_name (stage : Stage) : ofName? stage.name = some stage := by
  cases stage <;> decide

def decode? (j : Json) : Option Stage := j.caseName?.bind ofName?

def encode (stage : Stage) : Json := .string stage.name

/-- What is done when a stage is complete. -/
inductive Action where
  /-- Give the job the storage that the breakdowns of its directives ask for. -/
  | applyBreakdowns
  /-- Ask for another stage. -/
  | advance (next : Stage)
  /-- Let the job start. -/
  | releaseProlog
  /-- Skip to the end. -/
  | moveToTeardown
  /-- Release the job and delete the workflow. -/
  | finish
deriving DecidableEq, Repr

/-- What is done when a stage is complete. -/
def onComplete : Stage → Action
  | .proposal => .applyBreakdowns
  | .setup => .advance .dataIn
  | .dataIn => .advance .preRun
  | .preRun => .releaseProlog
  | .postRun => .advance .dataOut
  | .dataOut => .moveToTeardown
  | .teardown => .finish

/-- Whether the job waits in its epilog during a stage, where an exception alone does not end it. -/
def blocksOnEpilog : Stage → Bool
  | .postRun | .dataOut => true
  | _ => false

/-- The time that the stages holding compute nodes may take, if it is limited. -/
structure Timeouts where
  setup : Option Span
  preRun : Option Span
  postRun : Option Span
deriving DecidableEq, Repr

def Timeouts.unlimited : Timeouts := ⟨none, none, none⟩

def Timeouts.of (timeouts : Timeouts) : Stage → Option Span
  | .setup => timeouts.setup
  | .preRun => timeouts.preRun
  | .postRun => timeouts.postRun
  | _ => none

end Stage

end Warren
