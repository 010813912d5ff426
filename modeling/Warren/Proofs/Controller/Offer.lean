import Warren.Proofs.Allocation.Recognition
import Warren.Proofs.Controller.Causality

/-!
# What a job gets its resources back for

The resources of a job go back once its workflow completed the proposal. `admitted_of_take` says
that they go back without a fault only if the breakdowns that were read then are within the limits,
or if the resources have a node next to its storage already and are left as they are:
`unvetted_update` shows such a job. It says nothing of resources that are misread.
-/

namespace Warren

open Allocation (Equipped Misread Vetted gib)
open JobResource (nodesOfAll)

/-- What a job may get for the resources that it asked for: the same ones, if they have storage, and
else only something for breakdowns that can be used and are within the limits. -/
def Configuration.Admits (config : Configuration) (resources assigned : List JobResource)
    (found : List Breakdown) : Prop :=
  (Equipped resources ∧ assigned = resources) ∨ ∃ nodes : UInt64,
    nodes.toNat = nodesOfAll resources ∧
      Vetted config.limits (config.leastAllocation / gib) nodes found

theorem Handling.admits_of_assign {config : Configuration} {resources assigned : List JobResource}
    {found : List Breakdown} (h : assign config resources found = .ok (assigned, none))
    (hread : ¬Misread resources) : config.Admits resources assigned found := by
  unfold assign at h
  split at h
  · rename_i extended haugment
    obtain ⟨-, hsame⟩ | hvetted := Allocation.vetted_of_augment haugment
    · cases hsame
    · exact .inr hvetted
  · rename_i outcome hextended haugment
    obtain ⟨hpaired, -⟩ | hvetted := Allocation.vetted_of_augment haugment
    · have hassigned : resources = assigned := congrArg Prod.fst (Except.ok.inj h)
      exact .inl ⟨hpaired.equipped_or_misread.resolve_right hread, hassigned.symm⟩
    · exact .inr hvetted
  · cases h
  · cases h

namespace Controller

variable {site : Site} {c : Controller} {turn : Turn} {content : ResourceUpdate}

/-- The proposal of a job is complete and its breakdowns were read; what goes back may go back for
them, unless the job asked for resources that are misread. -/
inductive Admitted (site : Site) (c : Controller) (turn : Turn) (content : ResourceUpdate) : Prop
  | of {w : Workflow} {resources : List JobResource} {found : List Breakdown}
    (reports : turn.Reports w) (complete : w.isComplete .proposal = true)
    (job : w.jobId = content.id)
    (pending : (c.registry.recordOf content.id).resources = .pending resources)
    (read : ((Handling.breakdowns w).run c.world.api).1 = .ok found)
    (admits : ¬Misread resources → site.config.Admits resources content.resources found)

/-- In every state that the controller comes to, resources that go back without a fault are
admitted. -/
theorem admitted_of_take (hc : Reachable site c)
    (htold : .resourceUpdate content ∈ (c.world.since (c.take site turn).world).notices)
    (hfailure : content.failure = none) : Admitted site c turn content := by
  obtain ⟨-, x, sends, tells, -⟩ := acts_take hc.kept site turn
  rw [sends.since] at htold
  obtain ⟨w, hreports, hcomplete, hoffered⟩ := tells _ htold
  generalize hresources : (c.registry.recordOf w.jobId).resources = r at hoffered
  cases hoffered with
  | unknown => cases hfailure
  | pending hread hassign =>
    obtain rfl : _ = none := hfailure
    exact .of hreports hcomplete rfl hresources hread (Handling.admits_of_assign hassign)

end Controller

namespace Sample

open Controller (Reachable reported?)

/-- A site where a job may have 5 GiB of one kind of storage on every compute node. -/
def bounded : Site :=
  { site with config := { site.config with limits := ⟨some 5, none, none, none⟩ } }

/-- A breakdown that asks for storage on every compute node. -/
def perCompute (size : Nat) : Json :=
  .ofFields [("kind", .string Allocation.breakdownKind), ("status", .ofFields [
    ("ready", .boolean true), ("storage", .ofFields [("allocationSets", .array [.ofFields [
      ("label", .string "xfs"), ("allocationStrategy", .string "AllocatePerCompute"),
      ("minimumCapacity", .nat (size * gib.toNat))]])])])]

/-- The job asked for resources, and its proposal is complete with such a breakdown. -/
def proposed (resources : List JobResource) (size : Nat) : Controller :=
  let breakdown := Api.Kind.breakdown.key Api.defaultSpace job.workflowName
  let world := World.start (Api.Server.empty.put breakdown (perCompute size))
  let created := (Controller.start world).take bounded
    (.request (.create ⟨job, 0, .array [], resources, 0⟩))
  let done := .ofFields [("status", .ofFields [("state", Stage.proposal.encode),
    ("ready", .boolean true),
    ("directiveBreakdowns", .array [.ofFields [("name", .string job.workflowName)]])])]
  created.step bounded (.outside { created.world with api := created.world.api.update key done } 0)

theorem reachable_proposed (resources : List JobResource) (size : Nat) :
    Reachable bounded (proposed resources size) :=
  ((Controller.reachable_start bounded _).take (.request (.create _))).step (.outside _ 0)

/-- The report of the stored workflow. -/
def reporting (c : Controller) : Turn := .event (.modified (stored c))

/-- What the job gets back on that report. -/
def updates (c : Controller) : List ResourceUpdate :=
  (c.world.since (c.take bounded (reporting c)).world).notices.filterMap fun
    | .resourceUpdate content => some content
    | _ => none

theorem told_of_mem_updates {c : Controller} {content : ResourceUpdate} (h : content ∈ updates c) :
    .resourceUpdate content ∈ (c.world.since (c.take bounded (reporting c)).world).notices := by
  obtain ⟨notice, hnotice, hcontent⟩ := List.mem_filterMap.mp h
  cases notice with
  | resourceUpdate other =>
    obtain rfl := Option.some.inj hcontent
    exact hnotice
  | _ => cases hcontent

/-- What the breakdowns of a reported workflow ask for. -/
def demanded (c : Controller) (w : Workflow) : Option (Except Crash Allocation.Demand) :=
  ((Handling.breakdowns w).run c.world.api).1.toOption.map fun found =>
    Allocation.requested (bounded.config.leastAllocation / gib) (found.flatMap Breakdown.sets)

end Sample

namespace Controller

theorem admitted_of_take_proposed :
    let resources := [JobResource.counted "node" 1]
    let c := Sample.proposed resources 4
    ¬Misread resources ∧ Reachable Sample.bounded c ∧ ∃ content ∈ Sample.updates c,
      content.failure = none ∧ Admitted Sample.bounded c (Sample.reporting c) content := by
  intro resources c
  have hread : ¬Misread [JobResource.counted "node" 1] := by
    intro h
    cases h with
    | twins _ twins => exact absurd twins.kind (by decide)
    | nodeless nodeless => exact absurd nodeless.kind (by decide)
  have reached : Reachable Sample.bounded c := Sample.reachable_proposed _ _
  have accepted : (Sample.updates c).any (·.failure.isNone) = true := by decide +kernel
  obtain ⟨content, hcontent, hnone⟩ := List.any_eq_true.mp accepted
  have hfailure : content.failure = none := Option.isNone_iff_eq_none.mp hnone
  exact ⟨hread, reached, content, hcontent, hfailure,
    admitted_of_take reached (Sample.told_of_mem_updates hcontent) hfailure⟩

/-- Resources in a slot with storage go back without a fault while the breakdown asks for more than
the limit. -/
theorem unvetted_update :
    let slot := { JobResource.counted "slot" 1 with
      children := [.counted "node" 1, .counted "ssd" 1] }
    let c := Sample.proposed [slot] 10
    Reachable Sample.bounded c ∧ ∃ content ∈ Sample.updates c, content.failure = none ∧
      ∃ w found, (Sample.reporting c).Reports w ∧ w.isComplete .proposal = true ∧
        ((Handling.breakdowns w).run c.world.api).1 = .ok found ∧
        ∀ nodes, ¬Vetted Sample.bounded.config.limits
          (Sample.bounded.config.leastAllocation / gib) nodes found := by
  intro slot c
  have accepted : (Sample.updates c).any (·.failure.isNone) = true := by decide +kernel
  have reported : (reported? (.modified (Sample.stored c))).any (fun w =>
      w.isComplete .proposal && Sample.demanded c w = some (.ok ⟨10, 0, 0, 0⟩)) = true := by
    decide +kernel
  obtain ⟨content, hcontent, hnone⟩ := List.any_eq_true.mp accepted
  refine ⟨Sample.reachable_proposed _ _, content, hcontent,
    Option.isNone_iff_eq_none.mp hnone, ?_⟩
  cases hw : reported? (.modified (Sample.stored c)) with
  | none =>
    rw [hw] at reported
    cases reported
  | some w =>
    rw [hw, Option.any_some, Bool.and_eq_true, decide_eq_true_iff] at reported
    obtain ⟨hcomplete, hdemanded⟩ := reported
    obtain ⟨found, hfound, hdemand⟩ := Option.map_eq_some_iff.mp hdemanded
    have hread : ((Handling.breakdowns w).run c.world.api).1 = .ok found := by
      cases hrun : ((Handling.breakdowns w).run c.world.api).1 with
      | ok all =>
        rw [hrun] at hfound
        exact congrArg Except.ok (Option.some.inj hfound)
      | error fault =>
        rw [hrun] at hfound
        cases hfound
    refine ⟨w, found, ⟨_, rfl, hw⟩, hcomplete, hread, fun nodes vetted => ?_⟩
    obtain ⟨demand, hrequested, hwithin⟩ := vetted.within
    rw [hdemand] at hrequested
    obtain rfl := Except.ok.inj hrequested
    have hle : (10 : UInt64) ≤ 5 :=
      Allocation.Demand.le_of_validate hwithin (List.mem_cons_self ..) rfl
    exact absurd hle (by decide)

end Controller

end Warren
