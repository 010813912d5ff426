import Warren.Proofs.Controller.Absence
import Warren.Proofs.Directive

/-!
# Directives that a job is submitted with

A workflow is created with the directives that were read from the request. They are looked at after
they were read, so a user who may not create file systems that outlive the job cannot hide such a
directive behind the name of a preset or in the middle of a text: see `directives_submitted`.
-/

namespace Warren.Controller

open Directive (Clauses Entries IsClause ofClause read? textsOf)

theorem directives_newWorkflow (site : Site) (id : JobId) (user : UInt32)
    (directives : List String) : (newWorkflow site id user directives).path?
      ["spec", "dwDirectives"] = some (.strings directives) := by
  simp [newWorkflow, Json.path?_cons, Json.field?, Json.ofFields, Dict.ofEntries,
    Dict.find?_insert]

theorem not_infix_of_allowed {directives : List String} {user owner : UInt32}
    (h : Directive.allowed directives user owner = true) (huser : user ≠ owner) :
    ∀ d ∈ directives, ¬"create_persistent".toList <:+: d.toList := by
  intro d hd hpersistent
  have hfound : Directive.isPersistent d = true := Text.occurs_iff.mpr hpersistent
  have hnone : directives.any Directive.isPersistent = false := by
    simpa [Directive.allowed, huser] using h
  rw [List.any_eq_false] at hnone
  exact hnone d hd hfound

/-- Directives that can be read become the clauses of their texts, in order, each behind a marker of
its own, and they are read as they are from then on unless one of them is the name of a preset. With
the restriction on, no user but the owner gets a workflow created that asks for a file system that
outlives the job. -/
theorem directives_submitted :
    (∀ (presets : Dict String Preset) (directives : Json) (output : List String),
      read? presets directives = some output →
        (∃ entries clauses, Entries directives entries ∧
          List.Forall₂ Clauses (entries.flatMap (textsOf presets)) clauses ∧
          (∀ clause ∈ clauses.flatten, IsClause clause) ∧
          output = clauses.flatten.map ofClause) ∧
        ((∀ d ∈ output, presets.find? d = none) →
          read? presets (.strings output) = some output)) ∧
    ∀ (site : Site) (c : Controller) (details : CreateRequest),
      site.config.restrictsPersistent = true → details.user ≠ site.config.owner →
        ∀ kind space body,
          .create kind space body ∈ requested c (c.take site (.request (.create details))) →
            ∃ directives, read? site.config.presets details.directives = some directives ∧
              body.path? ["spec", "dwDirectives"] = some (.strings directives) ∧
              ∀ d ∈ directives, ¬"create_persistent".toList <:+: d.toList := by
  constructor
  · intro presets directives output hread
    obtain ⟨entries, clauses, hentries, hclauses, rfl⟩ := Directive.clauses_of_read? hread
    have hsingle := Directive.isClause_of_mem_flatten hclauses
    refine ⟨⟨entries, clauses, hentries, hclauses, hsingle, rfl⟩, fun hnone => ?_⟩
    exact Directive.read?_map_ofClause hsingle fun clause hclause =>
      hnone _ (List.mem_map_of_mem hclause)
  · intro site c details hrestricts huser kind space body hmem
    have inquires : Leads (Inquires fun q => ∀ kind space body, q = .create kind space body →
        ∃ directives, read? site.config.presets details.directives = some directives ∧
          body.path? ["spec", "dwDirectives"] = some (.strings directives) ∧
          ∀ d ∈ directives, ¬"create_persistent".toList <:+: d.toList) (create site details) c := by
      refine inquires_create (fun directives hread hallowed => ?_) c
      rintro _ _ _ ⟨⟩
      refine ⟨directives, hread, directives_newWorkflow .., not_infix_of_allowed ?_ huser⟩
      simpa [hrestricts] using hallowed
    exact inquires.drop_requests _ hmem kind space body rfl

/-- A site with a preset. -/
def shop : Site :=
  { Sample.site with config := { Sample.site.config with
      presets := Dict.ofEntries [("scratch", .single "#DW jobdw type=xfs")] } }

/-- A request with the name of that preset, and a text in which markers follow one another and the
last one is cut short. -/
def order : CreateRequest :=
  ⟨Sample.job, 1000, .strings [" scratch ", "#DW #DW copy_in #DW"], [], 0⟩

theorem directives_submitted_order :
    let output := ["#DW jobdw type=xfs", "#DW copy_in #DW"]
    let c := start (.start .empty)
    let body := newWorkflow shop order.id order.user output
    read? shop.config.presets order.directives = some output ∧
      (∃ entries clauses, Entries order.directives entries ∧
        List.Forall₂ Clauses (entries.flatMap (textsOf shop.config.presets)) clauses ∧
        (∀ clause ∈ clauses.flatten, IsClause clause) ∧
        output = clauses.flatten.map ofClause) ∧
      (∀ d ∈ output, shop.config.presets.find? d = none) ∧
      read? shop.config.presets (.strings output) = some output ∧
      shop.config.restrictsPersistent = true ∧ order.user ≠ shop.config.owner ∧
      .create .workflow Api.defaultSpace body ∈
        requested c (c.take shop (.request (.create order))) ∧
      ∃ directives, read? shop.config.presets order.directives = some directives ∧
        body.path? ["spec", "dwDirectives"] = some (.strings directives) ∧
        ∀ d ∈ directives, ¬"create_persistent".toList <:+: d.toList := by
  intro output c body
  have hread : read? shop.config.presets order.directives = some output := by decide +kernel
  have hnone : ∀ d ∈ output, shop.config.presets.find? d = none := by decide +kernel
  have huser : order.user ≠ shop.config.owner := by decide
  have hcreated : .create .workflow Api.defaultSpace body ∈
      requested c (c.take shop (.request (.create order))) := List.mem_singleton_self _
  have read := directives_submitted.1 shop.config.presets order.directives output hread
  have created := directives_submitted.2 shop c order rfl huser .workflow Api.defaultSpace body
    hcreated
  exact ⟨hread, read.1, hnone, read.2 hnone, rfl, huser, hcreated, created⟩

end Warren.Controller
