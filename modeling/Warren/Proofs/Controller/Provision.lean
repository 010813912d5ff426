import Warren.Proofs.Controller.Causality
import Warren.Proofs.Controller.Look
import Warren.Proofs.Controller.Regress
import Warren.Proofs.Json.Overwrite

/-!
# What a setup has written before it asks for the stage

A setup reads and writes one object after the other, and any of these requests may fail. It asks for
the stage only after all of them succeeded: `Provided` says what was written by then, and where a
setup ends in an error instead, the records that are left are as they were. `provides_setup` is
both, for every server and every state of the controller.
-/

namespace Warren

namespace Api

namespace Server

variable {q : Request} {P : Server → Prop} {s t u : Server}

/-- Between two states the server got a request, in a state of some kind. -/
def Got (q : Request) (P : Server → Prop) (s t : Server) : Prop :=
  ∃ u, Served s u ∧ P u ∧ Served (u.serve q) t

theorem Got.now (h : P s) : Got q P s (s.serve q) :=
  ⟨s, Std.Refl.refl s, h, Std.Refl.refl (s.serve q)⟩

theorem Got.after (hs : Served s t) (h : Got q P t u) : Got q P s u := by
  obtain ⟨v, hv, hP, hrest⟩ := h
  exact ⟨v, Trans.trans hs hv, hP, hrest⟩

theorem Got.before (h : Got q P s t) (ht : Served t u) : Got q P s u := by
  obtain ⟨v, hv, hP, hrest⟩ := h
  exact ⟨v, hv, hP, Trans.trans hrest ht⟩

theorem Got.served (h : Got q P s t) : Served s t := by
  obtain ⟨u, hu, _, hrest⟩ := h
  have one : Served u (u.serve q) := Asked.one trivial u
  exact Trans.trans hu (Trans.trans one hrest)

/-- Between two states an object was read. -/
def Read (kind : Kind) (space name : String) (object : Json) : Server → Server → Prop :=
  Got (.get kind space name) fun u => ((get kind space name).run u).1 = .ok object

/-- Between two states an object was patched, and the answer showed a value in it. -/
def Wrote (kind : Kind) (space name : String) (path : List String) (value : Json)
    (s t : Server) : Prop :=
  ∃ body, Got (.patch kind space name body) (fun u => ∃ object,
    ((patch kind space name body).run u).1 = .ok object ∧ object.path? path = some value) s t

theorem Wrote.after {kind : Kind} {space name : String} {path : List String} {value : Json}
    (hs : Served s t) (h : Wrote kind space name path value t u) :
    Wrote kind space name path value s u := by
  obtain ⟨body, h⟩ := h
  exact ⟨body, Got.after hs h⟩

theorem Wrote.before {kind : Kind} {space name : String} {path : List String} {value : Json}
    (h : Wrote kind space name path value s t) (ht : Served t u) :
    Wrote kind space name path value s u := by
  obtain ⟨body, h⟩ := h
  exact ⟨body, h.before ht⟩

end Server

open Server (Read Wrote)

theorem yields_get (kind : Kind) (space name : String) (s : Server) :
    Yields (fun object t => Read kind space name object s t) (fun _ _ => True)
      (get kind space name) s := by
  cases hrun : (get kind space name).run s with
  | mk out t =>
    have hserve : t = s.serve (.get kind space name) := congrArg Prod.snd hrun.symm
    cases out with
    | ok object =>
      refine .of_ok hrun ?_
      rw [hserve]
      exact .now (congrArg Prod.fst hrun)
    | error fault => exact .of_error hrun trivial

theorem path?_of_run_patch {kind : Kind} {space name first : String} {body object : Json}
    {s : Server} (h : ((patch kind space name body).run s).1 = .ok object)
    (hfirst : "metadata" ≠ first) (rest : List String) :
    ∃ target : Json, object.path? (first :: rest) = (target.merge body).path? (first :: rest) := by
  rw [patch, run_answer] at h
  cases hout : (s.outcome (Request.patch kind space name body).verb).1 with
  | some fault =>
    rw [hout] at h
    cases h
  | none =>
    rw [hout, Option.elim_none] at h
    simp only [Server.applyPatch] at h
    split at h
    · cases h
    · rename_i target _
      refine ⟨target, ?_⟩
      split at h
      · cases h
        rfl
      · cases h
        exact Json.path?_merge_of_ne hfirst ..

theorem yields_patch {value : Json} (hvalue : value.IsLeaf) {first : String}
    (hfirst : "metadata" ≠ first) (rest : List String) (kind : Kind) (space name : String)
    (s : Server) :
    Yields (fun _ t => Wrote kind space name (first :: rest) value s t) (fun _ _ => True)
      (discard (patch kind space name (Json.nested (first :: rest) value))) s := by
  cases hrun : (patch kind space name (Json.nested (first :: rest) value)).run s with
  | mk out t =>
    have hserve : t = s.serve (.patch kind space name (Json.nested (first :: rest) value)) :=
      congrArg Prod.snd hrun.symm
    cases out with
    | error fault => exact .of_error (by rw [run_discard, hrun]; rfl) trivial
    | ok object =>
      have hobject := congrArg Prod.fst hrun
      obtain ⟨target, hpath⟩ := path?_of_run_patch hobject hfirst rest
      refine .of_ok (a := PUnit.unit) (by rw [run_discard, hrun]; rfl) ?_
      rw [hserve]
      exact ⟨_, .now ⟨object, hobject, hpath.trans (hvalue.path?_merge_nested target _)⟩⟩

end Api

namespace Controller

open Api.Server (Served Read Wrote)

/-! ### What is to be written -/

/-- Between two states of the server, the allocations of a breakdown were written to the object that
it names for them, if it names one. -/
def Written (site : Site) (counts : Allocation.ServerCounts) (b : Breakdown)
    (s t : Api.Server) : Prop :=
  ∀ servers, b.servers? = some servers → ∃ plans,
    Allocation.planSets b.sets counts site.config.leastAllocation = .ok plans ∧
      Wrote .servers (Api.spaceOrDefault servers.space) servers.name ["spec", "allocationSets"]
        (.array (plans.map Allocation.Plan.encode)) s t

/-- Between two states of the server, a breakdown was read. -/
def Found (reference : Reference) (b : Breakdown) (s t : Api.Server) : Prop :=
  ∃ object, Read .breakdown (Api.spaceOrDefault reference.space) reference.name object s t ∧
    Breakdown.decode? object = some b

/-- Between two states of the server, the workflow of a job was read, the compute nodes of the job
were written to the object that the workflow names, each once and in order, and the allocations of
every breakdown of the workflow were written for them. -/
inductive Provided (site : Site) (id : JobId) (nodelist : List String) (s t : Api.Server) : Prop
  | of {listed : List String} {object : Json} {w : Workflow} {counts : Allocation.ServerCounts}
    {computes : Reference}
    (expanded : Hostlist.expand? (",".intercalate nodelist) = .ok (some listed))
    (read : Read .workflow Api.defaultSpace id.workflowName object s t)
    (decoded : Workflow.decode? object = some w)
    (counted : site.topology.serverCounts listed.eraseDups = .ok counts)
    (named : w.status.bind Workflow.Status.computes = some computes)
    (written : Wrote .computes (Api.spaceOrDefault computes.space) computes.name ["data"]
      (.array (listed.eraseDups.map fun host => .ofFields [("name", .string host)])) s t)
    (allocated : ∀ reference ∈ (w.status.map Workflow.Status.breakdowns).getD [],
      ∃ b, Found reference b s t ∧ Written site counts b s t)

/-- The records that are left are as they were. -/
def Spared (g : Registry) (c : Controller) : Prop :=
  ∀ id r, c.registry.find? id = some r → g.find? id = some r

/-- What the outcome of a setup says. -/
structure Provides (site : Site) (id : JobId) (nodelist : List String) (c : Controller)
    (outcome : Except Refusal Reply) (t : Controller) : Prop where
  /-- The desired stage of a workflow is written at the end, after everything else. -/
  provided : ∀ q ∈ requested c t, q.SetsDesired → q = Api.stageRequest id.workflowName .setup ∧
    ∃ v, Provided site id nodelist c.world.api v ∧
      t.world.api = v.serve (Api.stageRequest id.workflowName .setup)
  spared : ∀ refusal, outcome = .error refusal → Spared c.registry t

/-! ### Step by step -/

/-- A setup on its way: the records are as they were. -/
structure Along (c t : Controller) : Prop where
  registry : t.registry = c.registry
  served : Served c.world.api t.world.api

variable {α : Type} {site : Site} {id : JobId} {c t u : Controller}

instance : Std.Refl Along := ⟨fun c => ⟨rfl, Std.Refl.refl c.world.api⟩⟩

instance : Trans Along Along Along :=
  ⟨fun h h' => ⟨h'.registry.trans h.registry, Trans.trans h.served h'.served⟩⟩

theorem Along.spared (h : Along c t) : Spared c.registry t := by
  intro id r hr
  rwa [h.registry] at hr

theorem yields_demand (refusal : Refusal) (a : Option α) (h : Along c t) :
    Yields (fun b u => a = some b ∧ u = t) (fun _ u => Spared c.registry u) (demand refusal a)
      t := by
  cases a with
  | some b => exact .of_ok rfl ⟨rfl, rfl⟩
  | none => exact .of_error rfl h.spared

theorem yields_survive (outcome : Except Crash α) (h : Along c t) :
    Yields (fun a u => outcome = .ok a ∧ u = t) (fun _ u => Spared c.registry u) (survive outcome)
      t := by
  cases outcome with
  | ok a => exact .of_ok rfl ⟨rfl, rfl⟩
  | error crash => exact .of_error rfl h.spared

theorem yields_countServers (site : Site) (hosts : List String) (h : Along c t) :
    Yields (fun counts u => site.topology.serverCounts hosts = .ok counts ∧ u = t)
      (fun _ u => Spared c.registry u) (countServers site hosts) t := by
  unfold countServers
  split
  · rename_i counts hcounts
    exact .of_ok rfl ⟨hcounts, rfl⟩
  · exact .of_error rfl h.spared
  · exact .of_error rfl h.spared

/-- A conversation leaves the records alone, and what it yields is known from the server. -/
theorem yields_ask {conversation : Api.Call α} {P : α → Api.Server → Prop}
    (asks : Api.Asks (fun _ => True) conversation)
    (yields : Yields P (fun _ _ => True) conversation t.world.api) (h : Along c t) :
    Yields (fun a u => Along t u ∧ P a u.world.api) (fun _ u => Spared c.registry u)
      (ask conversation) t := by
  have served : Served t.world.api (conversation.run t.world.api).2 := asks t.world.api
  have hrun := run_ask conversation t
  obtain ⟨a, api, hconversation, hP⟩ | ⟨fault, api, hconversation, _⟩ := yields.cases
  · rw [hconversation] at hrun served
    exact .of_ok hrun ⟨⟨rfl, served⟩, hP⟩
  · rw [hconversation] at hrun served
    have after : Along t { t with world := { t.world with api } } := ⟨rfl, served⟩
    exact .of_error hrun (Along.spared (Trans.trans h after))

theorem yields_decoded (decode : Decoder α) (object : Json) (s : Api.Server) :
    Yields (fun a t => decode object = some a ∧ t = s) (fun _ _ => True)
      (Api.decoded decode object) s := by
  unfold Api.decoded
  cases hdecode : decode object with
  | none => exact .of_error rfl trivial
  | some a => exact .of_ok rfl ⟨rfl, rfl⟩

theorem yields_readWorkflow (id : JobId) (c : Controller) :
    Yields (fun w t => Along c t ∧ ∃ object, Read .workflow Api.defaultSpace id.workflowName object
      c.world.api t.world.api ∧ Workflow.decode? object = some w)
      (fun _ t => Spared c.registry t) (readWorkflow id) c := by
  have found : Yields (fun object t => Read .workflow Api.defaultSpace id.workflowName object
      c.world.api t) (fun _ _ => True) (Api.getWorkflow id.workflowName) c.world.api :=
    Api.yields_get _ _ _ _
  have served : Served c.world.api ((Api.getWorkflow id.workflowName).run c.world.api).2 :=
    Api.Asks.get (P := fun _ => True) trivial c.world.api
  have hrun := run_look id.workflowName c
  obtain ⟨object, api, hget, hread⟩ | ⟨fault, api, hget, _⟩ := found.cases
  · rw [hget] at served hrun
    have along : Along c { c with world := { c.world with api } } := ⟨rfl, served⟩
    unfold Yields
    rw [readWorkflow, run_bind_ok hrun]
    refine (yields_ask (.decoded _ _) (yields_decoded _ _ _) along).mono ?_ fun _ _ h => h
    rintro w t ⟨halong, hdecode, hapi⟩
    refine ⟨Trans.trans along halong, object, ?_, hdecode⟩
    rw [hapi]
    exact hread
  · rw [hget] at hrun
    cases hgone : fault.isNotFound with
    | true =>
      have dropped : (readWorkflow id).run c = (.error (.api fault),
          { registry := c.registry.erase id, world := { c.world with api } }) := by
        rw [readWorkflow, run_bind_ok hrun]
        simp only [hgone]
        rfl
      refine .of_error dropped fun other r hr => ?_
      rw [Dict.find?_erase] at hr
      split at hr
      · cases hr
      · exact hr
    | false =>
      have kept : (readWorkflow id).run c =
          (.error (.api fault), { c with world := { c.world with api } }) := by
        rw [readWorkflow, run_bind_ok hrun]
        simp only [hgone]
        rfl
      exact .of_error kept fun _ _ hr => hr

theorem yields_writePlans (reference : Reference) (plans : List Allocation.Plan)
    (s : Api.Server) :
    Yields (fun _ t => Wrote .servers (Api.spaceOrDefault reference.space) reference.name
      ["spec", "allocationSets"] (.array (plans.map Allocation.Plan.encode)) s t) (fun _ _ => True)
      (writePlans reference plans) s :=
  Api.yields_patch (Json.isLeaf_array _) (by decide) _ _ _ _ s

theorem yields_writeComputes (reference : Reference) (hosts : List String) (s : Api.Server) :
    Yields (fun _ t => Wrote .computes (Api.spaceOrDefault reference.space) reference.name ["data"]
      (.array (hosts.map fun host => .ofFields [("name", .string host)])) s t) (fun _ _ => True)
      (writeComputes reference hosts) s :=
  Api.yields_patch (Json.isLeaf_array _) (by decide) _ _ _ _ s

theorem Written.after {counts : Allocation.ServerCounts} {b : Breakdown} {s t u : Api.Server}
    (hs : Served s t) (h : Written site counts b t u) : Written site counts b s u := by
  intro servers hservers
  obtain ⟨plans, hplans, hwrote⟩ := h servers hservers
  exact ⟨plans, hplans, hwrote.after hs⟩

theorem Written.before {counts : Allocation.ServerCounts} {b : Breakdown} {s t u : Api.Server}
    (h : Written site counts b s t) (ht : Served t u) : Written site counts b s u := by
  intro servers hservers
  obtain ⟨plans, hplans, hwrote⟩ := h servers hservers
  exact ⟨plans, hplans, hwrote.before ht⟩

theorem yields_writeServers (site : Site) (counts : Allocation.ServerCounts) (b : Breakdown)
    (h : Along c t) :
    Yields (fun _ u => Along t u ∧ Written site counts b t.world.api u.world.api)
      (fun _ u => Spared c.registry u) (writeServers site counts b) t := by
  unfold writeServers
  cases hservers : b.servers? with
  | none =>
    refine .of_ok rfl ⟨Std.Refl.refl t, fun servers h => ?_⟩
    rw [hservers] at h
    cases h
  | some reference =>
    dsimp only
    cases hplans : Allocation.planSets b.sets counts site.config.leastAllocation with
    | error failure => cases failure <;> exact .of_error rfl h.spared
    | ok plans =>
      refine (yields_ask (.discard (.patch trivial)) (yields_writePlans reference plans _) h).mono
        (fun _ u hu => ⟨hu.1, fun servers hs => ?_⟩) fun _ _ hspared => hspared
      rw [hservers] at hs
      obtain rfl := Option.some.inj hs
      exact ⟨plans, hplans, hu.2⟩

theorem yields_breakdowns (w : Workflow) (s : Api.Server) :
    Yields (fun found t => ∀ reference ∈ (w.status.map Workflow.Status.breakdowns).getD [],
      ∃ b ∈ found, Found reference b s t) (fun _ _ => True) (Handling.breakdowns w) s := by
  have each (reference : Reference) (t : Api.Server) : Yields
      (fun b u => Served t u ∧ Found reference b t u) (fun _ _ => True) (do
        let object ← Api.get .breakdown (Api.spaceOrDefault reference.space) reference.name
        Api.decoded Breakdown.decode? object) t := by
    refine (Api.yields_get _ _ _ t).bind fun object u hread => ?_
    refine (yields_decoded _ object u).mono (fun b v h => ?_) fun _ _ h => h
    obtain ⟨hdecode, rfl⟩ := h
    exact ⟨Api.Server.Got.served hread, object, hread, hdecode⟩
  refine (Yields.mapM (R := Served) (W := Found) (fun reference t _ => each reference t)
    ?_ ?_ (Std.Refl.refl s)).mono (fun _ _ h => h.2) fun _ _ h => h
  · rintro reference b t u v htu ⟨object, hread, hdecode⟩
    exact ⟨object, Api.Server.Got.after htu hread, hdecode⟩
  · rintro reference b t u v ⟨object, hread, hdecode⟩ huv
    exact ⟨object, Api.Server.Got.before hread huv, hdecode⟩

/-- Storage that was placed is provided for the job. -/
theorem yields_place (site : Site) (id : JobId) (nodelist : List String) (c : Controller) :
    Yields (fun _ t => Along c t ∧ Provided site id nodelist c.world.api t.world.api)
      (fun _ t => Spared c.registry t) (place site id nodelist) c := by
  have here : Along c c := Std.Refl.refl c
  refine (yields_survive _ here).bind fun unique s hunique => ?_
  obtain ⟨hunique, rfl⟩ := hunique
  refine (yields_demand _ unique here).bind fun hosts t hhosts => ?_
  obtain ⟨rfl, rfl⟩ := hhosts
  obtain ⟨listed, hlisted, rfl⟩ := Hostlist.expand?_of_expandUnique? hunique
  refine (yields_readWorkflow id t).bind fun w u hw => ?_
  obtain ⟨hu, object, hread, hdecode⟩ := hw
  refine (yields_countServers site _ hu).bind fun counts v hcounts => ?_
  obtain ⟨hcounts, rfl⟩ := hcounts
  refine (yields_survive _ hu).bind fun rabbits v hrabbits => ?_
  obtain ⟨-, rfl⟩ := hrabbits
  have told (notice : Notice) : Yields (fun _ x => Along v x) (fun _ x => Spared t.registry x)
      (inWorld (.tell notice)) v := .of_ok rfl ⟨rfl, Std.Refl.refl v.world.api⟩
  refine (told _).bind fun _ x hx => ?_
  have hx' : Along t x := Trans.trans hu hx
  refine (yields_demand _ _ hx').bind fun computes _ hcomputes => ?_
  obtain ⟨hcomputes, rfl⟩ := hcomputes
  refine (yields_ask (.discard (.patch trivial)) (yields_writeComputes computes _ _) hx').bind
    fun _ y hy => ?_
  obtain ⟨hy, hwrote⟩ := hy
  have hy' : Along t y := Trans.trans hx' hy
  have reads : Api.Asks (fun _ => True) (Handling.breakdowns w) :=
    Handling.asks_breakdowns (fun _ _ => trivial) w
  refine (yields_ask reads (yields_breakdowns w _) hy').bind fun found z hz => ?_
  obtain ⟨hz, hfound⟩ := hz
  have hz' : Along t z := Trans.trans hy' hz
  have writes : Yields (fun _ r => Along z r ∧
      ∀ b ∈ found, Written site counts b z.world.api r.world.api) (fun _ r => Spared t.registry r)
      (found.forM (writeServers site counts)) z :=
    Yields.forM (R := Along) (W := fun b s r => Written site counts b s.world.api r.world.api)
      (fun b s hs => yields_writeServers site counts b (Trans.trans hz' hs))
      (fun hst h => h.after hst.served) (fun h htu => h.before htu.served) (Std.Refl.refl z)
  refine writes.bind fun _ r hr => ?_
  obtain ⟨hr, hwritten⟩ := hr
  refine .of_ok rfl ⟨Trans.trans hz' hr, ?_⟩
  -- what was read and written step by step was read and written between the start and the end
  refine .of hlisted (Api.Server.Got.before hread ?_) hdecode hcounts hcomputes ?_
    fun reference hreference => ?_
  · exact Along.served (Trans.trans (Trans.trans hx (Trans.trans hy hz)) hr)
  · exact (hwrote.after hx'.served).before (Along.served (Trans.trans hz hr))
  · obtain ⟨b, hb, object, hbreakdown, hbdecode⟩ := hfound reference hreference
    exact ⟨b, ⟨object, (Api.Server.Got.after hy'.served hbreakdown).before hr.served, hbdecode⟩,
      (hwritten b hb).after hz'.served⟩

/-! ### The whole setup -/

theorem asked_place (site : Site) (id : JobId) (nodelist : List String) (c : Controller) :
    Api.Server.Asked (fun q => ¬q.SetsDesired) c.world.api
      ((place site id nodelist).run c).2.world.api := by
  let plain : License := ⟨fun q => ¬q.SetsDesired, fun _ => True, fun _ => True⟩
  have allows : plain.Allows site id := ⟨fun _ hq => hq.1.1, fun _ _ _ => trivial, fun _ => trivial⟩
  have acted : Acted plain c ((place site id nodelist).run c).2 := acted_place allows nodelist c
  exact acted.1

/-- Once the storage of a job is placed, the rest of a setup is the request for the stage, and
changes the record only if that succeeds. -/
theorem run_stage (site : Site) (id : JobId) (hosts servers : List String) (t : Controller) :
    let rest : Answering Reply := do
      ask (Handling.requestStage id.workflowName .setup)
      settle site id hosts servers
      return .done
    (rest.run t).2.world.api = t.world.api.serve (Api.stageRequest id.workflowName .setup) ∧
      ∀ refusal, (rest.run t).1 = .error refusal → (rest.run t).2.registry = t.registry := by
  intro rest
  have hserve := Handling.state_run_requestStage id.workflowName .setup t.world.api
  have hask := run_ask (Handling.requestStage id.workflowName .setup) t
  generalize (Handling.requestStage id.workflowName .setup).run t.world.api = answer at hserve hask
  obtain ⟨outcome, api⟩ := answer
  obtain rfl : api = t.world.api.serve _ := hserve
  cases outcome with
  | error fault =>
    have hrun : rest.run t = _ := run_bind_error hask _
    rw [hrun]
    exact ⟨rfl, fun _ _ => rfl⟩
  | ok _ =>
    obtain ⟨u, hsettle, hapi⟩ := run_settle site id hosts servers
      { t with world := { t.world with
        api := t.world.api.serve (Api.stageRequest id.workflowName .setup) } }
    have hrun : rest.run t = (.ok .done, u) := by
      rw [run_bind_ok hask, run_bind_ok hsettle]
      rfl
    rw [hrun]
    exact ⟨hapi, fun _ h => by cases h⟩

/-- The stage is asked for at the end of a setup, after all the storage of the job was placed, and a
setup that ends in an error changes no record that it leaves. -/
theorem provides_setup (site : Site) (id : JobId) (nodelist : List String) (c : Controller) :
    Provides site id nodelist c ((setup site id nodelist).run c).1
      ((setup site id nodelist).run c).2 := by
  have plain := asked_place site id nodelist c
  rw [setup, run_bind_ok (run_get_apply c)]
  cases hleaving : isLeaving c.registry id with
  | true =>
    have none : Api.Server.Asked (fun _ => False) c.world.api c.world.api :=
      Std.Refl.refl c.world.api
    rw [if_pos rfl]
    exact ⟨fun q hq => (none.drop_requests q hq).elim, fun refusal hrefusal => by cases hrefusal⟩
  | false =>
    rw [if_neg (by simp)]
    obtain ⟨⟨hosts, servers⟩, t, hplace, along, provided⟩ | ⟨refusal, t, hplace, hspared⟩ :=
      (yields_place site id nodelist c).cases
    · rw [run_bind_ok hplace]
      rw [hplace] at plain
      obtain ⟨hapi, hregistry⟩ := run_stage site id hosts servers t
      refine ⟨fun q hq hsets => ⟨?_, t.world.api, provided, hapi⟩, fun refusal hrefusal => ?_⟩
      · let staged : Api.Request := Api.stageRequest id.workflowName .setup
        have before : Api.Server.Asked (fun q => q.SetsDesired → q = staged) c.world.api
          t.world.api := plain.mono fun _ hplain hsets => absurd hsets hplain
        have last : Api.Server.Asked (fun q => q.SetsDesired → q = staged) t.world.api
          (t.world.api.serve staged) := Api.Server.Asked.one (fun _ => rfl) t.world.api
        rw [← hapi] at last
        exact Api.Server.Asked.drop_requests (Trans.trans before last) q hq hsets
      · intro other r hr
        rw [← along.registry, ← hregistry refusal hrefusal]
        exact hr
    · rw [run_bind_error hplace]
      rw [hplace] at plain
      exact ⟨fun q hq hsets => absurd hsets (plain.drop_requests q hq), fun _ _ => hspared⟩

end Controller

end Warren
