import Warren.Health

/-!
# The hosts that notices about health are about

A notice names its hosts in one text. `Push` is a notice before its hosts are written, and what is
sent is what is pushed, written out (`notices_eq`), up to a text that cannot be written. Two paths
lead to pushes: the health of a storage node, and compute nodes that are marked from outside.
`targets_of_acts` says which hosts a sequence of them can name. Nothing is drained where draining is
off, and a property is set or removed for known hosts only that are not excluded. The allowlist,
however, binds one of the two paths.
-/

namespace Warren

/-- Whether a host is known: to the graph, or to the topology where there is no graph. -/
def Site.knows (site : Site) (host : String) : Bool :=
  match site.graph with
  | some graph => graph.computes.contains host
  | none => (site.topology.storageOf host).isSome

theorem Site.isMarkable_eq (site : Site) (host : String) :
    site.isMarkable host = (!site.config.excluded.contains host && site.knows host) := rfl

namespace Health

/-- A notice about the health of storage whose hosts are not written as a text yet. -/
inductive Push where
  /-- A storage device went up or down. -/
  | status (path : String) (up : Bool)
  | drain (hosts : List String) (reason : String)
  | mark (hosts : List String)
  | unmark (hosts : List String)
deriving DecidableEq, Repr

namespace Push

def notice : Push → Except Crash Notice
  | .status path up => .ok (.setStatus path up)
  | .drain hosts reason => Notice.drainHosts hosts reason
  | .mark hosts => Notice.markHosts hosts
  | .unmark hosts => Notice.unmarkHosts hosts

/-- The hosts whose property is set or removed. -/
def changed : Push → List String
  | .mark hosts | .unmark hosts => hosts
  | _ => []

end Push

/-- A push about hosts, none without hosts. -/
def pushAbout (make : List String → Push) (hosts : List String) : List Push :=
  if hosts.isEmpty then [] else [make hosts]

theorem map_notice_pushAbout (make : List String → Push) (hosts : List String) :
    (pushAbout make hosts).map Push.notice = about (fun hosts => (make hosts).notice) hosts := by
  unfold pushAbout about
  split <;> rfl

theorem mem_pushAbout {make : List String → Push} {hosts : List String} {push : Push} :
    push ∈ pushAbout make hosts ↔ hosts ≠ [] ∧ push = make hosts := by
  unfold pushAbout
  cases hosts <;> simp

def devicePushes (site : Site) (node : StorageNode) : List Push :=
  match site.graph.bind (·.racks.find? node.name) with
  | some rack => (List.range rack.devices.toNat).map fun slot =>
      .status s!"{rack.path}/ssd{slot}" (node.health = .ready)
  | none => []

/-- What the health of a storage node calls for. -/
def pushes (site : Site) (node : StorageNode) : List Push :=
  devicePushes site node
    ++ pushAbout (.drain · linkReason) (toDrain site node)
    ++ pushAbout .unmark (toUnmark site node)
    ++ pushAbout .mark (toMark site node)

theorem map_notice_pushes (site : Site) (node : StorageNode) :
    (pushes site node).map Push.notice = notices site node := by
  have devices : (devicePushes site node).map Push.notice = deviceNotices site node := by
    unfold devicePushes deviceNotices
    cases site.graph.bind (·.racks.find? node.name) with
    | none => rfl
    | some rack => simp only [List.map_map, Function.comp_def, Push.notice]
  simp only [pushes, notices, List.map_append, devices, map_notice_pushAbout, Push.notice]

/-- The storage node that an event of the storage nodes reports. -/
def reported? : Api.Event → Option StorageNode
  | .added object | .modified object => StorageNode.decode? object
  | .deleted _ | .bookmark _ | .error _ _ => none

theorem onEvent_eq (site : Site) (event : Api.Event) :
    onEvent site event = ((reported? event).map (notices site)).getD [] := by
  cases event <;> rfl

/-- What compute nodes that are to be marked call for. -/
def markPushes (site : Site) (hosts : List String) (reason : String) : List Push :=
  pushAbout .mark (hosts.filter site.isMarkable)
    ++ if site.config.drains then pushAbout (.drain · reason) (hosts.filter site.isMarkable) else []

theorem map_notice_markPushes (site : Site) (hosts : List String) (reason : String) :
    (markPushes site hosts reason).map Push.notice = mark site hosts reason := by
  unfold markPushes mark
  rw [List.map_append, map_notice_pushAbout]
  split
  · rw [map_notice_pushAbout]
    rfl
  · rfl

/-- Something that the health of storage is told. -/
inductive Act where
  /-- An event of the storage nodes. -/
  | hear (event : Api.Event)
  /-- Compute nodes are to be marked, for a reason. -/
  | mark (hosts : List String) (reason : String)

namespace Act

def notices (site : Site) : Act → List (Except Crash Notice)
  | .hear event => onEvent site event
  | .mark hosts reason => Health.mark site hosts reason

def pushes (site : Site) : Act → List Push
  | .hear event => ((reported? event).map (Health.pushes site)).getD []
  | .mark hosts reason => markPushes site hosts reason

theorem map_notice_pushes (site : Site) (act : Act) :
    (act.pushes site).map Push.notice = act.notices site := by
  cases act with
  | hear event =>
    rw [pushes, notices, onEvent_eq]
    cases reported? event with
    | none => rfl
    | some node => exact Health.map_notice_pushes site node
  | mark hosts reason => exact map_notice_markPushes site hosts reason

end Act

theorem notices_eq (site : Site) (acts : List Act) :
    acts.flatMap (Act.notices site) = (acts.flatMap (Act.pushes site)).map Push.notice := by
  rw [List.map_flatMap]
  exact congrArg (acts.flatMap ·) (funext fun act => (act.map_notice_pushes site).symm)

/-! ### Which hosts are named -/

variable {site : Site} {node : StorageNode} {push : Push} {host : String}

theorem mem_pushes_cases (h : push ∈ pushes site node) :
    (∃ path up, push = .status path up) ∨
      toDrain site node ≠ [] ∧ push = .drain (toDrain site node) linkReason ∨
      push = .unmark (toUnmark site node) ∨ push = .mark (toMark site node) := by
  simp only [pushes, List.mem_append, mem_pushAbout] at h
  rcases h with ((hdevice | hdrain) | ⟨_, hunmark⟩) | ⟨_, hmark⟩
  · unfold devicePushes at hdevice
    split at hdevice
    · obtain ⟨slot, _, rfl⟩ := List.mem_map.mp hdevice
      exact Or.inl ⟨_, _, rfl⟩
    · cases hdevice
  · exact Or.inr (Or.inl hdrain)
  · exact Or.inr (Or.inr (Or.inl hunmark))
  · exact Or.inr (Or.inr (Or.inr hmark))

theorem isDrainable_of_mem_toDrain (h : host ∈ toDrain site node) :
    site.config.drains = true ∧ site.isDrainable host = true := by
  unfold toDrain at h
  split at h
  · rename_i hdrains
    exact ⟨hdrains, (List.mem_filter.mp h).2⟩
  · cases h

theorem isMarkable_of_mem_toUnmark (h : host ∈ toUnmark site node) :
    site.isMarkable host = true := by
  have hboth := (List.mem_filter.mp h).2
  rw [Bool.and_eq_true] at hboth
  exact hboth.2

theorem isMarkable_of_mem_toMark (h : host ∈ toMark site node) : site.isMarkable host = true :=
  (List.mem_filter.mp h).2

theorem mem_markPushes {hosts : List String} {reason : String} :
    push ∈ markPushes site hosts reason ↔ hosts.filter site.isMarkable ≠ [] ∧
      (push = .mark (hosts.filter site.isMarkable) ∨
        site.config.drains = true ∧ push = .drain (hosts.filter site.isMarkable) reason) := by
  unfold markPushes
  split <;> simp_all [mem_pushAbout, and_or_left]

namespace Act

variable {act : Act}

theorem mem_pushes_hear {event : Api.Event} :
    push ∈ (hear event).pushes site ↔
      ∃ node, reported? event = some node ∧ push ∈ Health.pushes site node := by
  rw [pushes]
  cases reported? event <;> simp

/-- Something is drained only where draining is on, and only hosts that may be drained or that were
to be marked. -/
theorem mem_drain {hosts : List String} {reason : String}
    (h : Push.drain hosts reason ∈ act.pushes site) :
    site.config.drains = true ∧ ∀ host ∈ hosts, site.isDrainable host = true ∨
      ∃ marked reason, act = .mark marked reason ∧ host ∈ marked ∧
        site.isMarkable host = true := by
  cases act with
  | hear event =>
    obtain ⟨node, -, hpush⟩ := mem_pushes_hear.mp h
    obtain ⟨_, _, heq⟩ | ⟨hne, heq⟩ | heq | heq := mem_pushes_cases hpush
    · cases heq
    · cases heq
      obtain ⟨first, hfirst⟩ := List.exists_mem_of_ne_nil _ hne
      exact ⟨(isDrainable_of_mem_toDrain hfirst).1,
        fun host hhost => Or.inl (isDrainable_of_mem_toDrain hhost).2⟩
    · cases heq
    · cases heq
  | mark marked why =>
    obtain ⟨-, heq | ⟨hdrains, heq⟩⟩ := mem_markPushes.mp h
    · cases heq
    · cases heq
      refine ⟨hdrains, fun host hhost => Or.inr ⟨marked, reason, rfl, ?_⟩⟩
      exact List.mem_filter.mp hhost

theorem isMarkable_of_mem_changed (h : push ∈ act.pushes site) (hhost : host ∈ push.changed) :
    site.isMarkable host = true := by
  cases act with
  | hear event =>
    obtain ⟨node, -, hpush⟩ := mem_pushes_hear.mp h
    obtain ⟨_, _, rfl⟩ | ⟨-, rfl⟩ | rfl | rfl := mem_pushes_cases hpush
    · cases hhost
    · cases hhost
    · exact isMarkable_of_mem_toUnmark hhost
    · exact isMarkable_of_mem_toMark hhost
  | mark marked why =>
    obtain ⟨-, rfl | ⟨-, rfl⟩⟩ := mem_markPushes.mp h
    · exact (List.mem_filter.mp hhost).2
    · cases hhost

end Act

/-- What a sequence of acts tells the job manager: where draining is off nothing is drained, and a
property is set or removed only for hosts that are known and not excluded. All hosts that are
drained are in the allowlist, if there is one, exactly if all hosts are that were to be marked, may
be marked and are drained for that. -/
theorem targets_of_acts (site : Site) (acts : List Act) :
    let pushes := acts.flatMap (Act.pushes site)
    acts.flatMap (Act.notices site) = pushes.map Push.notice ∧
    (site.config.drains = false → ∀ hosts reason, .drain hosts reason ∉ pushes) ∧
    (∀ push ∈ pushes, ∀ host ∈ push.changed,
      site.config.excluded.contains host = false ∧ site.knows host = true) ∧
    ∀ allowed, site.config.drainAllowlist = some allowed →
      ((∀ hosts reason, .drain hosts reason ∈ pushes →
          ∀ host ∈ hosts, allowed.contains host = true) ↔
        ∀ hosts reason, .mark hosts reason ∈ acts → site.config.drains = true →
          ∀ host ∈ hosts, site.isMarkable host = true → allowed.contains host = true) := by
  intro pushes
  have origin {push : Push} (h : push ∈ pushes) : ∃ act ∈ acts, push ∈ act.pushes site :=
    List.mem_flatMap.mp h
  refine ⟨notices_eq site acts, fun hoff hosts reason h => ?_, fun push h host hhost => ?_,
    fun allowed hallowed => ?_⟩
  · obtain ⟨act, -, hpush⟩ := origin h
    have hon : site.config.drains = true := (Act.mem_drain hpush).1
    rw [hoff] at hon
    cases hon
  · obtain ⟨act, -, hpush⟩ := origin h
    have hmarkable := Act.isMarkable_of_mem_changed hpush hhost
    simpa [Site.isMarkable_eq] using hmarkable
  · have drainable (host : String) : site.isDrainable host = allowed.contains host := by
      rw [Site.isDrainable, hallowed]
    constructor
    · intro hall hosts reason hact hdrains host hhost hmarkable
      have hmem : host ∈ hosts.filter site.isMarkable := List.mem_filter.mpr ⟨hhost, hmarkable⟩
      have hpush : Push.drain (hosts.filter site.isMarkable) reason ∈ pushes :=
        List.mem_flatMap.mpr ⟨_, hact, mem_markPushes.mpr
          ⟨List.ne_nil_of_mem hmem, Or.inr ⟨hdrains, rfl⟩⟩⟩
      exact hall _ reason hpush host hmem
    · intro hmarks hosts reason h host hhost
      obtain ⟨act, hact, hpush⟩ := origin h
      obtain ⟨hdrains, hhosts⟩ := Act.mem_drain hpush
      rcases hhosts host hhost with hdrainable | ⟨marked, why, rfl, hmem, hmarkable⟩
      · exact (drainable host).symm.trans hdrainable
      · exact hmarks marked why hact hdrains host hmem hmarkable

end Health

namespace Sample

/-- A storage node with two compute nodes, of which only the first may be drained. -/
def guarded : Site where
  config := { Configuration.standard 0 with drainAllowlist := some (.ofList ["node1"]) }
  topology := ⟨[("node1", "rabbit1"), ("node2", "rabbit1")], [("rabbit1", ["node1", "node2"])]⟩
  graph := none
  groupOf user := user

end Sample

namespace Health

/-- The hosts that a notice drains, read from its text. -/
def drainedIn : Notice → List String
  | .drain targets _ _ => (Hostlist.expand? targets).toOption.join.getD []
  | _ => []

/-- A compute node whose file systems are not mounted in time is drained though the allowlist does
not have it. -/
theorem drained_outside_allowlist :
    let allowed := NameSet.ofList ["node1"]
    let told := [Act.mark ["node2"] "rabbit mount timed out"].flatMap (Act.notices Sample.guarded)
    Sample.guarded.config.drainAllowlist = some allowed ∧
      (Notice.upToCrash told).flatMap drainedIn = ["node2"] ∧ allowed.contains "node2" = false := by
  decide +kernel

end Health

end Warren
