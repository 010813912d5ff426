import Mathlib.Data.List.Induction
import Warren.Proofs.Health.Targets

/-!
# The marked hosts of a storage node

The property is set and removed host by host, and what is marked in the end depends on all the
reports of a storage node. `marked_of_reports` says what it comes to: the hosts that the last report
gives cause to mark, and those that an earlier report gave cause to mark although they are not
attached to the storage node. The property of the latter is set because of a reported link, but it
is only removed from attached hosts.
-/

namespace Warren

namespace Health

/-- The marked hosts after a push. -/
def Push.after (before : String → Bool) : Push → String → Bool
  | .mark hosts, host => before host || hosts.contains host
  | .unmark hosts, host => before host && !hosts.contains host
  | .status .., host | .drain .., host => before host

/-- The marked hosts after some pushes, where none was marked before. -/
def marked (pushes : List Push) : String → Bool := pushes.foldl Push.after fun _ => false

/-- Whether a host is to be marked after a report of a storage node: all attached hosts if the
storage node is not ready, those that lost their link if it is and they are not drained for that,
and no other host; in any case only hosts that may be marked. -/
def isAffected (site : Site) (node : StorageNode) (host : String) : Bool :=
  site.isMarkable host &&
    if node.health ≠ .ready then (site.topology.computesOf node.name).contains host
    else !site.config.drains && site.config.softDrains && node.offline.contains host

variable {site : Site} {node : StorageNode} {host : String}

theorem contains_withoutStorage (site : Site) (node : StorageNode) (host : String) :
    (site.isMarkable host && (withoutStorage site node).contains host) =
      isAffected site node host := by
  unfold withoutStorage isAffected
  split
  · rw [NameSet.contains_ofList]
  · split
    · rename_i hsoft
      rw [NameSet.contains_ofList, hsoft, Bool.true_and]
    · rename_i hsoft
      rw [Bool.not_eq_true] at hsoft
      rw [hsoft, Bool.false_and]
      rfl

theorem contains_toMark (site : Site) (node : StorageNode) (host : String) :
    (toMark site node).contains host = isAffected site node host := by
  rw [← contains_withoutStorage, Bool.eq_iff_iff, List.contains_iff_mem, toMark, List.mem_filter,
    NameSet.mem_toList, Bool.and_eq_true, and_comm]

theorem contains_toUnmark (site : Site) (node : StorageNode) (host : String) :
    (toUnmark site node).contains host =
      ((site.topology.computesOf node.name).contains host && site.isMarkable host &&
        !isAffected site node host) := by
  rw [← contains_withoutStorage, Bool.eq_iff_iff, List.contains_iff_mem, toUnmark, List.mem_filter]
  cases site.isMarkable host <;> simp

theorem after_pushAbout {make : List String → Push} (before : String → Bool) (hosts : List String)
    (hnone : (make []).after before = before) :
    (pushAbout make hosts).foldl Push.after before = (make hosts).after before := by
  unfold pushAbout
  cases hosts with
  | nil => exact hnone.symm
  | cons => rfl

/-- What a report makes of the marked hosts: those that it gives cause to mark, and of the others
those that were marked before and that it leaves alone. -/
theorem after_pushes (site : Site) (node : StorageNode) (before : String → Bool) (host : String) :
    (pushes site node).foldl Push.after before host =
      (isAffected site node host ||
        before host && !((site.topology.computesOf node.name).contains host &&
          site.isMarkable host)) := by
  have devices : (devicePushes site node).foldl Push.after before = before := by
    unfold devicePushes
    split
    · generalize List.range _ = slots
      induction slots with
      | nil => rfl
      | cons slot rest ih => exact ih
    · rfl
  have drained : (pushAbout (.drain · linkReason) (toDrain site node)).foldl Push.after before =
      before := after_pushAbout before _ rfl
  have unmarked : (Push.unmark []).after before = before := by
    funext host
    simp [Push.after]
  have marked (now : String → Bool) : (Push.mark []).after now = now := by
    funext host
    simp [Push.after]
  -- no host is in both lists, so it does not matter that the property is removed before it is set
  rw [pushes, List.foldl_append, List.foldl_append, List.foldl_append, devices, drained,
    after_pushAbout before _ unmarked, after_pushAbout _ _ (marked _)]
  change
    (before host && !(toUnmark site node).contains host || (toMark site node).contains host) = _
  rw [contains_toUnmark, contains_toMark]
  cases isAffected site node host <;> simp

theorem isMarkable_of_isAffected (h : isAffected site node host = true) :
    site.isMarkable host = true := by
  rw [isAffected, Bool.and_eq_true] at h
  exact h.1

/-! ### Reports one after the other -/

theorem marked_append_pushes (site : Site) (reports : List StorageNode) (node : StorageNode)
    (host : String) : marked ((reports ++ [node]).flatMap (pushes site)) host =
      (isAffected site node host || marked (reports.flatMap (pushes site)) host &&
        !((site.topology.computesOf node.name).contains host && site.isMarkable host)) := by
  rw [List.flatMap_append, List.flatMap_singleton, marked, List.foldl_append, after_pushes]
  rfl

theorem isMarkable_of_marked {reports : List StorageNode}
    (h : marked (reports.flatMap (pushes site)) host = true) : site.isMarkable host = true := by
  induction reports using List.reverseRecOn with
  | nil => cases h
  | append_singleton reports node ih =>
    rw [marked_append_pushes, Bool.or_eq_true, Bool.and_eq_true] at h
    rcases h with h | ⟨h, -⟩
    · exact isMarkable_of_isAffected h
    · exact ih h

theorem marked_append (site : Site) (reports : List StorageNode) (node : StorageNode)
    (host : String) : marked ((reports ++ [node]).flatMap (pushes site)) host =
      (isAffected site node host || marked (reports.flatMap (pushes site)) host &&
        !(site.topology.computesOf node.name).contains host) := by
  rw [marked_append_pushes]
  cases hmarked : marked (reports.flatMap (pushes site)) host with
  | false => rfl
  | true => rw [isMarkable_of_marked hmarked, Bool.and_true]

theorem marked_of_not_attached {reports : List StorageNode}
    (h : ∀ report ∈ reports, (site.topology.computesOf report.name).contains host = false) :
    marked (reports.flatMap (pushes site)) host = reports.any (isAffected site · host) := by
  induction reports using List.reverseRecOn with
  | nil => rfl
  | append_singleton reports node ih =>
    have hnode : (site.topology.computesOf node.name).contains host = false := h node (by simp)
    have hreports := ih fun report hreport => h report (List.mem_append_left _ hreport)
    rw [marked_append, hnode, hreports, List.any_append]
    simp [Bool.or_comm]

/-- After reports of one storage node, the marked hosts are those that the last report gives cause
to mark, and those that are not attached and that an earlier report gave cause to mark. -/
theorem marked_of_same {reports : List StorageNode}
    (h : ∀ report ∈ reports, report.name = node.name) (host : String) :
    marked ((reports ++ [node]).flatMap (pushes site)) host =
      (isAffected site node host || reports.any (isAffected site · host) &&
        !(site.topology.computesOf node.name).contains host) := by
  rw [marked_append]
  cases hattached : (site.topology.computesOf node.name).contains host with
  | true => simp
  | false =>
    rw [marked_of_not_attached fun report hreport => by rw [h report hreport, hattached]]

theorem flatMap_hear (site : Site) (events : List Api.Event) :
    (events.map Act.hear).flatMap (Act.pushes site) =
      (events.filterMap reported?).flatMap (pushes site) := by
  induction events with
  | nil => rfl
  | cons event rest ih =>
    rw [List.map_cons, List.flatMap_cons, ih, List.filterMap_cons, Act.pushes]
    cases reported? event <;> rfl

/-- After events of one storage node, exactly those hosts are marked that the last report gives
cause to mark, and those that are not attached and that an earlier report gave cause to mark. So the
property is where it belongs exactly if there are none of the latter apart from the former. -/
theorem marked_of_reports (site : Site) {events : List Api.Event} {event : Api.Event}
    {node : StorageNode} (hnode : reported? event = some node)
    (hsame : ∀ earlier ∈ events, ∀ report, reported? earlier = some report →
      report.name = node.name) :
    let acts := (events ++ [event]).map Act.hear
    let pushes := acts.flatMap (Act.pushes site)
    let strays (host : String) := (events.filterMap reported?).any (isAffected site · host) &&
      !(site.topology.computesOf node.name).contains host
    acts.flatMap (Act.notices site) = pushes.map Push.notice ∧
    (∀ host, marked pushes host = (isAffected site node host || strays host)) ∧
    ((∀ host, marked pushes host = isAffected site node host) ↔
      ∀ host, strays host = true → isAffected site node host = true) := by
  intro acts pushes strays
  have hpushes : pushes = (events.filterMap reported? ++ [node]).flatMap (Health.pushes site) := by
    have hlast : [event].filterMap reported? = [node] := by
      rw [List.filterMap_cons, hnode, List.filterMap_nil]
    rw [← hlast, ← List.filterMap_append]
    exact flatMap_hear site _
  have hmarked (host : String) :
      marked pushes host = (isAffected site node host || strays host) := by
    rw [hpushes]
    refine marked_of_same (fun report hreport => ?_) host
    obtain ⟨earlier, hearlier, hreported⟩ := List.mem_filterMap.mp hreport
    exact hsame earlier hearlier report hreported
  refine ⟨notices_eq site acts, hmarked, ?_⟩
  simp only [hmarked, Bool.or_eq_left_iff_imp]

end Health

namespace Sample

/-- Two storage nodes with a compute node each. A compute node that lost its link is marked and not
drained. -/
def lenient : Site where
  config := { Configuration.standard 0 with drains := false }
  topology := ⟨[("node1", "rabbit1"), ("node2", "rabbit2")],
    [("rabbit1", ["node1"]), ("rabbit2", ["node2"])]⟩
  graph := none
  groupOf user := user

/-- The second storage node is ready and reports its link to the compute node of the first one. -/
def linkReport (link : String) : Api.Event :=
  let computes := Json.array [.ofFields [("name", .string "node1"), ("status", .string link)]]
  .modified (.ofFields [("metadata", .ofFields [("name", .string "rabbit2")]),
    ("status", .ofFields [("status", .string "Ready"),
      ("access", .ofFields [("computes", computes)])])])

/-- The second storage node as it reports that link. -/
def linked (link : String) : StorageNode where
  metadata := { Metadata.empty with name := "rabbit2" }
  status := some "Ready"
  links := [⟨"node1", some link⟩]

end Sample

namespace Health

/-- The hosts whose property a notice sets and those whose property it removes, read from its
text. -/
def changedIn : Notice → List String × List String
  | .setProperty targets _ => ((Hostlist.expand? targets).toOption.join.getD [], [])
  | .removeProperty targets _ => ([], (Hostlist.expand? targets).toOption.join.getD [])
  | _ => ([], [])

/-- A compute node that lost its link to another storage node than its own stays marked though the
link is back. -/
theorem marked_after_link_is_back :
    let acts := [Act.hear (Sample.linkReport "Offline"), .hear (Sample.linkReport "Ready")]
    (Notice.upToCrash (acts.flatMap (Act.notices Sample.lenient))).map changedIn =
        [([], ["node2"]), (["node1"], []), ([], ["node2"])] ∧
      marked (acts.flatMap (Act.pushes Sample.lenient)) "node1" = true ∧
      reported? (Sample.linkReport "Ready") = some (Sample.linked "Ready") ∧
      isAffected Sample.lenient (Sample.linked "Ready") "node1" = false := by
  decide +kernel

/-- That is the one report after the other: the lost link gave cause to mark the compute node, which
is not attached to the storage node. -/
theorem not_marked_as_affected :
    let lost := Sample.linkReport "Offline"
    let back := Sample.linkReport "Ready"
    let node := Sample.linked "Ready"
    reported? back = some node ∧
      (∀ earlier ∈ [lost], ∀ report, reported? earlier = some report → report.name = node.name) ∧
      ¬∀ host, marked ((([lost] ++ [back]).map Act.hear).flatMap (Act.pushes Sample.lenient)) host =
        isAffected Sample.lenient node host := by
  intro lost back node
  have hlost : reported? lost = some (Sample.linked "Offline") := by decide +kernel
  have hback : reported? back = some node := by decide +kernel
  have hsame : ∀ earlier ∈ [lost], ∀ report, reported? earlier = some report →
      report.name = node.name := by
    intro earlier hearlier report hreport
    rw [List.mem_singleton.mp hearlier, hlost] at hreport
    rw [← Option.some.inj hreport]
    rfl
  refine ⟨hback, hsame, fun hall => ?_⟩
  have hstray := (marked_of_reports Sample.lenient hback hsame).2.2.mp hall "node1"
  have hunaffected : isAffected Sample.lenient node "node1" = false := by decide +kernel
  rw [hstray (by decide +kernel)] at hunaffected
  cases hunaffected

end Health

end Warren
