import Warren.Proofs.Watch.View
import Warren.Service.Startup

/-!
# No update is lost

A stored object that the watch does not show as it is was changed beyond the position of the watch
(`Tracks`), or the watch is about to list everything anew. So after a poll that is answered the last
event about every stored object has the object as it is stored.
-/

namespace Warren.Viewing

open Api

variable {v t : Viewing} {now : Span}

/-- What is stored is shown, or was changed beyond the position of the watch. -/
def Tracks (v : Viewing) : Prop :=
  ∀ name object, v.object? name = some object →
    v.shown name = some object ∨ ∃ c, v.latest? name = some c ∧ v.position < c.version

theorem tracks_of_position_zero (hv : v.Sound) (h : v.position = 0) : v.Tracks := by
  intro name object hstored
  obtain ⟨c, hc, _⟩ := hv.logged.exists_of_object? hstored
  have hpos := (hv.logged.numbered c (Server.Logged.mem_of_latest? hc).1).1
  exact Or.inr ⟨c, hc, by omega⟩

theorem tracks_of_shown (h : ∀ name object, v.object? name = some object →
    v.shown name = some object) : v.Tracks :=
  fun name object hstored => Or.inl (h name object hstored)

theorem shown_poll_of_tracks (hv : v.Sound) (h : v.Tracks) (answered : v.Answered now)
    {name : String} {object : Json} (hstored : v.object? name = some object) :
    (v.poll now).shown name = some object := by
  by_cases horigin : v.origin now = 0
  · rw [shown_poll_of_listing hv answered horigin, hstored]
    rfl
  · have hpos : 0 < v.origin now := by omega
    have hsame := origin_of_pos hpos
    by_cases hchange : ∃ c, v.latest? name = some c ∧ v.origin now < c.version
    · obtain ⟨c, hc, hlt⟩ := hchange
      rw [shown_poll_of_change hv answered hpos hc hlt, hstored]
    · -- nothing beyond the position, so the watch showed the object before
      have hold : ∀ c, v.latest? name = some c → c.version ≤ v.origin now := fun c hc =>
        Nat.le_of_not_lt fun hlt => hchange ⟨c, hc, hlt⟩
      rw [shown_poll_of_no_change hv answered hpos hold]
      exact (h name object hstored).resolve_right (hsame ▸ hchange)

theorem tracks_poll (hv : v.Sound) (h : v.Tracks) (now : Span) : (v.poll now).Tracks := by
  obtain ⟨looks, polled⟩ := polled hv now
  cases polled with
  | answered answered _ _ =>
    refine tracks_of_shown fun name object hstored => ?_
    rw [looks.object?] at hstored
    exact shown_poll_of_tracks hv h answered hstored
  | unanswered _ hseen hposition =>
    intro name object hstored
    rw [looks.object?] at hstored
    rcases h name object hstored with hshown | ⟨c, hc, hlt⟩
    · refine Or.inl ?_
      rw [← hshown]
      simp only [shown, last?, hseen]
    · have hle := v.origin_le now
      exact Or.inr ⟨c, (looks.latest? name).trans hc, by omega⟩

theorem tracks_occur (hv : v.Sound) (h : v.Tracks) (o : Occurrence) :
    (v.step (.occur o)).Tracks := by
  intro name object hstored
  rcases occur_cases hv o name with ⟨hobject, hlatest⟩ | hchange
  · rw [hobject] at hstored
    rw [hlatest]
    exact h name object hstored
  · exact Or.inr hchange

theorem tracks_step (v : Viewing) (a : Act) (hv : v.Sound) (h : v.Tracks) : (v.step a).Tracks := by
  cases a with
  | occur o => exact tracks_occur hv h o
  | poll now => exact tracks_poll hv h now

/-- A watch at its beginning: it follows from the start, or from the version of a listing whose
items were handed over before. -/
inductive Opened (past : List Occurrence) : Viewing → Prop where
  | start (kind : Kind) (space : String) (backoff : Backoff) :
    Opened past ⟨Server.empty.after past, ⟨kind, space, .at Watch.start backoff⟩, []⟩
  | list {kind : Kind} {space : String} {items : List Json} {version : String} {server : Server}
    (listed : (Api.list kind (.space space) none none).run (Server.empty.after past) =
      (.ok (items, version), server)) (backoff : Backoff) :
    Opened past ⟨server, ⟨kind, space, .at version backoff⟩, items.map .added⟩

theorem run_list (s : Server) (kind : Kind) (space : String) :
    (Api.list kind (.space space) none none).run s =
      let server := s.noted (.list kind (.space space) none none)
      (s.outcome .list).1.elim
        (.ok (server.objectsIn kind (.space space), toString server.version), server)
        fun fault => (.error fault, server) := by
  have hall : ∀ objects : List Json, objects.filter (matchesSelector · none) = objects :=
    fun _ => List.filter_eq_self.mpr fun _ _ => rfl
  simp only [Api.list, run_answer, Request.verb, hall, Option.getD_none, List.take_length]

/-- The items of a listing are what a watch from the start would be told. -/
theorem told_of_list {s server : Server} {kind : Kind} {space : String} {items : List Json}
    {version : String} (h : (Api.list kind (.space space) none none).run s =
      (.ok (items, version), server)) :
    Server.SameStore s server ∧ version = toString server.version ∧
      items.map .added = server.told kind space 0 := by
  rw [run_list] at h
  cases hout : (s.outcome .list).1 with
  | some fault =>
    rw [hout] at h
    cases h
  | none =>
    rw [hout] at h
    cases h
    exact ⟨Server.sameStore_noted s _, rfl, (Server.told_zero _ kind space).symm⟩

theorem Opened.tracks {past : List Occurrence} (h : Opened past v) : v.Sound ∧ v.Tracks := by
  obtain ⟨hlogged, hscripted⟩ := Server.logged_after Server.logged_empty rfl past
  cases h with
  | start kind space backoff =>
    have hstart : (Watch.Cursor.at Watch.start backoff).position = 0 :=
      Watch.position_of_version_start rfl
    have hsound : Viewing.Sound
        ⟨Server.empty.after past, ⟨kind, space, .at Watch.start backoff⟩, []⟩ :=
      ⟨hlogged, hscripted, Nat.le_trans (Nat.le_of_eq hstart) (Nat.zero_le _)⟩
    exact ⟨hsound, tracks_of_position_zero hsound hstart⟩
  | @list kind space items version server listed backoff =>
    obtain ⟨hstore, rfl, hitems⟩ := told_of_list listed
    have hlogged' : server.Logged := hstore.logged hlogged
    refine ⟨⟨hlogged', hstore.scripted.trans hscripted, ?_⟩, tracks_of_shown ?_⟩
    · change (Watch.Cursor.at (toString server.version) backoff).position ≤ server.version
      rw [Watch.position_at_toString]
      split <;> omega
    · intro name object hstored
      change server.object? (kind.key space name) = some object at hstored
      change (lastOf name (items.map .added)).bind Event.stored? = some object
      rw [hitems, Server.lastOf_told_zero hlogged', hstored]
      rfl

/-- The watches of the service are at their beginning when it starts: the storage nodes are listed,
and the notices of the listed items are passed on, as far as they can be written, before the watch
follows from there. -/
theorem opened_of_watches {site : Site} {w t : World} {watches : List Watch}
    {past : List Occurrence} (hw : w.api = Server.empty.after past)
    (h : (Startup.watches site).run w = (.ok watches, t)) :
    ∃ storages workflows seen, watches = [storages, workflows] ∧
      Opened past ⟨t.api, storages, seen⟩ ∧
      t.notices = w.notices ++ Notice.upToCrash (seen.flatMap (Health.onEvent site)) ∧
      ∃ past', Opened past' ⟨t.api, workflows, []⟩ := by
  have hask : (Startup.ask (Api.list .storage (.space defaultSpace) none none)).run w =
      match (Api.list .storage (.space defaultSpace) none none).run w.api with
      | (out, api) => (out.mapError Warren.Fault.api, { w with api }) := rfl
  rw [Startup.watches, run_bind_apply, hask] at h
  cases hlist : (Api.list .storage (.space defaultSpace) none none).run w.api with
  | mk out api =>
    rw [hlist] at h
    cases out with
    | error fault => cases h
    | ok answer =>
      obtain ⟨items, version⟩ := answer
      obtain ⟨hwatches, ht⟩ := Prod.mk.inj h
      obtain rfl := Except.ok.inj hwatches
      obtain rfl : World.announce { w with api }
        (items.flatMap fun object => Health.onEvent site (.added object)) = t := ht
      rw [World.announce_eq]
      rw [hw] at hlist
      let past' := past ++ [.request (.list .storage (.space defaultSpace) none none)]
      have happ : Server.empty.after past' = api := by
        rw [Server.after, List.foldl_append]
        exact congrArg Prod.snd hlist
      have opened : Opened past' ⟨_, ⟨.workflow, defaultSpace, _⟩, []⟩ :=
        .start .workflow defaultSpace (Startup.ladder site.config)
      rw [happ] at opened
      refine ⟨_, _, items.map .added, rfl, .list hlist _, ?_, past', opened⟩
      rw [List.flatMap_map]

/-- After a poll that is answered, the last event about every stored object says that it was added
or modified, and has it as it is stored. -/
theorem current_of_answered {past : List Occurrence} (opened : Opened past v) (acts : List Act)
    (answered : (v.run acts).Answered now) {name : String} {object : Json}
    (stored : ((v.run acts).poll now).object? name = some object) :
    ((v.run acts).poll now).last? name = some (.added object) ∨
      ((v.run acts).poll now).last? name = some (.modified object) := by
  obtain ⟨hsound, htracks⟩ := opened.tracks
  have hrun := sound_run hsound acts
  have hcaught := run_induction tracks_step hsound htracks acts
  rw [(polled hrun now).1.object?] at stored
  exact shown_eq_some.mp (shown_poll_of_tracks hrun hcaught answered stored)

/-- The theorem applies to a watch that follows from a listing, over an update that a compaction
hides: the first request of the poll hears that the version is gone, and the second one lists. -/
theorem current_of_answered_compacted :
    ∃ (past : List Occurrence) (v : Viewing) (acts : List Act) (now : Span) (name : String)
      (object : Json), Opened past v ∧ (v.run acts).Restarts now ∧ (v.run acts).Answered now ∧
        ((v.run acts).poll now).object? name = some object ∧
        (((v.run acts).poll now).last? name = some (.added object) ∨
          ((v.run acts).poll now).last? name = some (.modified object)) := by
  let past : List Occurrence := [.put (Sample.key "fluxjob-1") (Sample.workflow .proposal)]
  let server := (Server.empty.after past).noted (.list .workflow (.space defaultSpace) none none)
  let v : Viewing :=
    ⟨server, ⟨.workflow, defaultSpace, .at (toString server.version) Sample.backoff⟩,
      (server.objectsIn .workflow (.space defaultSpace)).map .added⟩
  let acts : List Act := [.occur (.update (Sample.key "fluxjob-1") (Sample.workflow .setup)),
    .occur (.compact true)]
  have opened : Opened past v := .list (run_list _ _ _) Sample.backoff
  have restarts : (v.run acts).Restarts .zero := by decide +kernel
  have answered : (v.run acts).Answered .zero := by decide +kernel
  have stored : (((v.run acts).poll .zero).object? "fluxjob-1").isSome = true := by decide +kernel
  obtain ⟨object, hobject⟩ := Option.isSome_iff_exists.mp stored
  exact ⟨past, v, acts, .zero, "fluxjob-1", object, opened, restarts, answered, hobject,
    current_of_answered opened acts answered hobject⟩

end Warren.Viewing
