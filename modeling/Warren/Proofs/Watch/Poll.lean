import Warren.Proofs.Api.Log
import Warren.Watch

/-!
# Polls of a watch

A poll makes one request, or two where the version of the watch is gone. If the last one is
answered, the watch hands over what the server tells from its position on, or from the start after
the first request was in vain (`seen_poll`), and stands behind the last event then.
-/

namespace Warren

namespace Api

variable {s : Server} {kind : Kind} {space : String} {since : Nat}

def Key.isIn (kind : Kind) (space : String) (key : Key) : Bool :=
  key.plural = kind.plural && key.space = space

theorem Key.isIn_key (kind : Kind) (space name : String) :
    (kind.key space name).isIn kind space = true := by
  simp [isIn, Kind.key]

theorem Key.eq_key_of_isIn {key : Key} (h : key.isIn kind space = true) :
    key = kind.key space key.name := by
  simp only [isIn, Bool.and_eq_true, decide_eq_true_eq] at h
  cases key
  simp_all [Kind.key]

namespace Server

/-- What happened in a collection after a version. -/
def changesSince (s : Server) (kind : Kind) (space : String) (since : Nat) : List Change :=
  s.log.filter fun c => c.key.isIn kind space && since < c.version

theorem mem_changesSince {c : Change} : c ∈ s.changesSince kind space since ↔
    c ∈ s.log ∧ c.key.isIn kind space = true ∧ since < c.version := by
  simp only [changesSince, List.mem_filter, Bool.and_eq_true, decide_eq_true_eq]

/-- What a watch is told from a version on, unless it is refused. -/
def told (s : Server) (kind : Kind) (space : String) (since : Nat) : List Event :=
  if since = 0 then (s.objectsIn kind (.space space)).map .added
  else (s.changesSince kind space since).map Change.event

theorem told_zero (s : Server) (kind : Kind) (space : String) :
    s.told kind space 0 = (s.objectsIn kind (.space space)).map .added := if_pos rfl

theorem told_of_pos (h : 0 < since) :
    s.told kind space since = (s.changesSince kind space since).map Change.event :=
  if_neg (by omega)

def reply (s : Server) (kind : Kind) (space : String) (since : Nat) : Except Fault (List Event) :=
  (s.outcome .watch).1.elim (s.eventsSince kind (.space space) since) .error

theorem eventsSince_noted (s : Server) (q : Request) (kind : Kind) (scope : Scope) (since : Nat) :
    (s.noted q).eventsSince kind scope since = s.eventsSince kind scope since := by
  unfold noted outcome receive
  dsimp only
  split <;> rfl

theorem run_watch (h : s.scripted = []) (kind : Kind) (space version : String) :
    (watch kind (.space space) version).run s =
      (s.reply kind space ((Text.readBelow? UInt64.size version.toList).getD 0),
        s.noted (.watch kind (.space space) version)) := by
  change watch kind (.space space) version s = _
  simp only [watch, h]
  refine (run_answer _ _ s).trans ?_
  unfold reply Request.verb
  cases (s.outcome .watch).1 with
  | none => simp only [Option.elim_none, eventsSince_noted]
  | some fault => rfl

theorem eventsSince_cases (s : Server) (kind : Kind) (space : String) (since : Nat) :
    s.eventsSince kind (.space space) since = .ok (s.told kind space since) ∨
      0 < since ∧ since < s.compactedBefore ∧ ∃ message,
        s.eventsSince kind (.space space) since = .ok [.error 410 message] ∨
        s.eventsSince kind (.space space) since = .error (.status 410 message) := by
  unfold eventsSince
  split
  · rename_i hzero
    subst hzero
    exact Or.inl (by rw [told_zero])
  · rename_i hpos
    split
    · rename_i hold
      refine Or.inr ⟨by omega, hold, s!"too old resource version: {since}", ?_⟩
      split
      · exact Or.inl rfl
      · exact Or.inr rfl
    · refine Or.inl ?_
      rw [told_of_pos (by omega), changesSince]
      have same : ∀ c : Change,
          (c.key.plural = kind.plural && since < c.version &&
              (Scope.space space).holds c.key.space) =
            (c.key.isIn kind space && since < c.version) := by
        intro c
        simp only [Key.isIn, Scope.holds, eq_comm (a := space)]
        ac_rfl
      simp only [same]

/-! ### What a watch is told -/

theorem SameStore.told {t : Server} (h : SameStore s t) (kind : Kind) (space : String)
    (since : Nat) : t.told kind space since = s.told kind space since := by
  simp only [Server.told, changesSince, objectsIn, h.objects, h.log]

def entriesIn (s : Server) (kind : Kind) (space : String) : Dict Key Json :=
  s.objects.filter fun entry =>
    entry.1.plural = kind.plural && (Scope.space space).holds entry.1.space

theorem told_zero_eq_map (s : Server) (kind : Kind) (space : String) :
    s.told kind space 0 = (s.entriesIn kind space).map fun entry => .added entry.2 := by
  rw [told_zero, objectsIn, List.map_map]
  rfl

theorem Logged.mem_entriesIn (hs : s.Logged) {key : Key} {object : Json} :
    (key, object) ∈ s.entriesIn kind space ↔
      s.object? key = some object ∧ key.isIn kind space = true := by
  simp only [entriesIn, List.mem_filter, hs.sorted.mem_iff, Server.object?, Key.isIn, Scope.holds,
    Bool.and_eq_true, decide_eq_true_eq, eq_comm (a := space)]

theorem Logged.exists_latest? (hs : s.Logged) {key : Key} {object : Json}
    (ho : s.object? key = some object) :
    ∃ c ∈ s.log, s.latest? key = some c ∧ c.key = key ∧
      (Event.added object).Carries key c.version := by
  obtain ⟨c, hc, _, marked⟩ := hs.exists_of_object? ho
  obtain ⟨hlog, hkey⟩ := Logged.mem_of_latest? hc
  exact ⟨c, hlog, hc, hkey, object, rfl, marked⟩

theorem Logged.exists_of_mem_told (hs : s.Logged) {e : Event} (he : e ∈ s.told kind space since) :
    ∃ c ∈ s.log, c.key.isIn kind space = true ∧ since < c.version ∧
      e.Carries c.key c.version := by
  by_cases hzero : since = 0
  · subst hzero
    rw [told_zero_eq_map] at he
    obtain ⟨⟨key, object⟩, hmem, rfl⟩ := List.mem_map.mp he
    obtain ⟨hstored, hin⟩ := hs.mem_entriesIn.mp hmem
    obtain ⟨c, hlog, _, rfl, hcarries⟩ := hs.exists_latest? hstored
    exact ⟨c, hlog, hin, (hs.numbered c hlog).1, hcarries⟩
  · rw [told_of_pos (by omega)] at he
    obtain ⟨c, hmem, rfl⟩ := List.mem_map.mp he
    obtain ⟨hlog, hin, hlt⟩ := mem_changesSince.mp hmem
    exact ⟨c, hlog, hin, hlt, hs.carries c hlog⟩

end Server

end Api

namespace Watch

open Api

/-- The version of a cursor as a server reads it. -/
def Cursor.position (c : Cursor) : Nat := (Text.readBelow? UInt64.size c.version.toList).getD 0

/-- The version of an event as a server reads it from a watch behind that event. -/
def positionOf (e : Event) : Nat := (e.version?.bind (Text.readBelow? UInt64.size ·.toList)).getD 0

theorem positionOf_of_carries {key : Key} {version : Nat} {e : Event}
    (h : e.Carries key version) : positionOf e = if version < UInt64.size then version else 0 := by
  simp only [positionOf, h.version?, Option.bind_some, Text.readBelow?_toString]
  split <;> rfl

theorem position_at_toString (version : Nat) (backoff : Backoff) :
    (Cursor.at (toString version) backoff).position =
      if version < UInt64.size then version else 0 := by
  simp only [Cursor.position, Cursor.at, Text.readBelow?_toString]
  split <;> rfl

theorem position_of_version_start {c : Cursor} (h : c.version = start) : c.position = 0 := by
  simp only [Cursor.position, h]
  decide

/-- Where a watch stands behind some events, if it stood at a position before them. -/
def positionAfter (position : Nat) (events : List Event) : Nat :=
  (events.getLast?.map positionOf).getD position

theorem positionAfter_cons (position : Nat) (e : Event) (rest : List Event) :
    positionAfter position (e :: rest) = positionAfter (positionOf e) rest := by
  cases rest with
  | nil => rfl
  | cons e' rest =>
    simp only [positionAfter, List.getLast?_cons_cons]
    obtain ⟨last, hlast⟩ : ∃ last, (e' :: rest).getLast? = some last :=
      ⟨_, List.getLast?_eq_some_getLast (List.cons_ne_nil _ _)⟩
    simp [hlast]

/-- Events of a collection are all handed over, and the cursor stands behind the last one. -/
theorem deliver_of_carries {events : List Event} (c : Cursor)
    (h : ∀ e ∈ events, ∃ key version, e.Carries key version) :
    (deliver c events).events = events ∧ (deliver c events).gone = false ∧
      (deliver c events).cursor.position = positionAfter c.position events := by
  induction events generalizing c with
  | nil => exact ⟨rfl, rfl, rfl⟩
  | cons e rest ih =>
    obtain ⟨key, version, hcarries⟩ := h e (List.mem_cons_self ..)
    have hdeliver : deliver c (e :: rest) = (deliver (c.advance e) rest).after e := by
      obtain ⟨object, hobject, _⟩ := hcarries
      cases e with
      | bookmark => cases hobject
      | error => cases hobject
      | _ => rfl
    have hposition : (c.advance e).position = positionOf e := by
      simp only [Cursor.position, Cursor.advance, positionOf, hcarries.version?, Option.getD_some,
        Option.bind_some]
    obtain ⟨hevents, hgone, hcursor⟩ := ih (c.advance e) fun e' he' =>
      h e' (List.mem_cons_of_mem _ he')
    rw [hdeliver, positionAfter_cons, ← hposition]
    exact ⟨congrArg (e :: ·) hevents, hgone, hcursor⟩

/-- What the answer to a request from a position comes to. -/
inductive Received (s : Server) (kind : Kind) (space : String) (c : Cursor)
    (r : Except Api.Fault (List Event)) (d : Delivery) : Prop where
  | told (answer : r = .ok (s.told kind space c.position))
      (events : d.events = s.told kind space c.position) (gone : d.gone = false)
      (cursor : d.cursor.position = positionAfter c.position (s.told kind space c.position))
  | failed (answer : ∀ events, r ≠ .ok events) (events : d.events = []) (gone : d.gone = false)
      (cursor : d.cursor.position = c.position)
  | gone (answer : 0 < c.position ∨ ∀ events, r ≠ .ok events) (events : d.events = [])
      (gone : d.gone = true) (cursor : d.cursor.version = start)

theorem received_reply {s : Server} (hs : s.Logged) (kind : Kind) (space : String) (now : Span)
    (c : Cursor) :
    Received s kind space c (s.reply kind space c.position)
      (receive now c (s.reply kind space c.position)) := by
  unfold Server.reply
  -- a fault that was set up comes before anything that the log says
  cases (s.outcome .watch).1 with
  | some fault =>
    have hanswer : ∀ events, (Except.error fault : Except Api.Fault (List Event)) ≠ .ok events := by
      intro events h
      cases h
    simp only [Option.elim_some, receive]
    by_cases hgone : fault.isGone = true
    · rw [if_pos hgone]
      exact .gone (Or.inr hanswer) rfl rfl rfl
    · rw [if_neg hgone]
      exact .failed hanswer rfl rfl rfl
  | none =>
    simp only [Option.elim_none]
    rcases s.eventsSince_cases kind space c.position with h | ⟨hpos, _, message, h | h⟩
    · rw [h]
      have hcarries : ∀ e ∈ s.told kind space c.position,
          ∃ key version, e.Carries key version := by
        intro e he
        obtain ⟨change, _, _, _, hcarries⟩ := hs.exists_of_mem_told he
        exact ⟨_, _, hcarries⟩
      obtain ⟨hevents, hgone, hcursor⟩ :=
        deliver_of_carries { c with backoff := c.backoff.reset, resume := none } hcarries
      exact .told rfl hevents hgone hcursor
    · rw [h]
      exact .gone (Or.inl hpos) rfl rfl rfl
    · rw [h]
      exact .gone (Or.inl hpos) rfl rfl rfl

/-- The answers to the requests of a poll, the first one first. -/
def answers (w : Watch) (now : Span) (s : Server) : List (Except Api.Fault (List Event)) :=
  if w.cursor.isDue now then
    let (first, rest) := (Api.watch w.kind (.space w.space) w.cursor.version).run s
    let delivery := receive now w.cursor first
    if delivery.gone then
      [first, ((Api.watch w.kind (.space w.space) delivery.cursor.version).run rest).1]
    else [first]
  else []

section

variable {w : Watch} {now : Span} {s : Server}

/-- The answer to a request of a watch from where a cursor stands. -/
def answerFrom (w : Watch) (s : Server) (c : Cursor) : Except Api.Fault (List Event) :=
  s.reply w.kind w.space c.position

def askedFrom (w : Watch) (s : Server) (c : Cursor) : Server :=
  s.noted (.watch w.kind (.space w.space) c.version)

theorem run_watch (hs : s.scripted = []) (c : Cursor) :
    (Api.watch w.kind (.space w.space) c.version).run s = (w.answerFrom s c, w.askedFrom s c) :=
  Server.run_watch hs w.kind w.space c.version

theorem run_attempt (hs : s.scripted = []) (c : Cursor) :
    (w.attempt now c).run s = (receive now c (w.answerFrom s c), w.askedFrom s c) := by
  change (receive now c ((Api.watch w.kind (.space w.space) c.version).run s).1,
    ((Api.watch w.kind (.space w.space) c.version).run s).2) = _
  rw [run_watch hs]

theorem sameStore_askedFrom (w : Watch) (s : Server) (c : Cursor) :
    Server.SameStore s (w.askedFrom s c) := Server.sameStore_noted s _

theorem run_poll_of_due (hdue : w.cursor.isDue now = true) :
    (w.poll now).run s =
      let first := (w.attempt now w.cursor).run s
      if first.1.gone then
        let second := (w.attempt now first.1.cursor).run first.2
        (({ w with cursor := second.1.cursor }, first.1.events ++ second.1.events), second.2)
      else (({ w with cursor := first.1.cursor }, first.1.events), first.2) := by
  simp only [poll, hdue, if_true]
  change (if ((w.attempt now w.cursor).run s).1.gone then _ else _ :
    StateM Server (Watch × List Event)) _ = _
  cases hgone : ((w.attempt now w.cursor).run s).1.gone with
  | true =>
    simp only [if_true]
    rfl
  | false =>
    simp only [Bool.false_eq_true, if_false]
    rfl

theorem poll_of_not_due (hdue : w.cursor.isDue now = false) :
    (w.poll now).run s = ((w, []), s) ∧ w.answers now s = [] := by
  constructor
  · simp only [poll, hdue, Bool.false_eq_true, if_false]
    rfl
  · simp only [answers, hdue, Bool.false_eq_true, if_false]

theorem poll_once (hs : s.scripted = []) (hdue : w.cursor.isDue now = true) {d : Delivery}
    (hd : receive now w.cursor (w.answerFrom s w.cursor) = d) (hgone : d.gone = false) :
    (w.poll now).run s = (({ w with cursor := d.cursor }, d.events), w.askedFrom s w.cursor) ∧
      w.answers now s = [w.answerFrom s w.cursor] := by
  constructor
  · simp only [run_poll_of_due hdue, run_attempt hs, hd, hgone, Bool.false_eq_true, if_false]
  · simp only [answers, hdue, if_true, run_watch hs, hd, hgone, Bool.false_eq_true, if_false]

theorem poll_twice (hs : s.scripted = []) (hdue : w.cursor.isDue now = true) {d d' : Delivery}
    (hd : receive now w.cursor (w.answerFrom s w.cursor) = d) (hgone : d.gone = true)
    (hd' : receive now d.cursor (w.answerFrom (w.askedFrom s w.cursor) d.cursor) = d') :
    (w.poll now).run s = (({ w with cursor := d'.cursor }, d.events ++ d'.events),
        w.askedFrom (w.askedFrom s w.cursor) d.cursor) ∧
      w.answers now s =
        [w.answerFrom s w.cursor, w.answerFrom (w.askedFrom s w.cursor) d.cursor] := by
  have hs' : (w.askedFrom s w.cursor).scripted = [] :=
    (sameStore_askedFrom w s w.cursor).scripted.trans hs
  constructor
  · simp only [run_poll_of_due hdue, run_attempt hs, run_attempt hs', hd, hgone, hd', if_true]
  · simp only [answers, hdue, run_watch hs, run_watch hs', hd, hgone, if_true]

end

end Watch

/-- A watch of a server, with the events that it handed over so far. -/
structure Viewing where
  server : Api.Server
  watch : Watch
  seen : List Api.Event

namespace Viewing

open Api

variable {v : Viewing} {now : Span}

def poll (v : Viewing) (now : Span) : Viewing :=
  let ((watch, events), server) := (v.watch.poll now).run v.server
  ⟨server, watch, v.seen ++ events⟩

def answers (v : Viewing) (now : Span) : List (Except Api.Fault (List Event)) :=
  v.watch.answers now v.server

/-- The poll makes a request, and the last one that it makes succeeds. -/
def Answered (v : Viewing) (now : Span) : Prop :=
  ∃ events, (v.answers now).getLast? = some (.ok events)

instance (v : Viewing) (now : Span) : Decidable (v.Answered now) :=
  match h : (v.answers now).getLast? with
  | some (.ok events) => .isTrue ⟨events, h⟩
  | some (.error fault) => .isFalse fun ⟨events, hok⟩ => by simp [h] at hok
  | none => .isFalse fun ⟨events, hok⟩ => by simp [h] at hok

/-- The poll goes back to the start, as the version of the watch is gone. -/
def Restarts (v : Viewing) (now : Span) : Prop := 1 < (v.answers now).length

instance (v : Viewing) (now : Span) : Decidable (v.Restarts now) :=
  inferInstanceAs (Decidable (_ < _))

def position (v : Viewing) : Nat := v.watch.cursor.position

/-- The position from which the last request of a poll asks. -/
def origin (v : Viewing) (now : Span) : Nat := if v.Restarts now then 0 else v.position

def told (v : Viewing) (now : Span) : List Event :=
  v.server.told v.watch.kind v.watch.space (v.origin now)

/-- The log of the server tells its objects, no answers are scripted for it, and the watch is not
ahead of it. -/
structure Sound (v : Viewing) : Prop where
  logged : v.server.Logged
  scripted : v.server.scripted = []
  behind : v.position ≤ v.server.version

theorem served_poll (v : Viewing) (now : Span) :
    ∃ versions : List String, versions.length = (v.answers now).length ∧
      (v.poll now).server =
        v.server.serveAll (versions.map (.watch v.watch.kind (.space v.watch.space))) := by
  cases hdue : v.watch.cursor.isDue now with
  | false =>
    obtain ⟨hrun, hanswers⟩ := Watch.poll_of_not_due (s := v.server) hdue
    refine ⟨[], ?_, ?_⟩
    · simp [answers, hanswers]
    · simp [poll, hrun]
  | true =>
    have hrun := Watch.run_poll_of_due (s := v.server) hdue
    let first := (Api.watch v.watch.kind (.space v.watch.space) v.watch.cursor.version).run v.server
    let delivery := Watch.receive now v.watch.cursor first.1
    cases hgone : delivery.gone with
    | false =>
      have hanswers : v.answers now = [first.1] := by
        simp only [answers, Watch.answers, hdue, if_true]
        exact if_neg (Bool.eq_false_iff.mp hgone)
      refine ⟨[v.watch.cursor.version], by rw [hanswers]; rfl, ?_⟩
      have hattempt : ((v.watch.attempt now v.watch.cursor).run v.server).1.gone = false := hgone
      simp only [poll, hrun, hattempt]
      rfl
    | true =>
      have hanswers : ∃ second, v.answers now = [first.1, second] := by
        simp only [answers, Watch.answers, hdue, if_true]
        exact ⟨_, if_pos hgone⟩
      obtain ⟨second, hanswers⟩ := hanswers
      refine ⟨[v.watch.cursor.version, delivery.cursor.version], by rw [hanswers]; rfl, ?_⟩
      have hattempt : ((v.watch.attempt now v.watch.cursor).run v.server).1.gone = true := hgone
      simp only [poll, hrun, hattempt]
      rfl

inductive Polled (v : Viewing) (now : Span) : Prop where
  | answered (answered : v.Answered now) (seen : (v.poll now).seen = v.seen ++ v.told now)
      (position : (v.poll now).position = Watch.positionAfter (v.origin now) (v.told now))
  | unanswered (unanswered : ¬v.Answered now) (seen : (v.poll now).seen = v.seen)
      (position : (v.poll now).position = v.origin now)

/-- A poll leaves the store of the server alone and keeps to its collection. -/
structure Looks (v t : Viewing) : Prop where
  store : Server.SameStore v.server t.server
  kind : t.watch.kind = v.watch.kind
  space : t.watch.space = v.watch.space

/-- The last request of a poll decides what the poll comes to. It stands at the start after the
first one was in vain, so it is not in vain itself. -/
theorem polled_of_received {s t : Server} {c : Watch.Cursor} {r : Except Api.Fault (List Event)}
    {d : Watch.Delivery} (hstore : Server.SameStore v.server s)
    (hreceived : Watch.Received s v.watch.kind v.watch.space c r d)
    (hlast : (v.answers now).getLast? = some r) (horigin : v.origin now = c.position)
    (hgone : d.gone = true → c.position = 0)
    (hpoll : v.poll now = ⟨t, { v.watch with cursor := d.cursor }, v.seen ++ d.events⟩) :
    v.Polled now := by
  have unanswered (h : ∀ events, r ≠ .ok events) : ¬v.Answered now := by
    rintro ⟨events, hevents⟩
    rw [hlast] at hevents
    exact h events (Option.some.inj hevents)
  have htold : s.told v.watch.kind v.watch.space c.position = v.told now := by
    rw [told, horigin, hstore.told]
  cases hreceived with
  | told hanswer hevents _ hcursor =>
    rw [htold] at hanswer hevents hcursor
    refine .answered ⟨_, hanswer ▸ hlast⟩ ?_ ?_
    · rw [hpoll, hevents]
    · rw [hpoll, horigin]
      exact hcursor
  | failed hanswer hevents _ hcursor =>
    refine .unanswered (unanswered hanswer) ?_ ?_
    · rw [hpoll, hevents, List.append_nil]
    · rw [hpoll, horigin]
      exact hcursor
  | gone hanswer hevents hd hcursor =>
    have hzero : c.position = 0 := hgone hd
    refine .unanswered (unanswered (hanswer.resolve_left (by omega))) ?_ ?_
    · rw [hpoll, hevents, List.append_nil]
    · rw [hpoll, horigin, hzero]
      exact Watch.position_of_version_start hcursor

theorem polled (hv : v.Sound) (now : Span) : v.Looks (v.poll now) ∧ v.Polled now := by
  obtain ⟨s, w, seen⟩ := v
  obtain ⟨hlogged, hscripted, -⟩ := hv
  dsimp only at hlogged hscripted
  cases hdue : w.cursor.isDue now with
  | false =>
    obtain ⟨hrun, hanswers⟩ := Watch.poll_of_not_due (s := s) hdue
    have hpoll : poll ⟨s, w, seen⟩ now = ⟨s, w, seen⟩ := by
      simp only [poll, hrun, List.append_nil]
    have horigin : origin ⟨s, w, seen⟩ now = w.cursor.position := by
      simp [origin, Restarts, answers, hanswers, position]
    rw [hpoll]
    refine ⟨⟨.refl s, rfl, rfl⟩, .unanswered ?_ ?_ ?_⟩
    · simp [Answered, answers, hanswers]
    · rw [hpoll]
    · rw [hpoll, horigin]
      rfl
  | true =>
    have hstore := Watch.sameStore_askedFrom w s w.cursor
    generalize hd : Watch.receive now w.cursor (w.answerFrom s w.cursor) = d
    have hfirst : Watch.Received s w.kind w.space w.cursor (w.answerFrom s w.cursor) d :=
      hd ▸ Watch.received_reply hlogged w.kind w.space now w.cursor
    -- a first request that was not in vain is the last one, else a second one lists from the start
    cases hgone : d.gone with
    | false =>
      obtain ⟨hrun, hanswers⟩ := Watch.poll_once hscripted hdue hd hgone
      have hpoll : poll ⟨s, w, seen⟩ now =
          ⟨w.askedFrom s w.cursor, { w with cursor := d.cursor }, seen ++ d.events⟩ := by
        simp only [poll, hrun]
      refine ⟨hpoll ▸ ⟨hstore, rfl, rfl⟩, polled_of_received (.refl s) hfirst ?_ ?_ ?_ hpoll⟩
      · simp [answers, hanswers]
      · simp [origin, Restarts, answers, hanswers, position]
      · simp [hgone]
    | true =>
      generalize hd' :
        Watch.receive now d.cursor (w.answerFrom (w.askedFrom s w.cursor) d.cursor) = d'
      obtain ⟨hrun, hanswers⟩ := Watch.poll_twice hscripted hdue hd hgone hd'
      have hsecond := Watch.received_reply (hstore.logged hlogged) w.kind w.space now d.cursor
      have hstart : d.events = [] ∧ d.cursor.position = 0 := by
        cases hfirst with
        | told _ _ hgone' _ => simp [hgone'] at hgone
        | failed _ _ hgone' _ => simp [hgone'] at hgone
        | gone _ hevents _ hcursor => exact ⟨hevents, Watch.position_of_version_start hcursor⟩
      have hpoll : poll ⟨s, w, seen⟩ now = ⟨w.askedFrom (w.askedFrom s w.cursor) d.cursor,
          { w with cursor := d'.cursor }, seen ++ d'.events⟩ := by
        simp only [poll, hrun, hstart.1, List.nil_append]
      refine ⟨hpoll ▸ ⟨hstore.trans (Watch.sameStore_askedFrom w _ _), rfl, rfl⟩,
        polled_of_received hstore (hd' ▸ hsecond) ?_ ?_ (fun _ => hstart.2) hpoll⟩
      · simp [answers, hanswers, Watch.answerFrom]
      · simp [origin, Restarts, answers, hanswers, hstart.2]

theorem seen_poll (hv : v.Sound) (answered : v.Answered now) :
    (v.poll now).seen = v.seen ++ v.told now := by
  cases (polled hv now).2 with
  | answered _ hseen _ => exact hseen
  | unanswered unanswered _ _ => exact absurd answered unanswered

theorem origin_le (v : Viewing) (now : Span) : v.origin now ≤ v.position := by
  unfold origin
  split
  · exact Nat.zero_le _
  · exact Nat.le_refl _

theorem origin_of_not_restarts (h : ¬v.Restarts now) : v.origin now = v.position := if_neg h

theorem origin_of_pos (h : 0 < v.origin now) : v.origin now = v.position := by
  refine origin_of_not_restarts fun restarts => ?_
  have hzero : v.origin now = 0 := if_pos restarts
  omega

/-- The watch stands behind the last change that it is told of. -/
theorem positionAfter_told (hv : v.Sound) (now : Span) :
    v.told now = [] ∧ Watch.positionAfter (v.origin now) (v.told now) = v.origin now ∨
      ∃ e c, (v.told now).getLast? = some e ∧ c ∈ v.server.log ∧
        c.key.isIn v.watch.kind v.watch.space = true ∧ v.origin now < c.version ∧
        e.Carries c.key c.version ∧
        Watch.positionAfter (v.origin now) (v.told now) =
          if c.version < UInt64.size then c.version else 0 := by
  cases hlast : (v.told now).getLast? with
  | none =>
    have hnil : v.told now = [] := List.getLast?_eq_none_iff.mp hlast
    refine Or.inl ⟨hnil, ?_⟩
    rw [hnil]
    rfl
  | some e =>
    obtain ⟨c, hc, hin, hlt, hcarries⟩ := hv.logged.exists_of_mem_told (List.mem_of_getLast? hlast)
    refine Or.inr ⟨e, c, rfl, hc, hin, hlt, hcarries, ?_⟩
    rw [Watch.positionAfter, hlast, Option.map_some, Option.getD_some,
      Watch.positionOf_of_carries hcarries]

theorem sound_poll (hv : v.Sound) (now : Span) : (v.poll now).Sound := by
  obtain ⟨looks, polled⟩ := polled hv now
  refine ⟨looks.store.logged hv.logged, looks.store.scripted.trans hv.scripted, ?_⟩
  have horigin := v.origin_le now
  have hbehind := hv.behind
  rw [looks.store.version]
  cases polled with
  | unanswered _ _ hposition => omega
  | answered _ _ hposition =>
    rcases positionAfter_told hv now with ⟨_, hsame⟩ | ⟨_, c, _, hc, _, _, _, hafter⟩
    · omega
    · have hle := (hv.logged.numbered c hc).2
      rw [hposition, hafter]
      split
      · exact hle
      · exact Nat.zero_le _

end Viewing

end Warren
