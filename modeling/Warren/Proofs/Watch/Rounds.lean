import Mathlib.Data.List.DropRight
import Warren.Proofs.Backoff
import Warren.Proofs.Watch.Poll

/-!
# Polls of any server

What a watch does depends on nothing but the answers that it gets. So the polls are followed here
against any source of answers, with the requests noted that reach it: `tour_run` says which requests
a poll makes, what it hands over of the answers, and from where and when it goes on.
-/

namespace Warren

namespace Watch

open Api (Event)

/-! ### Answers -/

abbrev Answer := Except Api.Fault (List Event)

/-- The report that the version of a watch is gone. -/
def isGoneEvent : Event → Bool
  | .error code _ => code = 410
  | _ => false

def isChange : Event → Bool
  | .added _ | .modified _ | .deleted _ => true
  | .bookmark _ | .error _ _ => false

/-- The events of an answer that a watch looks at: those before the report that its version is
gone. -/
def heard : Answer → List Event
  | .ok events => events.takeWhile fun e => !isGoneEvent e
  | .error _ => []

/-- An answer that the version of the watch is gone, as its status or as one of its events. -/
def isVain : Answer → Bool
  | .ok events => events.any isGoneEvent
  | .error fault => fault.isGone

def succeeds : Answer → Bool
  | .ok _ => true
  | .error _ => false

/-- A failure for another reason than that the version is gone. -/
def fails : Answer → Bool
  | .ok _ => false
  | .error fault => !fault.isGone

/-- Where a watch stands after an answer: at the start if its version is gone, and else behind the
last event with a version, if there is any. -/
def versionAfter (version : String) (a : Answer) : String :=
  if isVain a then start else ((heard a).filterMap Event.version?).getLast?.getD version

theorem versionAfter_cons {e : Event} (h : isGoneEvent e = false) (version : String)
    (rest : List Event) : versionAfter version (.ok (e :: rest)) =
      versionAfter (e.version?.getD version) (.ok rest) := by
  have hvain : isVain (.ok (e :: rest)) = isVain (.ok rest) := by simp [isVain, h]
  have hheard : heard (.ok (e :: rest)) = e :: heard (.ok rest) := by simp [heard, h]
  rw [versionAfter, versionAfter, hvain, hheard]
  cases hversion : e.version? with
  | none => rw [List.filterMap_cons_none hversion, Option.getD_none]
  | some next =>
    rw [List.filterMap_cons_some hversion, List.getLast?_cons, Option.getD_some, Option.getD_some]

/-- The events that an answer hands over. -/
def changes (a : Answer) : List Event := (heard a).filter isChange

theorem changes_cons {e : Event} (h : isGoneEvent e = false) (rest : List Event) :
    changes (.ok (e :: rest)) =
      if isChange e then e :: changes (.ok rest) else changes (.ok rest) := by
  have hheard : heard (.ok (e :: rest)) = e :: heard (.ok rest) := by simp [heard, h]
  rw [changes, hheard, List.filter_cons]
  rfl

theorem isVain_cons {e : Event} (h : isGoneEvent e = false) (rest : List Event) :
    isVain (.ok (e :: rest)) = isVain (.ok rest) := by
  simp [isVain, h]

theorem deliver_cons_of_change {e : Event} (h : isChange e = true) (c : Cursor)
    (rest : List Event) : deliver c (e :: rest) = (deliver (c.advance e) rest).after e := by
  cases e with
  | bookmark => cases h
  | error => cases h
  | _ => rfl

theorem deliver_eq (c : Cursor) (events : List Event) : deliver c events =
    ⟨{ c with version := versionAfter c.version (.ok events) }, changes (.ok events),
      isVain (.ok events)⟩ := by
  induction events generalizing c with
  | nil => rfl
  | cons e rest ih =>
    by_cases hchange : isChange e = true
    · have hgone : isGoneEvent e = false := by cases e <;> first | rfl | cases hchange
      rw [deliver_cons_of_change hchange, ih, versionAfter_cons hgone, changes_cons hgone,
        isVain_cons hgone, if_pos hchange]
      rfl
    · cases e with
      | bookmark version =>
        rw [deliver, ih, versionAfter_cons rfl, changes_cons rfl, isVain_cons rfl, if_neg hchange]
        rfl
      | error code message =>
        rw [deliver]
        split
        · rename_i hcode
          subst hcode
          rfl
        · rename_i hcode
          have hgone : isGoneEvent (.error code message) = false := by
            simpa [isGoneEvent] using hcode
          rw [ih, versionAfter_cons hgone, changes_cons hgone, isVain_cons hgone, if_neg hchange]
          rfl
      | _ => exact absurd rfl hchange

theorem receive_eq (now : Span) (c : Cursor) (a : Answer) :
    (receive now c a).cursor.version = versionAfter c.version a ∧
      (receive now c a).events = changes a ∧ (receive now c a).gone = isVain a := by
  cases a with
  | ok events =>
    rw [receive, deliver_eq]
    exact ⟨rfl, rfl, rfl⟩
  | error fault =>
    rw [receive, versionAfter, isVain]
    cases fault.isGone <;> exact ⟨rfl, rfl, rfl⟩

/-! ### Failures in a row -/

/-- A request of a watch, and its answer. -/
structure Exchange where
  time : Span
  version : String
  answer : Answer

/-- The failures since the last answer. That the version is gone is no failure, and does not end a
row of failures. -/
def failures (log : List Exchange) : List Exchange :=
  (log.rtakeWhile fun e => !succeeds e.answer).filter fun e => fails e.answer

theorem failures_concat (log : List Exchange) (e : Exchange) : failures (log ++ [e]) =
    if succeeds e.answer then [] else
      if fails e.answer then failures log ++ [e] else failures log := by
  unfold failures
  cases hsucceeds : succeeds e.answer with
  | true => rw [List.rtakeWhile_concat_neg _ _ _ (by simp [hsucceeds]), if_pos rfl]; rfl
  | false =>
    rw [List.rtakeWhile_concat_pos _ _ _ (by simp [hsucceeds]), List.filter_append]
    cases hfails : fails e.answer <;> simp [hfails]

/-- The ladder after a number of failures. -/
def ladder (base cap : Span) (n : Nat) : Backoff := Backoff.fail^[n] (.start base cap)

theorem reset_ladder (base cap : Span) (n : Nat) :
    (ladder base cap n).reset = .start base cap := by
  have hsame : (ladder base cap n).base = base ∧ (ladder base cap n).cap = cap.longer base := by
    induction n with
    | zero => exact ⟨rfl, rfl⟩
    | succ n ih =>
      rw [ladder, Function.iterate_succ_apply']
      exact ih
  rw [Backoff.reset, hsame.1, hsame.2]
  rfl

/-- When requests are made again: the delay of the failures in a row after the last of them. -/
def resumption (base cap : Span) (log : List Exchange) : Option Span :=
  (failures log).getLast?.map fun e => e.time + (ladder base cap (failures log).length).delay

/-- The failures in a row put the next request off by the base, doubled for each failure but the
first one, up to the ceiling. -/
theorem nanos_resumption (base cap : Span) {log : List Exchange} {last : Exchange}
    (h : (failures log).getLast? = some last) : (resumption base cap log).map Span.nanos =
      some (last.time.nanos + min (base.nanos * Backoff.factor (failures log).length)
        (Backoff.ceiling base cap)) := by
  have hpos : 0 < (failures log).length := List.length_pos_of_mem (List.mem_of_getLast? h)
  rw [resumption, h, Option.map_some, Option.map_some, Span.nanos_add, ladder,
    Backoff.nanos_delay_iterate base cap hpos]

/-- A cursor that minds the failures in a log. -/
structure Minds (base cap : Span) (log : List Exchange) (c : Cursor) : Prop where
  backoff : c.backoff = ladder base cap (failures log).length
  resume : c.resume = resumption base cap log

theorem minds_at (base cap : Span) (version : String) :
    Minds base cap [] (.at version (.start base cap)) := ⟨rfl, rfl⟩

theorem Minds.receive {base cap : Span} {log : List Exchange} {c : Cursor}
    (h : Minds base cap log c) (now : Span) (version : String) (a : Answer) :
    Minds base cap (log ++ [⟨now, version, a⟩]) (receive now c a).cursor := by
  have hfailures := failures_concat log ⟨now, version, a⟩
  cases a with
  | ok events =>
    rw [Watch.receive, deliver_eq]
    refine ⟨?_, ?_⟩
    · rw [hfailures]
      exact (congrArg Backoff.reset h.backoff).trans (reset_ladder _ _ _)
    · rw [resumption, hfailures]
      rfl
  | error fault =>
    cases hgone : fault.isGone with
    | true =>
      have hsame : failures (log ++ [⟨now, version, .error fault⟩]) = failures log := by
        rw [hfailures]
        simp [succeeds, fails, hgone]
      rw [Watch.receive, if_pos hgone]
      exact ⟨by rw [hsame]; exact h.backoff, by rw [resumption, hsame]; exact h.resume⟩
    | false =>
      have hmore : failures (log ++ [⟨now, version, .error fault⟩]) =
          failures log ++ [⟨now, version, .error fault⟩] := by
        rw [hfailures]
        simp [succeeds, fails, hgone]
      have hladder : c.backoff.fail = ladder base cap (failures log).length.succ := by
        rw [h.backoff, ladder, ladder, Function.iterate_succ_apply']
      rw [Watch.receive, if_neg (by simp [hgone])]
      refine ⟨?_, ?_⟩
      · rw [hmore, List.length_append]
        exact hladder
      · rw [resumption, hmore, List.length_append, List.getLast?_concat]
        exact congrArg (fun b : Backoff => some (now + b.delay)) hladder

/-! ### Any source of answers -/

variable {σ : Type}

/-- Whatever answers the requests for the events from a version on. -/
abbrev Source (σ : Type) := String → StateM σ Answer

/-- A poll of any source. -/
def pollFrom (source : Source σ) (c : Cursor) (now : Span) : StateM σ (Cursor × List Event) := do
  if c.isDue now then
    let first := receive now c (← source c.version)
    if first.gone then
      let second := receive now first.cursor (← source first.cursor.version)
      return (second.cursor, first.events ++ second.events)
    else return (first.cursor, first.events)
  else return (c, [])

section

variable {source : Source σ} {c : Cursor} {now : Span} {s t u : σ} {a b : Answer}

theorem pollFrom_of_not_due (hdue : c.isDue now = false) (s : σ) :
    pollFrom source c now s = ((c, []), s) := by
  rw [pollFrom, hdue]
  rfl

theorem pollFrom_once (hdue : c.isDue now = true) (hfirst : source c.version s = (a, t))
    (hvain : isVain a = false) :
    pollFrom source c now s = (((receive now c a).cursor, changes a), t) := by
  have hgone : (receive now c a).gone = false := (receive_eq now c a).2.2.trans hvain
  rw [pollFrom, if_pos hdue, bind_apply, hfirst, ← (receive_eq now c a).2.1]
  dsimp only
  rw [if_neg (by simp [hgone])]
  rfl

theorem pollFrom_twice (hdue : c.isDue now = true) (hfirst : source c.version s = (a, t))
    (hvain : isVain a = true) (hsecond : source start t = (b, u)) :
    pollFrom source c now s = (((receive now (receive now c a).cursor b).cursor,
      changes a ++ changes b), u) := by
  obtain ⟨hversion, hevents, hgone⟩ := receive_eq now c a
  rw [versionAfter, if_pos hvain] at hversion
  rw [pollFrom, if_pos hdue, bind_apply, hfirst, ← hevents,
    ← (receive_eq now (receive now c a).cursor b).2.1]
  dsimp only
  rw [if_pos (hgone.trans hvain), bind_apply, hversion, hsecond]
  rfl

end

/-- The server as a source of answers for a watch. -/
def source (w : Watch) : Source Api.Server := fun version =>
  (Api.watch w.kind (.space w.space) version).run

theorem run_poll_eq (w : Watch) (now : Span) (s : Api.Server) : (w.poll now).run s =
    (({ w with cursor := (pollFrom w.source w.cursor now s).1.1 },
      (pollFrom w.source w.cursor now s).1.2), (pollFrom w.source w.cursor now s).2) := by
  cases hdue : w.cursor.isDue now with
  | false => rw [(poll_of_not_due hdue).1, pollFrom_of_not_due hdue]
  | true =>
    rw [run_poll_of_due hdue, pollFrom, if_pos hdue, bind_apply]
    change (if (receive now w.cursor (w.source w.cursor.version s).1).gone = true then _ else _) = _
    dsimp only
    split <;> rfl

/-- A source whose requests are noted, with their answers. -/
def noted (source : Source σ) (now : Span) : Source (σ × List Exchange) := fun version t =>
  let (answer, s) := source version t.1
  (answer, (s, t.2 ++ [⟨now, version, answer⟩]))

theorem noted_eq {source : Source σ} {version : String} {s t : σ} {a : Answer}
    (h : source version s = (a, t)) (now : Span) (log : List Exchange) :
    noted source now version (s, log) = (a, (t, log ++ [⟨now, version, a⟩])) := by
  rw [noted, h]

/-- The versions that are asked from: each request continues where the answer before it led to. -/
inductive Follows : String → List Exchange → String → Prop
  | nil (version : String) : Follows version [] version
  | cons {last : String} {e : Exchange} {rest : List Exchange}
      (h : Follows (versionAfter e.version e.answer) rest last) : Follows e.version (e :: rest) last

end Watch

/-- A watch of a source, with the requests that it made and the events that it handed over. -/
structure Round (σ : Type) where
  server : σ
  log : List Watch.Exchange
  cursor : Watch.Cursor
  seen : List Api.Event

namespace Round

open Watch

variable {σ : Type} {source : Source σ} {base cap : Span}

/-- A watch that made no request yet. -/
def start (server : σ) (version : String) (base cap : Span) : Round σ :=
  ⟨server, [], .at version (.start base cap), []⟩

def poll (source : Source σ) (p : Round σ) (now : Span) : Round σ :=
  let ((cursor, events), (server, log)) :=
    pollFrom (noted source now) p.cursor now (p.server, p.log)
  ⟨server, log, cursor, p.seen ++ events⟩

/-- What a poll comes to: the requests that it makes, and what it does with their answers. -/
structure Tour (source : Source σ) (base cap now : Span) (p q : Round σ)
    (made : List Exchange) : Prop where
  log : q.log = p.log ++ made
  times : ∀ e ∈ made, e.time = now
  /-- Requests are made unless a failure is too recent. -/
  due : made ≠ [] ↔ ∀ resume ∈ resumption base cap p.log, resume ≤ now
  atMost : made.length ≤ 2
  /-- A second request is made exactly if the version is gone, and asks from the start. -/
  again : ∀ first rest, made = first :: rest →
    (rest ≠ [] ↔ isVain first.answer = true) ∧ ∀ second ∈ rest, second.version = Watch.start
  versions : Follows p.cursor.version made q.cursor.version
  seen : q.seen = p.seen ++ made.flatMap fun e => changes e.answer
  /-- Without the notes, the poll does the same. -/
  plain : pollFrom source p.cursor now p.server =
    ((q.cursor, made.flatMap fun e => changes e.answer), q.server)

section

variable {p : Round σ} {now : Span}

theorem isDue_iff (h : Minds base cap p.log p.cursor) :
    p.cursor.isDue now = true ↔ ∀ resume ∈ resumption base cap p.log, resume ≤ now := by
  rw [Cursor.isDue, h.resume]
  cases resumption base cap p.log <;> simp

theorem poll_of_run {server : σ} {log : List Exchange} {cursor : Cursor}
    {events : List Api.Event} (h : pollFrom (noted source now) p.cursor now (p.server, p.log) =
      ((cursor, events), (server, log))) :
    p.poll source now = ⟨server, log, cursor, p.seen ++ events⟩ := by
  rw [poll, h]

theorem tour_of_not_due (h : Minds base cap p.log p.cursor) (hdue : p.cursor.isDue now = false) :
    Tour source base cap now p (p.poll source now) [] ∧
      Minds base cap (p.poll source now).log (p.poll source now).cursor := by
  have hlate : ¬∀ resume ∈ resumption base cap p.log, resume ≤ now := by
    rw [← isDue_iff h, hdue]
    exact Bool.false_ne_true
  rw [poll_of_run (pollFrom_of_not_due hdue _)]
  refine ⟨⟨(List.append_nil _).symm, by simp, ?_, Nat.zero_le _, nofun, .nil _, rfl,
    pollFrom_of_not_due hdue _⟩, h⟩
  exact iff_of_false (fun hne => hne rfl) hlate

theorem tour_once (h : Minds base cap p.log p.cursor) (hdue : p.cursor.isDue now = true) {t : σ}
    {a : Answer} (hfirst : source p.cursor.version p.server = (a, t)) (hvain : isVain a = false) :
    Tour source base cap now p (p.poll source now) [⟨now, p.cursor.version, a⟩] ∧
      Minds base cap (p.poll source now).log (p.poll source now).cursor := by
  have hnoted := noted_eq hfirst now p.log
  have hversion : (receive now p.cursor a).cursor.version = versionAfter p.cursor.version a :=
    (receive_eq now p.cursor a).1
  rw [poll_of_run (pollFrom_once hdue hnoted hvain)]
  refine ⟨⟨rfl, by simp, ?_, by simp, ?_, ?_, ?_, ?_⟩, h.receive now p.cursor.version a⟩
  · exact iff_of_true (List.cons_ne_nil _ _) ((isDue_iff h).mp hdue)
  · rintro first rest ⟨⟩
    exact ⟨iff_of_false (fun hne => hne rfl) (by simp [hvain]), by simp⟩
  · refine .cons (e := ⟨now, p.cursor.version, a⟩) ?_
    rw [← hversion]
    exact .nil _
  · simp
  · rw [pollFrom_once hdue hfirst hvain]
    simp

theorem tour_twice (h : Minds base cap p.log p.cursor) (hdue : p.cursor.isDue now = true)
    {t u : σ} {a b : Answer} (hfirst : source p.cursor.version p.server = (a, t))
    (hvain : isVain a = true) (hsecond : source Watch.start t = (b, u)) :
    Tour source base cap now p (p.poll source now)
        [⟨now, p.cursor.version, a⟩, ⟨now, Watch.start, b⟩] ∧
      Minds base cap (p.poll source now).log (p.poll source now).cursor := by
  let behind : Cursor := (receive now p.cursor a).cursor
  have hnoted := noted_eq hfirst now p.log
  have hnoted' := noted_eq hsecond now (p.log ++ [⟨now, p.cursor.version, a⟩])
  have hback : versionAfter p.cursor.version a = Watch.start := if_pos hvain
  have hversion : (receive now behind b).cursor.version = versionAfter Watch.start b := by
    rw [(receive_eq now behind b).1, (receive_eq now p.cursor a).1, hback]
  have minds := (h.receive now p.cursor.version a).receive now Watch.start b
  rw [poll_of_run (pollFrom_twice hdue hnoted hvain hnoted')]
  refine ⟨⟨by simp, by simp, ?_, by simp, ?_, ?_, ?_, ?_⟩, minds⟩
  · exact iff_of_true (List.cons_ne_nil _ _) ((isDue_iff h).mp hdue)
  · rintro first rest ⟨⟩
    exact ⟨iff_of_true (List.cons_ne_nil _ _) hvain, by simp⟩
  · refine .cons (e := ⟨now, p.cursor.version, a⟩) ?_
    rw [hback]
    refine .cons (e := ⟨now, Watch.start, b⟩) ?_
    rw [← hversion]
    exact .nil _
  · simp
  · rw [pollFrom_twice hdue hfirst hvain hsecond]
    simp

end

/-- Whatever the answers are, a poll of a cursor that minds the failures so far is a tour, and the
cursor minds the failures then. -/
theorem tour_poll {p : Round σ} (h : Minds base cap p.log p.cursor) (source : Source σ)
    (now : Span) : ∃ made, Tour source base cap now p (p.poll source now) made ∧
      Minds base cap (p.poll source now).log (p.poll source now).cursor := by
  cases hdue : p.cursor.isDue now with
  | false => exact ⟨_, tour_of_not_due h hdue⟩
  | true =>
    cases hfirst : source p.cursor.version p.server with
    | mk a t =>
      cases hvain : isVain a with
      | false => exact ⟨_, tour_once h hdue hfirst hvain⟩
      | true => exact ⟨_, tour_twice h hdue hfirst hvain rfl⟩

/-- A watch after some polls, the first one first. -/
def run (source : Source σ) (p : Round σ) (times : List Span) : Round σ :=
  times.foldl (poll source) p

theorem minds_run {p : Round σ} (h : Minds base cap p.log p.cursor) (source : Source σ)
    (times : List Span) : Minds base cap (p.run source times).log (p.run source times).cursor := by
  induction times generalizing p with
  | nil => exact h
  | cons now rest ih =>
    obtain ⟨_, _, hminds⟩ := tour_poll h source now
    exact ih hminds

/-- A source that gives answers one after the other. -/
def tape : Source (List Answer) := fun _ answers => (answers.headD (.ok []), answers.tail)

end Round

end Warren
