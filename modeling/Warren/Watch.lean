import Warren.Api.Server
import Warren.Backoff

/-!
# Watches

A watch follows a collection from a version on. Its cursor moves with every event; it goes back to
the start where the server has forgotten the version, and pauses after a failure.
-/

namespace Warren

namespace Watch

/-- The version before all events: it asks for the current state. -/
def start : String := "0"

/-- Where a watch stands. -/
structure Cursor where
  version : String
  backoff : Backoff
  /-- No request is made before this instant. -/
  resume : Option Span
deriving DecidableEq, Repr

def Cursor.at (version : String) (backoff : Backoff) : Cursor := ⟨version, backoff, none⟩

def Cursor.isDue (c : Cursor) (now : Span) : Bool := c.resume.all (· ≤ now)

/-- What one answer of the server comes to. -/
structure Delivery where
  cursor : Cursor
  events : List Api.Event
  /-- Whether the watch has to go back to the start. -/
  gone : Bool
deriving Repr

def Delivery.none (cursor : Cursor) : Delivery := ⟨cursor, [], false⟩

def Cursor.advance (c : Cursor) (event : Api.Event) : Cursor :=
  { c with version := event.version?.getD c.version }

/-- A delivery with one more event in front, and the cursor behind it. -/
def Delivery.after (event : Api.Event) (d : Delivery) : Delivery :=
  { d with events := event :: d.events }

/-- The events of an answer. Bookmarks and errors of the server are not delivered; the events after
the report that the version is gone are dropped. -/
def deliver (c : Cursor) : List Api.Event → Delivery
  | [] => .none c
  | .error code _ :: rest =>
    if code = 410 then ⟨{ c with version := start }, [], true⟩ else deliver c rest
  | .bookmark version :: rest => deliver { c with version } rest
  | event :: rest => (deliver (c.advance event) rest).after event

def receive (now : Span) (c : Cursor) : Except Api.Fault (List Api.Event) → Delivery
  | .ok events => deliver { c with backoff := c.backoff.reset, resume := none } events
  | .error fault =>
    if fault.isGone then ⟨{ c with version := start }, [], true⟩
    else
      let backoff := c.backoff.fail
      .none { c with backoff, resume := some (now + backoff.delay) }

end Watch

/-- A watch of a collection in a namespace. -/
structure Watch where
  kind : Api.Kind
  space : String
  cursor : Watch.Cursor
deriving Repr

namespace Watch

/-- One request for events, from the version of a cursor. -/
def attempt (w : Watch) (now : Span) (c : Cursor) : StateM Api.Server Delivery := do
  return receive now c (← (Api.watch w.kind (.space w.space) c.version).run)

/-- The events since the last poll. A watch that has to go back to the start does so at once, but
only once in a poll. -/
def poll (w : Watch) (now : Span) : StateM Api.Server (Watch × List Api.Event) := do
  if w.cursor.isDue now then
    let first ← w.attempt now w.cursor
    if first.gone then
      let second ← w.attempt now first.cursor
      return ({ w with cursor := second.cursor }, first.events ++ second.events)
    else return ({ w with cursor := first.cursor }, first.events)
  else return (w, [])

end Watch

end Warren
