import Warren.Gateway.Basic
import Warren.Message.Framing
import Warren.Service.Run

/-!
# Sessions

A session is the service behind the gateway, as job managers meet it: they send bytes, which are cut
into frames, and they get what the gateway queues for them. Bytes that are no frame yet wait for
more.
-/

namespace Warren

structure Session where
  gateway : Gateway
  service : Service
  /-- The bytes of each connection that are no frame yet. -/
  unread : Dict Nat (List UInt8)

namespace Session

def ofService (service : Service) : Session := ⟨.idle, service, []⟩

/-- Queues what the service has to say on the connections: answers to requests, and notices. -/
def relay (s : Session) : Session :=
  let answered := s.service.answers.foldl
    (fun g (ticket, answer) => (g.settle ticket (some answer)).respond ticket) s.gateway
  { s with
    gateway := s.service.world.notices.foldl (fun g notice => (g.notify notice).fanOut) answered
    service := { s.service.mapWorld fun w => { w with notices := [] } with answers := [] } }

def work (site : Site) (s : Session) : Session :=
  { s with service := ((Service.settle site).run s.service).2 }.relay

/-- A frame on a connection, none if it cannot be read. The task of a request has its first turn at
once. -/
def hear (connection : Nat) (s : Session) (frame : Option Incoming) : Session :=
  let (gateway, asked) := (s.gateway.hear connection frame).pass s.gateway.tasks.length
  let messages := asked.toList.map fun (ticket, request) => Message.request ticket request
  { s with gateway, service := { s.service with inbox := s.service.inbox ++ messages } }

/-- The frames at the front of some bytes, none for one that cannot be read, and the bytes that are
no frame yet. -/
def frames (bytes : List UInt8) : List (Option Incoming) × List UInt8 :=
  match _h : Framing.next bytes with
  | .incomplete => ([], bytes)
  | .tooLong => ([none], [])
  | .payload payload rest =>
    let (others, left) := frames rest
    (Framing.decode? payload :: others, left)
termination_by bytes.length
decreasing_by exact Framing.length_rest_lt _h

def receive (site : Site) (s : Session) (connection : Nat) (bytes : List UInt8) : Session :=
  let (frames, left) := frames ((s.unread.find? connection).getD [] ++ bytes)
  (frames.foldl (hear connection) { s with unread := s.unread.insert connection left }).work site

end Session

end Warren
