import Warren.Message.Notice
import Warren.Message.Request

/-!
# Frames

The job manager and the service exchange frames. A frame has a topic and a payload; it is written
as an object with these two fields, and also read as an array of the two.
-/

namespace Warren

structure Response where
  /-- The number of the request. -/
  number : UInt64
  success : Bool
  failure : Option String
  failureKind : Option String
  workflows : Option (List JobId)
deriving Repr

inductive Outgoing where
  | response (answer : Response)
  | notice (told : Notice)
deriving Repr

inductive Incoming where
  | request (number : UInt64) (asked : Request)
  /-- A notice could not be delivered. -/
  | noticeFailed (topic failure : String)
deriving Repr

namespace Frame

def encode (topic : String) (payload : Json) : Json :=
  .ofFields [("topic", .string topic), ("payload", payload)]

/-- The topic and the payload of a frame, and whether they are the fields of an object. -/
def decode? : Json → Option (String × Json × Bool)
  | .object fields => do
    some (← Dict.required fields "topic" Json.string?, ← Dict.find? fields "payload", true)
  | .array [.string topic, payload] => some (topic, payload, false)
  | _ => none

end Frame

namespace Response

def payload (r : Response) : Json :=
  .ofFields ([("request_id", .nat r.number.toNat), ("success", .boolean r.success)]
    ++ JobResource.optionalField "errstr" (r.failure.map .string)
    ++ JobResource.optionalField "error_kind" (r.failureKind.map .string)
    ++ JobResource.optionalField "workflows"
      (r.workflows.map fun ids => .array (ids.map JobId.encode)))

def decode? : Decoder Response := fun j => do
  let fields ← j.record? ["request_id", "success", "errstr", "error_kind", "workflows"]
  some {
    number := ← fields.required "request_id" Json.word64?
    success := ← fields.required "success" Json.boolean?
    failure := ← fields.optional "errstr" Json.string?
    failureKind := ← fields.optional "error_kind" Json.string?
    workflows := ← fields.optional "workflows" (Json.list? JobId.decode?) }

end Response

namespace Outgoing

def encode : Outgoing → Json
  | .response r => Frame.encode "response" r.payload
  | .notice n => Frame.encode n.topic n.payload

def decode? : Decoder Outgoing := fun j => do
  let (topic, payload, _) ← Frame.decode? j
  if topic = "response" then (Response.decode? payload).map .response
  else (Notice.decode? topic payload).map .notice

end Outgoing

namespace Incoming

def decodeRequest? (byNumber : Bool) : Decoder Incoming := fun j => do
  let fields ← j.record? ["request_id", "request"]
  some (.request (← fields.required "request_id" Json.word64?)
    (← fields.required "request" (Request.decode? byNumber)))

def decodeFailure? : Decoder Incoming := fun j => do
  let fields ← j.record? ["topic", "errstr"]
  some (.noticeFailed (← fields.required "topic" Json.string?)
    (← fields.required "errstr" Json.string?))

def decode? : Decoder Incoming := fun j => do
  let (topic, payload, byNumber) ← Frame.decode? j
  match topic with
  | "request" => decodeRequest? byNumber payload
  | "notification-failed" => decodeFailure? payload
  | _ => none

def encode : Incoming → Json
  | .request number asked => Frame.encode "request"
      (.ofFields [("request_id", .nat number.toNat), ("request", asked.encode)])
  | .noticeFailed topic failure => Frame.encode "notification-failed"
      (.ofFields [("topic", .string topic), ("errstr", .string failure)])

def job? : Incoming → Option JobId
  | .request _ asked => asked.job?
  | .noticeFailed .. => none

end Incoming

end Warren
