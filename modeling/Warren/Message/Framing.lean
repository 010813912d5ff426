import Warren.Json.Printer
import Warren.Json.Reader
import Warren.Message.Frame

/-!
# Frames as bytes

On a connection every frame starts with the length of its payload, four bytes with the most
significant first; the payload is the JSON text of the frame. `next_framed` says that a payload is
read as it was written, and that the bytes behind it are left alone.
-/

namespace Warren.Framing

/-- The length of the longest payload: 8 MiB. -/
def limit : Nat := 0x800000

def lengthBytes (n : Nat) : List UInt8 :=
  [UInt8.ofNat (n / 0x1000000), UInt8.ofNat (n / 0x10000), UInt8.ofNat (n / 0x100),
    UInt8.ofNat n]

def lengthOf (a b c d : UInt8) : Nat :=
  a.toNat * 0x1000000 + b.toNat * 0x10000 + c.toNat * 0x100 + d.toNat

theorem lengthOf_lengthBytes {n : Nat} (h : n < UInt32.size) :
    lengthOf (UInt8.ofNat (n / 0x1000000)) (UInt8.ofNat (n / 0x10000)) (UInt8.ofNat (n / 0x100))
      (UInt8.ofNat n) = n := by
  simp only [UInt32.size] at h
  simp only [lengthOf, UInt8.toNat_ofNat']
  omega

inductive Next where
  /-- More bytes have to come first. -/
  | incomplete
  | tooLong
  | payload (bytes rest : List UInt8)
deriving DecidableEq, Repr

def next : List UInt8 → Next
  | a :: b :: c :: d :: rest =>
    let n := lengthOf a b c d
    if limit < n then .tooLong
    else if rest.length < n then .incomplete
    else .payload (rest.take n) (rest.drop n)
  | _ => .incomplete

def framed (payload : List UInt8) : List UInt8 := lengthBytes payload.length ++ payload

theorem next_framed {payload : List UInt8} (h : payload.length ≤ limit) (rest : List UInt8) :
    next (framed payload ++ rest) = .payload payload rest := by
  have hn : payload.length < UInt32.size := by
    simp only [limit] at h
    simp only [UInt32.size]
    omega
  simp only [framed, lengthBytes, List.cons_append, List.nil_append, next,
    lengthOf_lengthBytes hn, List.length_append]
  rw [if_neg (by omega), if_neg (by omega), List.take_left, List.drop_left]

theorem length_rest_lt {bytes payload rest : List UInt8} (h : next bytes = .payload payload rest) :
    rest.length < bytes.length := by
  unfold next at h
  split at h
  · simp only at h
    split at h
    · cases h
    · split at h
      · cases h
      · cases h
        simp only [List.length_drop, List.length_cons]
        omega
  · cases h

/-- Whether a frame, its payload and its request have no field of theirs more than once. -/
def isUnrepeated (frame : Json) : Bool :=
  let payload := (frame.field? "payload").getD .null
  let request := (payload.field? "request").getD .null
  frame.isUnrepeated ["topic", "payload"]
    && payload.isUnrepeated ["request_id", "request", "topic", "errstr"]
    && request.isUnrepeated ["method", "job_id", "user_id", "dw_directives", "resources",
      "failure_tolerance", "R", "run_started"]

def decode? (payload : List UInt8) : Option Incoming := do
  let written ← Json.read? (← String.fromUTF8? ⟨payload.toArray⟩)
  if isUnrepeated written then Incoming.decode? written.sortFields else none

/-- The bytes of a frame, unless it is too long. -/
def encode? (frame : Outgoing) : Option (List UInt8) :=
  let payload := frame.encode.compact.toUTF8.toList
  if limit < payload.length then none else some (framed payload)

end Warren.Framing
