import Warren.Json.Equality
import Warren.Message.Frame
import Warren.Proofs.Message.Resources

/-!
# Messages that are written and read

Every message between the job manager and the service is read back as it was written. The resources
that it carries have to be as reading would leave them, `JobResource.Regular`; for anything that was
received this is `JobResource.regular_of_decode?`.

In the proofs the fields of a record are looked up one by one, form by form. A value is put into its
decoder with a proof and not by computation, as the kernel would otherwise count up to the bounds
of a word.
-/

namespace Warren

namespace Json

@[simp] theorem record?_object (names : List String) (fields : Dict String Json) :
    (object fields).record? names = some fields := rfl

@[simp] theorem record?_ofFields (names : List String) (fields : List (String × Json)) :
    (ofFields fields).record? names = some (Dict.ofEntries fields) := rfl

end Json

theorem JobResource.decodeArray?_encodeAll {rs : List JobResource} (h : ∀ r ∈ rs, r.Regular) :
    decodeArray? (.array (encodeAll rs)) = some rs := by
  rw [decodeArray?_items]
  exact decodeItems?_encodeAll fun r hr => decode?_encode (h r hr)

theorem Frame.decode?_encode (topic : String) (payload : Json) :
    decode? (encode topic payload) = some (topic, payload, true) := by
  simp [encode, Json.ofFields, decode?, Dict.required, Dict.find?_cons, Json.string?]

/-! ### Notices and responses -/

namespace Notice

/-- The resources that a notice carries. -/
def resources : Notice → List JobResource
  | .resourceUpdate u => u.resources
  | _ => []

theorem decode?_payload {n : Notice} (h : ∀ r ∈ n.resources, r.Regular) :
    decode? n.topic n.payload = some n := by
  cases n with
  | resourceUpdate u =>
    have hresources : JobResource.decodeArray? (.array (JobResource.encodeAll u.resources)) =
      some u.resources := JobResource.decodeArray?_encodeAll h
    simp -implicitDefEqProofs [decode?, topic, decodeUpdate?, payload, jobOf, Dict.required,
      Dict.optional_eq_elim, Function.comp_def, Dict.elim_some_some, Dict.find?_cons,
      Json.boolean?, hresources]
  | prologRemove id environment token =>
    simp -implicitDefEqProofs [decode?, topic, decodeProlog?, payload, jobOf, Dict.required,
      Dict.optional_eq_elim, Function.comp_def, Dict.elim_some_some, Dict.find?_cons]
  | epilogRemove id =>
    simp -implicitDefEqProofs [decode?, topic, payload, jobOf, Dict.required, Dict.find?_cons]
  | memo id content =>
    simp -implicitDefEqProofs [decode?, topic, payload, jobOf, Dict.required, Dict.find?_cons]
  | jobRaise id severity kind message =>
    simp -implicitDefEqProofs [decode?, topic, decodeRaise?, payload, jobOf, Dict.required,
      Dict.find?_cons, Json.string?]
  | nodeFailure id nodes =>
    simp -implicitDefEqProofs [decode?, topic, payload, jobOf, Dict.required, Dict.find?_cons]
  | kvsPut id entries =>
    simp -implicitDefEqProofs [decode?, topic, payload, jobOf, Dict.required, Dict.find?_cons,
      Json.fields?]
  | drain targets mode reason =>
    simp [decode?, topic, decodeDrain?, payload, Dict.required, Dict.find?_cons, Json.string?]
  | setProperty targets property | removeProperty targets property =>
    simp [decode?, topic, decodeProperty?, payload, Dict.required, Dict.find?_cons, Json.string?]
  | setStatus path up =>
    simp [decode?, topic, payload, Dict.required, Dict.find?_cons, Json.string?, Json.boolean?]

end Notice

theorem Response.decode?_payload (r : Response) : decode? r.payload = some r := by
  simp -implicitDefEqProofs [decode?, payload, Dict.required, Dict.optional_eq_elim,
    Function.comp_def, Dict.elim_some_some, Dict.find?_cons, Json.boolean?]

namespace Outgoing

/-- The resources that a message carries. -/
def resources : Outgoing → List JobResource
  | .response _ => []
  | .notice told => told.resources

theorem decode?_encode {m : Outgoing} (h : ∀ r ∈ m.resources, r.Regular) :
    decode? m.encode = some m := by
  cases m with
  | response answer =>
    rw [encode, decode?, Frame.decode?_encode]
    exact congrArg (Option.map Outgoing.response) (Response.decode?_payload answer)
  | notice told =>
    have hnotice : Notice.decode? told.topic told.payload = some told := Notice.decode?_payload h
    -- Notices are told from responses by their topic.
    have htopic : told.topic ≠ "response" := by cases told <;> simp [Notice.topic]
    simp [encode, decode?, Frame.decode?_encode, htopic, hnotice]

end Outgoing

/-! ### Requests -/

namespace Request

/-- The resources that a request carries. -/
def resources : Request → List JobResource
  | .create r => r.resources
  | _ => []

theorem decode?_encode_eq (r : Request) (byNumber : Bool) :
    decode? byNumber r.encode = decodeContent? r.method
      (.object ((Dict.ofEntries (("method", .string r.method) :: r.encodeFields)).erase
        "method")) := by
  have hmethod : (Dict.ofEntries (("method", .string r.method) :: r.encodeFields)).required
      "method" (decodeMethod? byNumber) = some r.method := by
    cases r <;> simp [Dict.required, encodeFields, Dict.find?_cons, decodeMethod?]
  rw [encode, Json.ofFields, decode?, hmethod]
  rfl

theorem decode?_encode {r : Request} (h : ∀ x ∈ r.resources, x.Regular) (byNumber : Bool) :
    decode? byNumber r.encode = some r := by
  rw [decode?_encode_eq]
  cases r with
  | create details =>
    have hresources : JobResource.decodeArray? (.array (JobResource.encodeAll details.resources)) =
      some details.resources := JobResource.decodeArray?_encodeAll h
    simp -implicitDefEqProofs [decodeContent?, method, decodeCreate?, encodeFields,
      Dict.required, Dict.defaulted, Dict.find?_erase, Dict.find?_cons, hresources]
  | setup id nodelist =>
    simp -implicitDefEqProofs [decodeContent?, method, decodeSetup?, decodeNodelist?,
      encodeFields, Dict.required, Dict.defaulted, Dict.find?_erase, Dict.find?_cons]
  | postRun id started =>
    simp -implicitDefEqProofs [decodeContent?, method, decodePostRun?, encodeFields,
      Dict.required, Dict.find?_erase, Dict.find?_cons, Json.boolean?]
  | teardown id | abort id =>
    simp -implicitDefEqProofs [decodeContent?, method, decodeJob?, encodeFields,
      Dict.required, Dict.find?_erase, Dict.find?_cons]
  | status => rfl

end Request

namespace Incoming

/-- The resources that a message carries. -/
def resources : Incoming → List JobResource
  | .request _ asked => asked.resources
  | .noticeFailed .. => []

theorem decode?_encode {m : Incoming} (h : ∀ r ∈ m.resources, r.Regular) :
    decode? m.encode = some m := by
  cases m with
  | request number asked =>
    have hasked : Request.decode? true asked.encode = some asked := Request.decode?_encode h true
    simp -implicitDefEqProofs [decode?, encode, Frame.decode?_encode, decodeRequest?,
      Dict.required, Dict.find?_cons, hasked]
  | noticeFailed topic failure =>
    simp [decode?, encode, Frame.decode?_encode, decodeFailure?, Dict.required, Dict.find?_cons,
      Json.string?]

end Incoming

/-! ### Both directions -/

/-- Messages of either direction are read back as they were written. A tree of resources that was
read is written with all its fields and values, apart from those that stand for nothing. -/
theorem Frame.round_trip :
    (∀ m : Incoming, (∀ r ∈ m.resources, r.Regular) → Incoming.decode? m.encode = some m) ∧
    (∀ m : Outgoing, (∀ r ∈ m.resources, r.Regular) → Outgoing.decode? m.encode = some m) ∧
    ∀ (j : Json) (r : JobResource), j.Ordered → JobResource.decode? j = some r →
      r.encode = JobResource.trim j :=
  ⟨fun _ => Incoming.decode?_encode, fun _ => Outgoing.decode?_encode,
    fun _ _ => JobResource.encode_of_decode?⟩

/-- A slot, and in it a node that has a field of its own. -/
def JobResource.slotWithNode : JobResource :=
  { JobResource.counted "slot" 2 with
    label := some "rabbit"
    children := [{ JobResource.counted "node" 1 with extra := [("unit", .string "core")] }] }

theorem JobResource.regular_slotWithNode : slotWithNode.Regular := by
  have ordered : slotWithNode.encode.Ordered :=
    Json.ordered_of_sortFields_eq (by decide +kernel)
  exact regular_of_decode? ordered rfl

/-- A node that is written with fewer fields than it was read with. -/
def JobResource.idleNode : Json :=
  .object [("count", .null), ("type", .string "node"), ("unit", .string "core"),
    ("with", .array [])]

theorem JobResource.ordered_idleNode : idleNode.Ordered :=
  Json.ordered_of_sortFields_eq (by decide +kernel)

theorem Frame.round_trip_slot :
    let asked : Incoming := .request 3
      (.create ⟨⟨5, by decide⟩, 1000, .string "#DW jobdw", [JobResource.slotWithNode], 0⟩)
    let told : Outgoing :=
      .notice (.resourceUpdate ⟨⟨5, by decide⟩, [JobResource.slotWithNode], false, none, none⟩)
    let node : JobResource := ⟨"node", none, none, none, [], [("unit", .string "core")]⟩
    Incoming.decode? asked.encode = some asked ∧ Outgoing.decode? told.encode = some told ∧
      JobResource.decode? JobResource.idleNode = some node ∧
      node.encode = .object [("type", .string "node"), ("unit", .string "core")] := by
  have regular : ∀ r ∈ [JobResource.slotWithNode], r.Regular :=
    List.forall_mem_singleton.mpr JobResource.regular_slotWithNode
  exact ⟨Frame.round_trip.1 _ regular, Frame.round_trip.2.1 _ regular, rfl,
    Frame.round_trip.2.2 _ _ JobResource.ordered_idleNode rfl⟩

end Warren
