import Mathlib.Data.List.Forall2
import Warren.Proofs.Message.Fields

/-!
# Resources that are written and read

A tree of resources is read back as it was written: `decode?_encode`. A tree that was read is
written with all its fields and values, apart from those that stand for nothing:
`encode_of_decode?`.
-/

namespace Warren.JobResource

/-! ### Trees -/

/-- A resource as it comes about: its other fields are in order, none of them has the name of a
field of a resource, and the resources below it are of the same kind. -/
inductive Regular : JobResource → Prop
  | intro {r : JobResource} (sorted : r.extra.Sorted) (foreign : ∀ e ∈ r.extra, e.1 ∉ fieldNames)
    (children : ∀ child ∈ r.children, Regular child) : Regular r

/-- A field that stands for nothing: an option that is `null`, or an empty list of resources. -/
def isIdle (name : String) (value : Json) : Bool :=
  (["count", "label", "exclusive"].contains name && value.isNull) ||
    (name = "with" && value.items?.any List.isEmpty)

mutual

/-- A tree of resources without the fields that stand for nothing. -/
def trim : Json → Json
  | .object fields => .object (trimFields fields)
  | j => j

def trimFields : List (String × Json) → List (String × Json)
  | [] => []
  | field :: rest => (trimField? field).toList ++ trimFields rest

def trimField? : String × Json → Option (String × Json)
  | (name, value) =>
    if isIdle name value then none
    else some (name, if name = "with" then trimArray value else value)

def trimArray : Json → Json
  | .array items => .array (trimItems items)
  | j => j

def trimItems : List Json → List Json
  | [] => []
  | item :: rest => trim item :: trimItems rest

end

/-! ### Fields of a resource -/

theorem decodeChildren?_eq (fields : Dict String Json) :
    decodeChildren? fields = fields.defaulted "with" decodeArray? [] := by
  induction fields with
  | nil => simp [decodeChildren?, Dict.defaulted]
  | cons field rest ih =>
    obtain ⟨name, value⟩ := field
    rw [decodeChildren?, Dict.defaulted, Dict.find?_cons]
    split
    · simp [decodeField?]
    · exact ih

theorem decodeArray?_items (items : List Json) :
    decodeArray? (.array items) = decodeItems? items := by rw [decodeArray?]

theorem decode?_object (fields : Dict String Json) :
    decode? (.object fields) = (do
      let children ← fields.defaulted "with" decodeArray? []
      some {
        kind := ← fields.required "type" Json.string?
        count := ← fields.optional "count" Json.word64?
        label := ← fields.optional "label" Json.string?
        exclusive := ← fields.optional "exclusive" Json.boolean?
        children
        extra := fields.filter fun field => !fieldNames.contains field.1 }) := by
  rw [decode?, decodeChildren?_eq]
  cases fields.defaulted "with" decodeArray? [] <;> rfl

/-- The field for the resources below a resource, if there are any. -/
def inside (r : JobResource) : Option Json :=
  if r.children.isEmpty then none else some (.array (encodeAll r.children))

/-- The fields that are written before the other ones. -/
def declared (r : JobResource) : List (String × Json) :=
  [("type", .string r.kind)] ++ optionalField "count" (r.count.map fun n => .nat n.toNat)
    ++ optionalField "label" (r.label.map .string)
    ++ optionalField "exclusive" (r.exclusive.map .boolean)
    ++ optionalField "with" r.inside

theorem encode_eq (r : JobResource) : r.encode = .ofFields (r.declared ++ r.extra) := by
  obtain ⟨kind, count, label, exclusive, children, extra⟩ := r
  cases children <;> simp [encode, declared, inside, optionalField]

/-- The value of a field, none for one that is left out. -/
def field? (r : JobResource) (name : String) : Option Json :=
  if name = "type" then some (.string r.kind)
  else if name = "count" then r.count.map fun n => .nat n.toNat
  else if name = "label" then r.label.map .string
  else if name = "exclusive" then r.exclusive.map .boolean
  else if name = "with" then r.inside
  else r.extra.find? name

variable {r : JobResource}

theorem field?_of_not_mem {name : String} (h : name ∉ fieldNames) :
    r.field? name = r.extra.find? name := by
  simp only [fieldNames, List.mem_cons, List.not_mem_nil, or_false, not_or] at h
  obtain ⟨htype, hcount, hlabel, hexclusive, hwith⟩ := h
  simp [field?, htype, hcount, hlabel, hexclusive, hwith]

theorem find?_declared (r : JobResource) (name : String) :
    Dict.find? r.declared.reverse name = if name ∈ fieldNames then r.field? name else none := by
  simp only [declared, List.reverse_append, Dict.find?_append, reverse_optionalField,
    find?_optionalField, List.reverse_singleton, Dict.find?_cons, Dict.find?_nil]
  by_cases hname : name ∈ fieldNames
  · simp only [fieldNames, List.mem_cons, List.not_mem_nil, or_false] at hname
    rcases hname with rfl | rfl | rfl | rfl | rfl <;> simp [fieldNames, field?]
  · have hother := hname
    simp only [fieldNames, List.mem_cons, List.not_mem_nil, or_false, not_or] at hother
    obtain ⟨htype, hcount, hlabel, hexclusive, hwith⟩ := hother
    simp [hname, Ne.symm hwith, Ne.symm htype, Ne.symm hcount, Ne.symm hlabel, Ne.symm hexclusive]

theorem find?_encoded (sorted : r.extra.Sorted) (foreign : ∀ e ∈ r.extra, e.1 ∉ fieldNames)
    (name : String) : (Dict.ofEntries (r.declared ++ r.extra)).find? name = r.field? name := by
  rw [Dict.find?_ofEntries, List.reverse_append, Dict.find?_append, sorted.find?_reverse,
    find?_declared]
  by_cases hname : name ∈ fieldNames
  · have hnone : r.extra.find? name = none :=
      Dict.find?_eq_none_of_forall_ne fun e he heq => foreign e he (heq ▸ hname)
    rw [hnone, if_pos hname, Option.none_or]
  · rw [if_neg hname, Option.or_none, field?_of_not_mem hname]

theorem decodeItems?_encodeAll {rs : List JobResource}
    (h : ∀ r ∈ rs, decode? r.encode = some r) : decodeItems? (encodeAll rs) = some rs := by
  induction rs with
  | nil => simp [encodeAll, decodeItems?]
  | cons r rs ih =>
    obtain ⟨hr, hrs⟩ := List.forall_mem_cons.mp h
    simp [encodeAll, decodeItems?, hr, ih hrs]

theorem defaulted_children {fields : Dict String Json} (hfind : fields.find? "with" = r.inside)
    (h : ∀ child ∈ r.children, decode? child.encode = some child) :
    fields.defaulted "with" decodeArray? [] = some r.children := by
  rw [Dict.defaulted, hfind, inside]
  have hread := decodeItems?_encodeAll h
  cases hchildren : r.children with
  | nil => rfl
  | cons child rest =>
    rw [hchildren] at hread
    exact (decodeArray?_items _).trans hread

theorem filter_encoded (sorted : r.extra.Sorted) (foreign : ∀ e ∈ r.extra, e.1 ∉ fieldNames) :
    (Dict.ofEntries (r.declared ++ r.extra)).filter
      (fun field => !fieldNames.contains field.1) = r.extra := by
  have hsorted := (Dict.sorted_ofEntries (r.declared ++ r.extra)).filter
    fun field => !fieldNames.contains field.1
  refine Dict.Sorted.ext hsorted sorted fun name => ?_
  rw [Dict.find?_filter fun name => !fieldNames.contains name,
    find?_encoded sorted foreign]
  by_cases hname : name ∈ fieldNames
  · have hnone : r.extra.find? name = none :=
      Dict.find?_eq_none_of_forall_ne fun e he heq => foreign e he (heq ▸ hname)
    simp [hname, hnone]
  · simp [hname, field?_of_not_mem]

/-- A tree of resources is read back as it was written. -/
theorem decode?_encode (h : r.Regular) : decode? r.encode = some r := by
  induction h with
  | @intro r sorted foreign children ih =>
    have hfind := find?_encoded sorted foreign
    rw [encode_eq, Json.ofFields, decode?_object, filter_encoded sorted foreign,
      defaulted_children (hfind "with") ih, Dict.required_of_find? (hfind "type"),
      Dict.optional_of_find? (hfind "count") Json.optional?_nat,
      Dict.optional_of_find? (hfind "label") Json.optional?_string,
      Dict.optional_of_find? (hfind "exclusive") Json.optional?_boolean]
    cases r
    rfl

/-! ### Trees that were read -/

/-- A resource and the fields that it was read from. -/
structure Reads (fields : Dict String Json) (r : JobResource) : Prop where
  kind : fields.find? "type" = some (.string r.kind)
  count : (fields.find? "count").filter (fun j => !j.isNull) = r.count.map fun n => .nat n.toNat
  label : (fields.find? "label").filter (fun j => !j.isNull) = r.label.map .string
  exclusive : (fields.find? "exclusive").filter (fun j => !j.isNull) = r.exclusive.map .boolean
  children : (fields.find? "with" = none ∧ r.children = []) ∨
    ∃ items, fields.find? "with" = some (.array items) ∧ decodeItems? items = some r.children
  extra : r.extra = fields.filter fun field => !fieldNames.contains field.1

theorem children_of_defaulted {fields : Dict String Json} {children : List JobResource}
    (h : fields.defaulted "with" decodeArray? [] = some children) :
    (fields.find? "with" = none ∧ children = []) ∨
      ∃ items, fields.find? "with" = some (.array items) ∧ decodeItems? items = some children := by
  rw [Dict.defaulted] at h
  cases hwith : fields.find? "with" with
  | none =>
    rw [hwith] at h
    exact .inl ⟨rfl, (Option.some.inj h).symm⟩
  | some value =>
    rw [hwith] at h
    cases value with
    | array items => exact .inr ⟨items, rfl, (decodeArray?_items items).symm.trans h⟩
    | _ => simp [decodeArray?] at h

theorem reads_of_decode? {fields : Dict String Json} (h : decode? (.object fields) = some r) :
    Reads fields r := by
  rw [decode?_object] at h
  obtain ⟨children, hchildren, h⟩ := Option.bind_eq_some_iff.mp h
  obtain ⟨kind, hkind, h⟩ := Option.bind_eq_some_iff.mp h
  obtain ⟨count, hcount, h⟩ := Option.bind_eq_some_iff.mp h
  obtain ⟨label, hlabel, h⟩ := Option.bind_eq_some_iff.mp h
  obtain ⟨exclusive, hexclusive, h⟩ := Option.bind_eq_some_iff.mp h
  obtain rfl := Option.some.inj h
  obtain ⟨j, hj, hstring⟩ := Option.bind_eq_some_iff.mp hkind
  exact {
    kind := hj.trans (congrArg some (Json.string_of_string? hstring))
    count := Dict.filter_of_optional hcount fun _ _ => Json.nat_of_word64?
    label := Dict.filter_of_optional hlabel fun _ _ => Json.string_of_string?
    exclusive := Dict.filter_of_optional hexclusive fun _ _ => Json.boolean_of_boolean?
    children := children_of_defaulted hchildren
    extra := rfl }

theorem Reads.sorted {fields : Dict String Json} (hreads : Reads fields r)
    (hfields : fields.Sorted) : r.extra.Sorted := by
  rw [hreads.extra]
  exact hfields.filter _

theorem Reads.foreign {fields : Dict String Json} (hreads : Reads fields r) :
    ∀ e ∈ r.extra, e.1 ∉ fieldNames := by
  intro e he
  rw [hreads.extra] at he
  simpa using (List.mem_filter.mp he).2

theorem forall₂_of_decodeItems? {items : List Json} {rs : List JobResource}
    (h : decodeItems? items = some rs) : List.Forall₂ (fun j r => decode? j = some r) items rs := by
  induction items generalizing rs with
  | nil =>
    rw [decodeItems?] at h
    obtain rfl := Option.some.inj h
    exact .nil
  | cons item rest ih =>
    rw [decodeItems?] at h
    obtain ⟨first, hfirst, h⟩ := Option.bind_eq_some_iff.mp h
    obtain ⟨others, hothers, h⟩ := Option.bind_eq_some_iff.mp h
    obtain rfl := Option.some.inj h
    exact .cons hfirst (ih hothers)

/-- Induction on a tree that is read: what holds of a resource and the value it was read from, if it
holds of the resources below it. -/
theorem read_induction {motive : Json → JobResource → Prop}
    (step : ∀ {fields : Dict String Json} {r : JobResource}, fields.Sorted → Reads fields r →
      (∀ items, fields.find? "with" = some (.array items) →
        List.Forall₂ motive items r.children) → motive (.object fields) r)
    {j : Json} (hj : j.Ordered) (h : decode? j = some r) : motive j r := by
  -- The value of the field for the resources below is a list, so lists take part in the induction.
  have both : (∀ r, decode? j = some r → motive j r) ∧
      (∀ items, j = .array items → ∀ rs, decodeItems? items = some rs →
        List.Forall₂ motive items rs) := by
    clear h
    induction hj with
    | @object fields sorted values ih =>
      refine ⟨fun r hr => ?_, fun items heq => by cases heq⟩
      have hreads := reads_of_decode? hr
      refine step sorted hreads fun items hitems => ?_
      rcases hreads.children with ⟨hnone, -⟩ | ⟨others, hothers, hdecode⟩
      · rw [hnone] at hitems
        cases hitems
      · obtain rfl : others = items := by simpa [hothers] using hitems
        exact (ih ("with", .array others) ((sorted.mem_iff _ _).mpr hothers)).2 _ rfl _ hdecode
    | @array items values ih =>
      refine ⟨fun r hr => by simp [decode?] at hr, ?_⟩
      rintro _ ⟨⟩ rs hrs
      have hall := forall₂_of_decodeItems? hrs
      clear hrs
      induction hall with
      | nil => exact .nil
      | @cons item first rest others hfirst hothers ihrest =>
        refine .cons ((ih item (List.mem_cons_self ..)).1 first hfirst) (ihrest ?_ ?_)
        · exact fun j hj => values j (List.mem_cons_of_mem _ hj)
        · exact fun j hj => ih j (List.mem_cons_of_mem _ hj)
    | _ => exact ⟨fun r hr => by simp [decode?] at hr, fun items heq => by cases heq⟩
  exact both.1 r h

theorem forall_of_forall₂ {p : JobResource → Prop} {items : List Json} {rs : List JobResource}
    (h : List.Forall₂ (fun _ r => p r) items rs) : ∀ r ∈ rs, p r := by
  induction h with
  | nil => exact List.forall_mem_nil p
  | cons hfirst _ ih => exact List.forall_mem_cons.mpr ⟨hfirst, ih⟩

/-- A resource that was read from a value in order, and so every resource that the service gets, can
be written and read. -/
theorem regular_of_decode? {j : Json} (hj : j.Ordered) (h : decode? j = some r) : r.Regular := by
  refine read_induction (motive := fun _ r => r.Regular) (fun sorted hreads ih => ?_) hj h
  refine .intro (hreads.sorted sorted) hreads.foreign fun child hchild => ?_
  rcases hreads.children with ⟨-, hnone⟩ | ⟨items, hitems, -⟩
  · simp [hnone] at hchild
  · exact forall_of_forall₂ (ih items hitems) child hchild

theorem trimField?_eq (name : String) (value : Json) :
    (trimField? (name, value)).map Prod.snd =
      if isIdle name value then none
      else some (if name = "with" then trimArray value else value) := by
  rw [trimField?]
  split <;> rfl

theorem mem_trimFields {fields : List (String × Json)} {e : String × Json}
    (h : e ∈ trimFields fields) : ∃ field ∈ fields, field.1 = e.1 := by
  induction fields with
  | nil => simp [trimFields] at h
  | cons field rest ih =>
    obtain ⟨name, value⟩ := field
    rw [trimFields] at h
    rcases List.mem_append.mp h with h | h
    · have hfield := Option.mem_toList.mp h
      rw [trimField?] at hfield
      split at hfield
      · cases hfield
      · obtain rfl := Option.some.inj hfield
        exact ⟨_, List.mem_cons_self .., rfl⟩
    · obtain ⟨field, hfield, hname⟩ := ih h
      exact ⟨field, List.mem_cons_of_mem _ hfield, hname⟩

theorem sorted_trimFields {fields : Dict String Json} (h : fields.Sorted) :
    Dict.Sorted (trimFields fields) := by
  induction fields with
  | nil => simp [trimFields, Dict.Sorted]
  | cons field rest ih =>
    obtain ⟨hfirst, hrest⟩ := List.pairwise_cons.mp h
    obtain ⟨name, value⟩ := field
    rw [trimFields, trimField?]
    split
    · exact ih hrest
    · refine List.pairwise_cons.mpr ⟨fun e he => ?_, ih hrest⟩
      obtain ⟨field, hfield, hname⟩ := mem_trimFields he
      rw [← hname]
      exact hfirst field hfield

theorem find?_trimFields {fields : Dict String Json} (h : fields.Sorted) (name : String) :
    Dict.find? (trimFields fields) name =
      (fields.find? name).bind fun value => (trimField? (name, value)).map Prod.snd := by
  induction fields with
  | nil => simp [trimFields]
  | cons field rest ih =>
    have hrest : Dict.Sorted rest := (List.pairwise_cons.mp h).2
    obtain ⟨k, value⟩ := field
    rw [trimFields, Dict.find?_append, ih hrest, Dict.find?_cons]
    by_cases hk : k = name
    · subst hk
      have htail : Dict.find? rest k = none := h.find?_tail
      rw [htail, if_pos rfl, Option.bind_some, Option.bind_none, Option.or_none, trimField?]
      split <;> simp [Dict.find?_cons]
    · rw [if_neg hk, trimField?]
      split <;> simp [Dict.find?_cons, hk]

theorem encodeAll_eq_trimItems {items : List Json} {rs : List JobResource}
    (h : List.Forall₂ (fun j r => r.encode = trim j) items rs) :
    encodeAll rs = trimItems items := by
  induction h with
  | nil => rfl
  | cons hfirst _ ih => rw [encodeAll, trimItems, hfirst, ih]

theorem inside_of_reads {fields : Dict String Json} (hreads : Reads fields r)
    (h : ∀ items, fields.find? "with" = some (.array items) →
      List.Forall₂ (fun j r => r.encode = trim j) items r.children) :
    r.inside = (fields.find? "with").bind fun value =>
      if isIdle "with" value then none else some (trimArray value) := by
  rcases hreads.children with ⟨hwith, hchildren⟩ | ⟨items, hwith, -⟩
  · simp [inside, hwith, hchildren]
  · have hall := h items hwith
    have hempty : r.children.isEmpty = items.isEmpty := by
      rw [Bool.eq_iff_iff, List.isEmpty_iff_length_eq_zero, List.isEmpty_iff_length_eq_zero,
        hall.length_eq]
    simp [inside, hwith, isIdle, Json.items?, hempty, trimArray, encodeAll_eq_trimItems hall]

theorem isIdle_of_not_mem {name : String} (h : name ∉ fieldNames) (value : Json) :
    isIdle name value = false := by
  simp only [fieldNames, List.mem_cons, List.not_mem_nil, or_false, not_or] at h
  obtain ⟨-, hcount, hlabel, hexclusive, hwith⟩ := h
  simp [isIdle, hcount, hlabel, hexclusive, hwith]

theorem filter_isNull (value : Option Json) :
    value.filter (fun j => !j.isNull) = value.bind fun j => if j.isNull then none else some j := by
  cases value with
  | none => rfl
  | some j => cases hnull : j.isNull <;> simp [hnull]

theorem field?_of_reads {fields : Dict String Json} (hreads : Reads fields r)
    (h : ∀ items, fields.find? "with" = some (.array items) →
      List.Forall₂ (fun j r => r.encode = trim j) items r.children) (name : String) :
    r.field? name = (fields.find? name).bind fun value =>
      if isIdle name value then none
      else some (if name = "with" then trimArray value else value) := by
  by_cases hname : name ∈ fieldNames
  · simp only [fieldNames, List.mem_cons, List.not_mem_nil, or_false] at hname
    rcases hname with rfl | rfl | rfl | rfl | rfl
    · simp [field?, hreads.kind, isIdle]
    · simp [field?, ← hreads.count, isIdle, filter_isNull]
    · simp [field?, ← hreads.label, isIdle, filter_isNull]
    · simp [field?, ← hreads.exclusive, isIdle, filter_isNull]
    · simp [field?, inside_of_reads hreads h]
  · have hwith : name ≠ "with" := fun heq => hname (by simp [heq, fieldNames])
    rw [field?_of_not_mem hname, hreads.extra,
      Dict.find?_filter fun name => !fieldNames.contains name]
    simp [hname, hwith, isIdle_of_not_mem hname]

/-- A tree that was read is written with all its fields and values, apart from those that stand for
nothing. -/
theorem encode_of_decode? {j : Json} (hj : j.Ordered) (h : decode? j = some r) :
    r.encode = trim j := by
  refine read_induction (motive := fun j r => r.encode = trim j)
    (fun {fields r} hfields hreads ih => ?_) hj h
  rw [encode_eq, Json.ofFields, trim]
  refine congrArg Json.object
    (Dict.Sorted.ext (Dict.sorted_ofEntries _) (sorted_trimFields hfields) fun name => ?_)
  rw [find?_encoded (hreads.sorted hfields) hreads.foreign, find?_trimFields hfields,
    field?_of_reads hreads ih]
  simp only [trimField?_eq]

end Warren.JobResource
