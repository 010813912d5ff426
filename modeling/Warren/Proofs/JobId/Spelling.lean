import Warren.Controller.Answer
import Warren.Proofs.Message.Fields
import Warren.Proofs.Text.Blank
import Warren.Proofs.Text.Positional

/-!
# Spellings of identifiers

Many texts stand for one identifier: `parse?_eq_some_iff` says which ones. So the texts that an
identifier is written as are read back, a numeral of base 58 is read exactly if a word holds its
number, and a workflow object says which job it was created for: `spelling`.
-/

namespace Warren

namespace Text

variable {cs : List Char} {bound n : Nat}

theorem Numeral.bare {alphabet : List Char} (ha : ∀ c ∈ alphabet, isBlank c = false)
    (h : Numeral alphabet cs n) : Bare cs :=
  .of_forall fun c hc => ha c (h.letters c hc)

theorem Numeral.ne_cons {alphabet : List Char} {c : Char} (hc : c ∉ alphabet)
    (h : Numeral alphabet cs n) (rest : List Char) : cs ≠ c :: rest :=
  fun heq => hc (h.letters c (heq ▸ List.mem_cons_self ..))

theorem readBelow?_eq_some_iff : readBelow? bound cs = some n ↔
    n < bound ∧ (Numeral decimalDigits cs n ∨
      ∃ ds, cs = '+' :: ds ∧ Numeral decimalDigits ds n) := by
  have hplus : '+' ∉ decimalDigits := by decide
  unfold readBelow?
  dsimp only
  rw [Option.filter_eq_some_iff, decide_eq_true_eq, and_comm]
  refine and_congr_right fun _ => ?_
  split
  · rename_i ds
    rw [read?_eq_some_iff]
    constructor
    · intro h
      exact .inr ⟨ds, rfl, h⟩
    · rintro (h | ⟨ds', heq, h⟩)
      · exact absurd rfl (h.ne_cons hplus ds)
      · obtain rfl := List.tail_eq_of_cons_eq heq
        exact h
  · rename_i hne
    rw [read?_eq_some_iff]
    constructor
    · exact .inl
    · rintro (h | ⟨ds, heq, -⟩)
      · exact h
      · exact absurd heq (hne ds)

end Text

namespace JobId

open Text (Numeral Surrounds Bare decimalDigits)

/-- The texts that stand for a number: its decimal numerals, with a plus sign in front if one likes,
and those of base 58 behind their letter. -/
inductive Spells : List Char → Nat → Prop
  | decimal {ds : List Char} {n : Nat} (h : Numeral decimalDigits ds n) : Spells ds n
  | signed {ds : List Char} {n : Nat} (h : Numeral decimalDigits ds n) : Spells ('+' :: ds) n
  | base58 {c : Char} {ds : List Char} {n : Nat} (hc : c = 'f' ∨ c = 'ƒ')
    (h : Numeral base58 ds n) : Spells (c :: ds) n

/-- The texts that an identifier is written as: in decimal, and in base 58 behind either letter. -/
def written (id : JobId) : List (List Char) :=
  [(toString id.value).toList, id.f58.toList, 'ƒ' :: id.f58.toList.tail]

variable {cs : List Char} {id : JobId}

/-! ### Reading -/

theorem not_isBlank_of_mem_base58 : ∀ c ∈ base58, Text.isBlank c = false := by
  have each : base58.all (fun c => !Text.isBlank c) = true := by decide
  exact fun c hc => Bool.not_eq_true' _ ▸ List.all_eq_true.mp each c hc

theorem Spells.bare {n : Nat} (h : Spells cs n) : Bare cs := by
  have cons {c : Char} {ds : List Char} (hc : Text.isBlank c = false)
      (hds : ∀ d ∈ ds, Text.isBlank d = false) : Bare (c :: ds) :=
    .of_forall (List.forall_mem_cons.mpr ⟨hc, hds⟩)
  cases h with
  | decimal h => exact h.bare Text.not_isBlank_of_mem_decimalDigits
  | signed h =>
    exact cons (by decide) fun d hd => Text.not_isBlank_of_mem_decimalDigits d (h.letters d hd)
  | base58 hc h =>
    refine cons ?_ fun d hd => not_isBlank_of_mem_base58 d (h.letters d hd)
    rcases hc with rfl | rfl <;> decide

theorem bind_ofNat?_eq_some_iff {o : Option Nat} : o.bind ofNat? = some id ↔ o = some id.value := by
  simp only [Option.bind_eq_some_iff, ofNat?_eq_some]
  constructor
  · rintro ⟨n, hn, rfl⟩
    exact hn
  · intro h
    exact ⟨id.value, h, rfl⟩

theorem ofChars?_eq_some_iff : ofChars? cs = some id ↔ Spells cs id.value := by
  have hletters : 'f' ∉ decimalDigits ∧ 'ƒ' ∉ decimalDigits := by decide
  -- behind the letter of base 58 the text is no decimal numeral
  have behind {c : Char} {ds : List Char} (hc : c = 'f' ∨ c = 'ƒ') :
      Numeral base58 ds id.value ↔ Spells (c :: ds) id.value := by
    refine ⟨.base58 hc, fun h => ?_⟩
    generalize hcs : c :: ds = cs at h
    cases h with
    | decimal h =>
      rcases hc with rfl | rfl
      · exact absurd hcs.symm (h.ne_cons hletters.1 ds)
      · exact absurd hcs.symm (h.ne_cons hletters.2 ds)
    | signed h =>
      obtain ⟨rfl, -⟩ := List.cons.inj hcs
      exact absurd hc (by decide)
    | base58 _ h =>
      obtain ⟨-, rfl⟩ := List.cons.inj hcs
      exact h
  unfold ofChars?
  split
  · rw [bind_ofNat?_eq_some_iff, Text.read?_eq_some_iff, behind (.inl rfl)]
  · rw [bind_ofNat?_eq_some_iff, Text.read?_eq_some_iff, behind (.inr rfl)]
  · rename_i hf hother
    rw [bind_ofNat?_eq_some_iff, Text.readBelow?_eq_some_iff]
    constructor
    · rintro ⟨-, h | ⟨ds, rfl, h⟩⟩
      · exact .decimal h
      · exact .signed h
    · intro h
      refine ⟨id.bounded, ?_⟩
      cases h with
      | decimal h => exact .inl h
      | signed h => exact .inr ⟨_, rfl, h⟩
      | base58 hc _ =>
        rcases hc with rfl | rfl
        · exact absurd rfl (hf _)
        · exact absurd rfl (hother _)

/-- A text is read as an identifier exactly if it spells its number, white space around it aside. -/
theorem parse?_eq_some_iff {s : String} :
    parse? s = some id ↔ ∃ core, Surrounds s.toList core ∧ Spells core id.value := by
  rw [parse?, ofChars?_eq_some_iff]
  constructor
  · intro h
    exact ⟨_, Text.surrounds_trimChars s.toList, h⟩
  · rintro ⟨core, hsurrounds, h⟩
    rwa [Text.trimChars_of_surrounds hsurrounds h.bare]

/-! ### Writing -/

theorem toList_f58 (id : JobId) : id.f58.toList = 'f' :: Text.write base58 id.value := by
  rw [f58, String.toList_ofList]

theorem numeral_toString (n : Nat) : Numeral decimalDigits (toString n).toList n :=
  Text.read?_eq_some_iff.mp (Text.read?_toString n)

theorem numeral_base58 (n : Nat) : Numeral base58 (Text.write base58 n) n :=
  Text.numeral_write (by decide) (by decide) n

theorem spells_of_mem_written (h : cs ∈ id.written) : Spells cs id.value := by
  rw [written, toList_f58, List.tail_cons] at h
  simp only [List.mem_cons, List.not_mem_nil, or_false] at h
  rcases h with rfl | rfl | rfl
  · exact .decimal (numeral_toString id.value)
  · exact .base58 (.inl rfl) (numeral_base58 id.value)
  · exact .base58 (.inr rfl) (numeral_base58 id.value)

theorem parse?_of_mem_written {s : String} {core : List Char} (h : core ∈ id.written)
    (hs : Surrounds s.toList core) : parse? s = some id :=
  parse?_eq_some_iff.mpr ⟨core, hs, spells_of_mem_written h⟩

/-! ### Numerals of base 58 -/

section

variable {s : String} {ds : List Char} (hs : Surrounds s.toList ('f' :: ds))
  (hlast : ∀ c ∈ ds.getLast?, Text.isBlank c = false)

include hs hlast

theorem parse?_cons_f_iff : parse? s = some id ↔ Numeral base58 ds id.value := by
  have hbare : Bare ('f' :: ds) := by
    have hf : ∀ c ∈ some 'f', Text.isBlank c = false := by
      intro c hc
      obtain rfl := Option.some.inj hc
      decide
    refine ⟨hf, ?_⟩
    cases ds with
    | nil => exact hf
    | cons d ds => rwa [List.getLast?_cons_cons]
  rw [parse?, Text.trimChars_of_surrounds hs hbare]
  exact bind_ofNat?_eq_some_iff.trans Text.read?_eq_some_iff

theorem isSome_parse?_cons_f_iff : (parse? s).isSome ↔
    ds ≠ [] ∧ (∀ c ∈ ds, c ∈ base58) ∧ Text.valueOf base58 ds < UInt64.size := by
  rw [Option.isSome_iff_exists]
  simp only [parse?_cons_f_iff hs hlast]
  constructor
  · rintro ⟨id, hne, hletters, hvalue⟩
    exact ⟨hne, hletters, hvalue ▸ id.bounded⟩
  · rintro ⟨hne, hletters, hlt⟩
    exact ⟨⟨_, hlt⟩, hne, hletters, rfl⟩

theorem f58_of_parse?_cons_f (h : parse? s = some id) :
    id.value = Text.valueOf base58 ds ∧ id.f58 = String.ofList ('f' :: Text.shortest '1' ds) := by
  have hnumeral := (parse?_cons_f_iff hs hlast).mp h
  have hone : Text.letter base58 0 = '1' := by decide
  refine ⟨hnumeral.value.symm, ?_⟩
  rw [f58, hnumeral.write_eq (by decide), hone]

end

end JobId

/-! ### Workflow objects -/

open Controller (newWorkflow)

theorem Metadata.decode?_new (name : String) (finalizers : List String) :
    decode? (.ofFields [("name", .string name), ("namespace", .string Api.defaultSpace),
      ("finalizers", .strings finalizers)]) = some ⟨name, finalizers⟩ := by
  have texts : isListOf isText (.array (finalizers.map .string)) = true := by
    simp [isListOf, isText, Json.items?, Json.string?]
  have strings := Json.list?_strings finalizers
  rw [Json.strings] at strings ⊢
  simp [decode?, isLenient, standard, Json.ofFields, Json.field?, Json.fields, Json.fields?,
    Dict.find?_cons, isText, Json.string?, texts, strings]

/-- The object that is created for a job is a workflow of this job. -/
theorem Workflow.decode?_newWorkflow (site : Site) (id : JobId) (user : UInt32)
    (directives : List String) :
    decode? (newWorkflow site id user directives) =
      some ⟨⟨id.workflowName, [Cleanup.finalizer]⟩, .proposal, directives, id, user,
        site.groupOf user, "flux", none⟩ := by
  have job : JobId.decode? (.string id.f58) = some id :=
    JobId.parse?_of_mem_written (by simp [JobId.written]) (.refl _)
  have metadata := Metadata.decode?_new id.workflowName [Cleanup.finalizer]
  have stage : Stage.decode? Stage.proposal.encode = some .proposal := rfl
  simp only [Json.ofFields] at metadata
  simp [decode?, newWorkflow, Json.ofFields, Json.record?, Dict.defaulted, Dict.required,
    Dict.optional, Dict.find?_cons, metadata, stage, job, Json.string?]

namespace JobId

open Text (Surrounds)

/-- An identifier is read back from all that it is written as, in a text and in JSON. Behind an `f`
stands a number exactly if it is a numeral of base 58 whose number a word holds; white space at the
end of a text is not part of the numeral. So the workflow of a job tells which job it is, and no
other job has a workflow of its name. -/
theorem spelling :
    (∀ id : JobId, decode? (.nat id.value) = some id ∧
      ∀ core ∈ id.written, ∀ s : String, Surrounds s.toList core →
        parse? s = some id ∧ decode? (.string s) = some id) ∧
    (∀ (s : String) (ds : List Char), Surrounds s.toList ('f' :: ds) →
      (∀ c ∈ ds.getLast?, Text.isBlank c = false) →
      ((parse? s).isSome ↔
        ds ≠ [] ∧ (∀ c ∈ ds, c ∈ base58) ∧ Text.valueOf base58 ds < UInt64.size) ∧
      ∀ id, parse? s = some id →
        id.value = Text.valueOf base58 ds ∧
          id.f58 = String.ofList ('f' :: Text.shortest '1' ds)) ∧
    (∀ (site : Site) (id : JobId) (user : UInt32) (directives : List String),
      ∃ w, Workflow.decode? (newWorkflow site id user directives) = some w ∧ w.jobId = id ∧
        w.name = id.workflowName) ∧
    (∀ a b : JobId, a ≠ b → a.workflowName ≠ b.workflowName) := by
  refine ⟨fun id => ⟨Json.decode?_job id, fun core hcore s hs => ?_⟩, fun s ds hs hlast => ?_,
    fun site id user directives => ?_, fun a b hne heq => hne (workflowName_inj heq)⟩
  · exact ⟨parse?_of_mem_written hcore hs, parse?_of_mem_written hcore hs⟩
  · exact ⟨isSome_parse?_cons_f_iff hs hlast, fun id h => f58_of_parse?_cons_f hs hlast h⟩
  · exact ⟨_, Workflow.decode?_newWorkflow site id user directives, rfl, rfl⟩

/-- Fifty-eight with a one too many in front and white space around it. -/
theorem spelling_one_too_many :
    let s := " f121\n"
    let ds := ['1', '2', '1']
    Surrounds s.toList ('f' :: ds) ∧ (∀ c ∈ ds.getLast?, Text.isBlank c = false) ∧
      (parse? s).isSome := by
  intro s ds
  have surrounds : Surrounds s.toList ('f' :: ds) :=
    ⟨[' '], ['\n'], List.forall_mem_singleton.mpr (by decide),
      List.forall_mem_singleton.mpr (by decide), by decide⟩
  have last : ∀ c ∈ ds.getLast?, Text.isBlank c = false := by
    intro c hc
    obtain rfl := Option.some.inj hc
    decide
  have read := (spelling.2.1 s ds surrounds last).1
  have letters : ds.all (fun c => c ∈ base58) = true := by decide
  exact ⟨surrounds, last, read.mpr ⟨by decide, by simpa using letters, by decide⟩⟩

end JobId

end Warren
