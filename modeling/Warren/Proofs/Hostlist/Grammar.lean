import Warren.Hostlist
import Warren.Proofs.Fallible
import Warren.Proofs.Text.Blank
import Warren.Proofs.Text.Positional

/-!
# What host lists say

A host list is entries between commas, and an entry is a name or ranges in brackets between two
parts of a name. `read?_eq_some_iff` says that a text is read exactly if it is such a list.
`expand?_exact` says that its hosts are those of the entries in order, unless the numbers of a range
are to be written wider than the formatter takes: that is a crash.
-/

namespace Warren

namespace Text

variable {p : Char → Bool} {cs rest : List Char}

theorem span_append (h : ∀ c ∈ cs, p c = true) (hrest : ∀ c ∈ rest.head?, p c = false) :
    (cs ++ rest).span p = (cs, rest) := by
  rw [List.span_eq_takeWhile_dropWhile, List.takeWhile_append_of_pos h,
    List.dropWhile_append_of_pos h]
  cases rest with
  | nil => simp
  | cons c rest =>
    have hc : ¬p c = true := by simp [hrest c rfl]
    rw [List.takeWhile_cons_of_neg hc, List.dropWhile_cons_of_neg hc, List.append_nil]

theorem span_eq {front : List Char} (h : cs.span p = (front, rest)) :
    cs = front ++ rest ∧ ∀ c ∈ front, p c = true := by
  rw [List.span_eq_takeWhile_dropWhile, Prod.mk.injEq] at h
  obtain ⟨rfl, rfl⟩ := h
  exact ⟨List.takeWhile_append_dropWhile.symm, fun _ => List.mem_takeWhile_imp⟩

theorem filled_eq (width n : Nat) : filled width n = (toString n).toList.leftpad width '0' := by
  rw [filled, decimal_eq_toList, List.leftpad]

end Text

namespace Hostlist

open Text (Numeral Surrounds Bare decimalDigits isDigit)

/-! ### The form of a list -/

/-- Letters, digits, hyphens, underscores and points. -/
def IsPart (cs : List Char) : Prop := ∀ c ∈ cs, c.isAlphanum = true ∨ c ∈ ['-', '_', '.']

def IsName (cs : List Char) : Prop := cs ≠ [] ∧ IsPart cs

/-- A number with zeros in front up to a width. -/
def numbered (width n : Nat) : List Char := (toString n).toList.leftpad width '0'

/-- Items with commas between them; there is at least one. -/
inductive Commas {β : Type} (Item : List Char → β → Prop) : List Char → List β → Prop
  | one {cs : List Char} {b : β} (item : Item cs b) : Commas Item cs [b]
  | more {cs rest : List Char} {b : β} {bs : List β} (item : Item cs b)
    (others : Commas Item rest bs) : Commas Item (cs ++ ',' :: rest) (b :: bs)

/-- A number, or the numbers from one to another that is not below it, each of which a word holds.
They are as wide as the first one is written, and that is a width of some kind. -/
inductive RangeText (fits : Nat → Prop) : List Char → List (List Char) → Prop
  | single {ds : List Char} {n : Nat} (number : Numeral decimalDigits ds n)
    (word : n < UInt64.size) (width : fits ds.length) :
    RangeText fits ds [numbered ds.length n]
  | interval {ds es : List Char} {m n : Nat} (first : Numeral decimalDigits ds m)
    (last : Numeral decimalDigits es n) (le : m ≤ n) (word : n < UInt64.size)
    (width : fits ds.length) :
    RangeText fits (ds ++ '-' :: es) ((List.range' m (n + 1 - m)).map (numbered ds.length))

/-- A name, or ranges in brackets with a part of a name on either side, which may be empty. -/
inductive EntryText (fits : Nat → Prop) : List Char → List (List Char) → Prop
  | name {cs : List Char} (name : IsName cs) : EntryText fits cs [cs]
  | ranged {before inner after : List Char} {numerals : List (List (List Char))}
    (front : IsPart before) (ranges : Commas (RangeText fits) inner numerals)
    (back : IsPart after) :
    EntryText fits (before ++ '[' :: (inner ++ ']' :: after))
      (numerals.flatten.map fun n => before ++ n ++ after)

/-- The hosts of a list without white space around it, all ranges of which have a width of some
kind. -/
def Lists (fits : Nat → Prop) (cs : List Char) (hosts : List (List Char)) : Prop :=
  ∃ groups, Commas (EntryText fits) cs groups ∧ hosts = groups.flatten

/-- The hosts of a list, or of nothing, with white space around it at most. -/
def Names (fits : Nat → Prop) (s : String) (hosts : List String) : Prop :=
  ∃ core, Surrounds s.toList core ∧
    ((core = [] ∧ hosts = []) ∨ Lists fits core (hosts.map String.toList))

section

variable {α β γ : Type} {Item : List Char → β → Prop} {Other : List Char → γ → Prop}
  {cs ds : List Char} {bs : List β}

theorem Commas.append {bs' : List β} (h : Commas Item cs bs) (h' : Commas Item ds bs') :
    Commas Item (cs ++ ',' :: ds) (bs ++ bs') := by
  induction h with
  | one item => exact .more item h'
  | more item _ ih =>
    rw [List.append_assoc, List.cons_append]
    exact .more item ih

theorem Commas.lift {f : α → β} {g : α → γ} {p : α → Prop}
    (hitem : ∀ cs b, Item cs b → ∃ a, Other cs (g a) ∧ f a = b ∧ p a) (h : Commas Item cs bs) :
    ∃ as : List α, Commas Other cs (as.map g) ∧ as.map f = bs ∧ ∀ a ∈ as, p a := by
  induction h with
  | one item =>
    obtain ⟨a, ha, rfl, hp⟩ := hitem _ _ item
    exact ⟨[a], .one ha, rfl, by simpa using hp⟩
  | more item _ ih =>
    obtain ⟨a, ha, rfl, hp⟩ := hitem _ _ item
    obtain ⟨as, has, rfl, hps⟩ := ih
    exact ⟨a :: as, .more ha has, rfl, List.forall_mem_cons.mpr ⟨hp, hps⟩⟩

theorem Commas.forall_mem {p : Char → Prop} (hcomma : p ',')
    (hitem : ∀ cs b, Item cs b → ∀ c ∈ cs, p c) (h : Commas Item cs bs) : ∀ c ∈ cs, p c := by
  induction h with
  | one item => exact hitem _ _ item
  | more item _ ih =>
    exact List.forall_mem_append.mpr ⟨hitem _ _ item, List.forall_mem_cons.mpr ⟨hcomma, ih⟩⟩

theorem Commas.length_le_succ (h : Commas Item cs bs) : bs.length ≤ cs.length + 1 := by
  induction h with
  | one => simp
  | more _ _ ih =>
    simp only [List.length_cons, List.length_append]
    omega

theorem Commas.length_le (hitem : ∀ cs b, Item cs b → cs ≠ []) (h : Commas Item cs bs) :
    bs.length ≤ cs.length := by
  induction h with
  | one item => exact List.length_pos_of_ne_nil (hitem _ _ item)
  | more item _ ih =>
    simp only [List.length_cons, List.length_append]
    omega

theorem Commas.ne_nil (hitem : ∀ cs b, Item cs b → cs ≠ []) (h : Commas Item cs bs) : cs ≠ [] := by
  cases h with
  | one item => exact hitem _ _ item
  | more => simp

end

theorem isAlphanum_iff (c : Char) : c.isAlphanum = true ↔
    (65 ≤ c.val ∧ c.val ≤ 90) ∨ (97 ≤ c.val ∧ c.val ≤ 122) ∨ (48 ≤ c.val ∧ c.val ≤ 57) := by
  have h : c.isAlphanum = ((decide (65 ≤ c.val ∧ c.val ≤ 90) ||
      (decide (97 ≤ c.val) && decide (c.val ≤ 122))) ||
      (decide (48 ≤ c.val) && decide (c.val ≤ 57))) := rfl
  rw [h]
  simp only [Bool.or_eq_true, Bool.and_eq_true, decide_eq_true_eq, or_assoc]

theorem isHostChar_iff (c : Char) :
    isHostChar c = true ↔ c.isAlphanum = true ∨ c ∈ ['-', '_', '.'] := by
  have h : isHostChar c = true ↔ (48 ≤ c.val ∧ c.val ≤ 57) ∨ (97 ≤ c.val ∧ c.val ≤ 122) ∨
      (65 ≤ c.val ∧ c.val ≤ 90) ∨ c = '-' ∨ c = '_' ∨ c = '.' := by
    simp only [isHostChar, Text.isDigit, Char.le_def, Bool.or_eq_true, Bool.and_eq_true,
      decide_eq_true_eq, or_assoc]
    rfl
  rw [h, isAlphanum_iff]
  simp only [List.mem_cons, List.not_mem_nil, or_false]
  grind

theorem isPart_iff {cs : List Char} : IsPart cs ↔ ∀ c ∈ cs, isHostChar c = true := by
  simp only [IsPart, isHostChar_iff]

theorem filled_eq_numbered (width : Nat) : Text.filled width = numbered width :=
  funext fun n => Text.filled_eq width n

/-! ### What is written is read -/

/-- A text is read as a range, or as none, whatever follows it in a bracket. -/
def ReadsRange (cs : List Char) (range : Option Range) : Prop :=
  ∀ rest, (∀ c ∈ rest.head?, c = ',' ∨ c = ']') →
    readRange? (cs ++ rest) = range.map fun r => (r, rest)

/-- A text is read as an entry, or as none, whatever follows it in a list. -/
def ReadsEntry (cs : List Char) (entry : Option Entry) : Prop :=
  ∀ rest, (∀ c ∈ rest.head?, c = ',') → readEntry? (cs ++ rest) = entry.map fun e => (e, rest)

variable {ds es inner : List Char} {m n : Nat}

theorem readBound?_eq_some_iff :
    readBound? ds = some n ↔ Numeral decimalDigits ds n ∧ n < UInt64.size := by
  rw [readBound?, Option.filter_eq_some_iff, Text.read?_eq_some_iff, decide_eq_true_eq]

theorem isDigit_of_numeral (h : Numeral decimalDigits ds n) : ∀ c ∈ ds, isDigit c = true :=
  fun c hc => (Text.isDigit_iff c).mpr (h.letters c hc)

theorem readsRange_single (number : Numeral decimalDigits ds n) (word : n < UInt64.size) :
    ReadsRange ds (some ⟨n, n, ds.length, Nat.le_refl n⟩) := by
  intro rest hrest
  have hdigit : ∀ c ∈ rest.head?, isDigit c = false := by
    intro c hc
    rcases hrest c hc with rfl | rfl <;> decide
  have hbound := readBound?_eq_some_iff.mpr ⟨number, word⟩
  rw [readRange?, Text.span_append (isDigit_of_numeral number) hdigit]
  cases rest with
  | nil => simp [hbound]
  | cons c rest => rcases hrest c rfl with rfl | rfl <;> simp [hbound]

theorem readsRange_interval (first : Numeral decimalDigits ds m) (last : Numeral decimalDigits es n)
    (hm : m < UInt64.size) (hn : n < UInt64.size) :
    ReadsRange (ds ++ '-' :: es) (if le : m ≤ n then some ⟨m, n, ds.length, le⟩ else none) := by
  intro rest hrest
  have hdigit : ∀ c ∈ rest.head?, isDigit c = false := by
    intro c hc
    rcases hrest c hc with rfl | rfl <;> decide
  have hhyphen : ∀ c ∈ ('-' :: (es ++ rest)).head?, isDigit c = false := by
    intro c hc
    obtain rfl := Option.some.inj hc
    decide
  have hfirst := readBound?_eq_some_iff.mpr ⟨first, hm⟩
  have hlast := readBound?_eq_some_iff.mpr ⟨last, hn⟩
  obtain ⟨e, es, rfl⟩ := List.exists_cons_of_ne_nil last.nonempty
  rw [List.append_assoc, List.cons_append, readRange?,
    Text.span_append (isDigit_of_numeral first) hhyphen]
  simp only [hfirst, Text.span_append (isDigit_of_numeral last) hdigit, hlast, Option.map_some,
    Option.bind_eq_bind, Option.bind_some]
  split <;> rfl

theorem readRanges?_of_commas {ranges : List (Option Range)} (h : Commas ReadsRange inner ranges)
    (rest : List Char) (fuel : Nat) (hfuel : ranges.length ≤ fuel) :
    readRanges? fuel (inner ++ ']' :: rest) = (ranges.mapM id).map fun rs => (rs, rest) := by
  induction h generalizing fuel with
  | @one cs range item =>
    obtain ⟨fuel, rfl⟩ : ∃ k, fuel = k + 1 := ⟨fuel - 1, by simp at hfuel; omega⟩
    rw [readRanges?, item _ (by simp)]
    cases range <;> simp
  | @more cs others range ranges item _ ih =>
    obtain ⟨fuel, rfl⟩ : ∃ k, fuel = k + 1 := ⟨fuel - 1, by simp at hfuel; omega⟩
    rw [List.append_assoc, List.cons_append, readRanges?, item _ (by simp)]
    cases range with
    | none => simp
    | some range =>
      simp only [Option.map_some, Option.bind_eq_bind, Option.bind_some, List.mapM_cons, id_eq,
        ih fuel (by simpa using hfuel)]
      cases ranges.mapM id <;> rfl

theorem readsEntry_plain {cs : List Char} (h : IsName cs) : ReadsEntry cs (some (.plain cs)) := by
  intro rest hrest
  have hend : ∀ c ∈ rest.head?, isHostChar c = false := by
    intro c hc
    obtain rfl := hrest c hc
    decide
  unfold readEntry?
  rw [Text.span_append (isPart_iff.mp h.2) hend]
  cases rest with
  | nil => simp [h.1]
  | cons c rest =>
    obtain rfl := hrest c rfl
    simp [h.1]

theorem readsEntry_ranged {before after : List Char} {ranges : List (Option Range)}
    (front : IsPart before) (h : Commas ReadsRange inner ranges) (back : IsPart after) :
    ReadsEntry (before ++ '[' :: (inner ++ ']' :: after))
      ((ranges.mapM id).map fun rs => .ranged before rs after) := by
  intro rest hrest
  have hend : ∀ c ∈ rest.head?, isHostChar c = false := by
    intro c hc
    obtain rfl := hrest c hc
    decide
  have hbracket (more : List Char) : ∀ c ∈ ('[' :: more).head?, isHostChar c = false := by
    intro c hc
    obtain rfl := Option.some.inj hc
    decide
  have hfuel : ranges.length ≤ (inner ++ ']' :: (after ++ rest)).length := by
    have hcommas := h.length_le_succ
    simp only [List.length_append, List.length_cons]
    omega
  have hread := readRanges?_of_commas h (after ++ rest) _ hfuel
  simp only [List.append_assoc, List.cons_append]
  unfold readEntry?
  rw [Text.span_append (isPart_iff.mp front) (hbracket _)]
  simp only [hread]
  cases ranges.mapM id with
  | none => rfl
  | some rs =>
    simp only [Option.map_some, Option.bind_eq_bind, Option.bind_some,
      Text.span_append (isPart_iff.mp back) hend]

theorem readEntries?_of_commas {cs : List Char} {entries : List (Option Entry)}
    (h : Commas ReadsEntry cs entries) (fuel : Nat) (hfuel : entries.length ≤ fuel) :
    readEntries? fuel cs = entries.mapM id := by
  induction h generalizing fuel with
  | @one cs entry item =>
    obtain ⟨fuel, rfl⟩ : ∃ k, fuel = k + 1 := ⟨fuel - 1, by simp at hfuel; omega⟩
    have hread := item [] (by simp)
    rw [List.append_nil] at hread
    rw [readEntries?, hread]
    cases entry <;> simp
  | @more cs others entry entries item _ ih =>
    obtain ⟨fuel, rfl⟩ : ∃ k, fuel = k + 1 := ⟨fuel - 1, by simp at hfuel; omega⟩
    rw [readEntries?, item _ (by simp)]
    cases entry with
    | none => simp
    | some entry =>
      simp only [Option.map_some, Option.bind_eq_bind, Option.bind_some, List.mapM_cons, id_eq,
        ih fuel (by simpa using hfuel)]
      cases entries.mapM id <;> rfl

/-! ### What is read is written -/

/-- The numerals of a range, whatever their width. -/
def Range.said (range : Range) : List (List Char) :=
  (List.range' range.first (range.last + 1 - range.first)).map (numbered range.width)

/-- The hosts of an entry, whatever their width. -/
def Entry.said : Entry → List (List Char)
  | .plain host => [host]
  | .ranged before ranges after =>
    (ranges.map Range.said).flatten.map fun n => before ++ n ++ after

def Entry.ranges : Entry → List Range
  | .plain _ => []
  | .ranged _ ranges _ => ranges

variable {fits : Nat → Prop}

/-- All ranges of an entry have a width of some kind. -/
def Entry.Fits (fits : Nat → Prop) (entry : Entry) : Prop :=
  ∀ range ∈ entry.ranges, fits range.width

theorem said_single (n width : Nat) :
    Range.said ⟨n, n, width, Nat.le_refl n⟩ = [numbered width n] := by
  rw [Range.said, Nat.add_sub_cancel_left]
  rfl

theorem rangeText_of_readRange? {cs rest : List Char} {range : Range}
    (h : readRange? cs = some (range, rest)) (hfits : fits range.width) :
    ∃ text, cs = text ++ rest ∧ RangeText fits text range.said := by
  unfold readRange? at h
  generalize hspan : cs.span isDigit = front at h
  obtain ⟨ds, behind⟩ := front
  obtain ⟨hcs, -⟩ := Text.span_eq hspan
  obtain ⟨first, hfirst, h⟩ := Option.bind_eq_some_iff.mp h
  obtain ⟨number, hword⟩ := readBound?_eq_some_iff.mp hfirst
  have single (h : some ((⟨first, first, ds.length, Nat.le_refl first⟩ : Range), behind) =
      some (range, rest)) : ∃ text, cs = text ++ rest ∧ RangeText fits text range.said := by
    obtain ⟨rfl, rfl⟩ := Prod.mk.inj (Option.some.inj h)
    rw [said_single]
    exact ⟨ds, hcs, .single number hword hfits⟩
  dsimp only at h
  split at h
  · rename_i after
    split at h
    · exact single (by simpa using h)
    · rename_i es behind' _ hes
      obtain ⟨hafter, -⟩ := Text.span_eq hes
      obtain ⟨⟨last, rest'⟩, hlast, h⟩ := Option.bind_eq_some_iff.mp h
      obtain ⟨last', hbound, heq⟩ := Option.map_eq_some_iff.mp hlast
      obtain ⟨rfl, rfl⟩ := Prod.mk.inj heq
      obtain ⟨numeral, hlastWord⟩ := readBound?_eq_some_iff.mp hbound
      dsimp only at h
      split at h
      · rename_i hle
        obtain ⟨rfl, rfl⟩ := Prod.mk.inj (Option.some.inj h)
        exact ⟨ds ++ '-' :: es, by simp [hcs, hafter],
          .interval number numeral hle hlastWord hfits⟩
      · cases h
  · exact single (by simpa using h)

theorem commas_of_readRanges? {fuel : Nat} {cs rest : List Char} {ranges : List Range}
    (h : readRanges? fuel cs = some (ranges, rest)) (hfits : ∀ range ∈ ranges, fits range.width) :
    ∃ inner, cs = inner ++ ']' :: rest ∧
      Commas (RangeText fits) inner (ranges.map Range.said) := by
  induction fuel generalizing cs ranges with
  | zero => cases h
  | succ fuel ih =>
    rw [readRanges?] at h
    obtain ⟨⟨range, behind⟩, hrange, h⟩ := Option.bind_eq_some_iff.mp h
    dsimp only at h
    split at h
    · obtain ⟨⟨others, rest'⟩, hothers, h⟩ := Option.bind_eq_some_iff.mp h
      obtain ⟨rfl, rfl⟩ := Prod.mk.inj (Option.some.inj h)
      obtain ⟨hfirst, hrest⟩ := List.forall_mem_cons.mp hfits
      obtain ⟨text, hcs, hform⟩ := rangeText_of_readRange? hrange hfirst
      obtain ⟨inner, hbehind, hcommas⟩ := ih hothers hrest
      exact ⟨text ++ ',' :: inner, by simp [hcs, hbehind], .more hform hcommas⟩
    · obtain ⟨rfl, rfl⟩ := Prod.mk.inj (Option.some.inj h)
      obtain ⟨text, hcs, hform⟩ := rangeText_of_readRange? hrange (hfits _ (by simp))
      exact ⟨text, hcs, .one hform⟩
    · cases h

theorem entryText_of_readEntry? {cs rest : List Char} {entry : Entry}
    (h : readEntry? cs = some (entry, rest)) (hfits : entry.Fits fits) :
    ∃ text, cs = text ++ rest ∧ EntryText fits text entry.said := by
  unfold readEntry? at h
  generalize hspan : cs.span isHostChar = front at h
  obtain ⟨before, behind⟩ := front
  obtain ⟨hcs, hbefore⟩ := Text.span_eq hspan
  dsimp only at h
  split at h
  · rename_i inner
    obtain ⟨⟨ranges, behind⟩, hranges, h⟩ := Option.bind_eq_some_iff.mp h
    dsimp only at h
    generalize hback : behind.span isHostChar = back at h
    obtain ⟨after, rest'⟩ := back
    obtain ⟨hbehind, hafter⟩ := Text.span_eq hback
    obtain ⟨rfl, rfl⟩ := Prod.mk.inj (Option.some.inj h)
    obtain ⟨ranged, hinner, hcommas⟩ := commas_of_readRanges? hranges hfits
    exact ⟨before ++ '[' :: (ranged ++ ']' :: after), by simp [hcs, hinner, hbehind],
      .ranged (isPart_iff.mpr hbefore) hcommas (isPart_iff.mpr hafter)⟩
  · split at h
    · cases h
    · rename_i hne
      obtain ⟨rfl, rfl⟩ := Prod.mk.inj (Option.some.inj h)
      exact ⟨before, hcs, .name ⟨hne, isPart_iff.mpr hbefore⟩⟩

theorem commas_of_readEntries? {fuel : Nat} {cs : List Char} {entries : List Entry}
    (h : readEntries? fuel cs = some entries) (hfits : ∀ entry ∈ entries, entry.Fits fits) :
    Commas (EntryText fits) cs (entries.map Entry.said) := by
  induction fuel generalizing cs entries with
  | zero => cases h
  | succ fuel ih =>
    rw [readEntries?] at h
    obtain ⟨⟨entry, behind⟩, hentry, h⟩ := Option.bind_eq_some_iff.mp h
    split at h
    · rename_i heq
      obtain ⟨rfl, rfl⟩ := Prod.mk.inj heq
      obtain rfl := Option.some.inj h
      obtain ⟨text, hcs, hform⟩ := entryText_of_readEntry? hentry (hfits _ (by simp))
      rw [hcs, List.append_nil]
      exact .one hform
    · rename_i heq
      obtain ⟨rfl, rfl⟩ := Prod.mk.inj heq
      obtain ⟨others, hothers, rfl⟩ := Option.map_eq_some_iff.mp h
      obtain ⟨hfirst, hrest⟩ := List.forall_mem_cons.mp hfits
      obtain ⟨text, hcs, hform⟩ := entryText_of_readEntry? hentry hfirst
      rw [hcs]
      exact .more hform (ih hothers hrest)
    · cases h

/-! ### Lists -/

theorem readsRange_of_rangeText {cs : List Char} {numerals : List (List Char)}
    (h : RangeText fits cs numerals) : ∃ range : Range,
    ReadsRange cs (some range) ∧ range.said = numerals ∧ fits range.width := by
  cases h with
  | single number word width =>
    exact ⟨_, readsRange_single number word, said_single .., width⟩
  | interval first last le word width =>
    have hreads := readsRange_interval first last (by omega) word
    rw [dif_pos le] at hreads
    exact ⟨_, hreads, rfl, width⟩

theorem mapM_id_map_some {α : Type} (items : List α) :
    (items.map some).mapM id = some items := by
  induction items with
  | nil => rfl
  | cons a items ih => simp [List.mapM_cons, ih]

theorem readsEntry_of_entryText {cs : List Char} {hosts : List (List Char)}
    (h : EntryText fits cs hosts) : ∃ entry : Entry,
    ReadsEntry cs (some entry) ∧ entry.said = hosts ∧ entry.Fits fits := by
  cases h with
  | name name => exact ⟨_, readsEntry_plain name, rfl, fun _ h => absurd h List.not_mem_nil⟩
  | ranged front hranges back =>
    obtain ⟨ranges, hreads, rfl, hfits⟩ :=
      hranges.lift fun _ _ h => readsRange_of_rangeText h
    have hentry := readsEntry_ranged front hreads back
    rw [mapM_id_map_some] at hentry
    exact ⟨_, hentry, rfl, hfits⟩

theorem EntryText.ne_nil {cs : List Char} {hosts : List (List Char)}
    (h : EntryText fits cs hosts) : cs ≠ [] := by
  cases h with
  | name name => exact name.1
  | ranged => simp

/-- A text is read exactly if it is a list, or nothing. -/
theorem read?_eq_some_iff {cs : List Char} {hosts : List (List Char)} :
    (∃ entries, read? cs = some entries ∧ entries.flatMap Entry.said = hosts ∧
        ∀ entry ∈ entries, entry.Fits fits) ↔
      (cs = [] ∧ hosts = []) ∨ Lists fits cs hosts := by
  constructor
  · rintro ⟨entries, hread, rfl, hfits⟩
    unfold read? at hread
    split at hread
    · rename_i hcs
      obtain rfl := Option.some.inj hread
      exact .inl ⟨hcs, rfl⟩
    · exact .inr ⟨_, commas_of_readEntries? hread hfits, List.flatMap_def ..⟩
  · rintro (⟨rfl, rfl⟩ | ⟨groups, hcommas, rfl⟩)
    · exact ⟨[], rfl, rfl, by simp⟩
    · obtain ⟨entries, hreads, rfl, hfits⟩ :=
        hcommas.lift fun _ _ h => readsEntry_of_entryText h
      have hlength := hcommas.length_le fun _ _ => EntryText.ne_nil
      have hread := readEntries?_of_commas hreads cs.length (by simpa using hlength)
      refine ⟨entries, ?_, List.flatMap_def .., hfits⟩
      rw [read?, if_neg (hcommas.ne_nil fun _ _ => EntryText.ne_nil), hread, mapM_id_map_some]

theorem not_isBlank_of_isHostChar {c : Char} (h : isHostChar c = true) :
    Text.isBlank c = false := by
  rw [isHostChar_iff] at h
  rcases h with h | h
  · have hrange : 48 ≤ c.toNat ∧ c.toNat ≤ 122 := by
      rw [isAlphanum_iff] at h
      change ((65 ≤ c.toNat ∧ c.toNat ≤ 90) ∨ (97 ≤ c.toNat ∧ c.toNat ≤ 122) ∨
        (48 ≤ c.toNat ∧ c.toNat ≤ 57)) at h
      omega
    simp only [Text.isBlank, Bool.or_eq_false_iff, Bool.and_eq_false_iff, decide_eq_false_iff_not,
      beq_eq_false_iff_ne]
    omega
  · simp only [List.mem_cons, List.not_mem_nil, or_false] at h
    rcases h with rfl | rfl | rfl <;> decide

theorem IsPart.not_isBlank {cs : List Char} (h : IsPart cs) : ∀ c ∈ cs, Text.isBlank c = false :=
  fun c hc => not_isBlank_of_isHostChar (isPart_iff.mp h c hc)

theorem Lists.bare {cs : List Char} {hosts : List (List Char)} (h : Lists fits cs hosts) :
    Bare cs := by
  have digits {cs : List Char} {n : Nat} (h : Numeral decimalDigits cs n) :
      ∀ c ∈ cs, Text.isBlank c = false :=
    fun c hc => Text.not_isBlank_of_mem_decimalDigits c (h.letters c hc)
  have range {cs : List Char} {numerals : List (List Char)} (h : RangeText fits cs numerals) :
      ∀ c ∈ cs, Text.isBlank c = false := by
    cases h with
    | single number => exact digits number
    | interval first last =>
      exact List.forall_mem_append.mpr
        ⟨digits first, List.forall_mem_cons.mpr ⟨by decide, digits last⟩⟩
  have entry {cs : List Char} {hosts : List (List Char)} (h : EntryText fits cs hosts) :
      ∀ c ∈ cs, Text.isBlank c = false := by
    cases h with
    | name name => exact name.2.not_isBlank
    | ranged front ranges back =>
      have hranges := ranges.forall_mem (by decide) fun _ _ => range
      simp only [List.forall_mem_append, List.forall_mem_cons]
      exact ⟨front.not_isBlank, by decide, hranges, by decide, back.not_isBlank⟩
  obtain ⟨groups, hcommas, -⟩ := h
  exact .of_forall (hcommas.forall_mem (by decide) fun _ _ => entry)

/-- The texts that name hosts are those that are read, less the white space around them. -/
theorem names_iff {s : String} {hosts : List String} :
    Names fits s hosts ↔ ∃ entries, read? (Text.trimChars s.toList) = some entries ∧
      entries.flatMap Entry.said = hosts.map String.toList ∧
        ∀ entry ∈ entries, entry.Fits fits := by
  rw [read?_eq_some_iff, List.map_eq_nil_iff]
  constructor
  · rintro ⟨core, hsurrounds, hcore⟩
    have hbare : Bare core := by
      rcases hcore with ⟨rfl, -⟩ | hlists
      · exact Text.bare_nil
      · exact hlists.bare
    rwa [Text.trimChars_of_surrounds hsurrounds hbare]
  · intro h
    exact ⟨_, Text.surrounds_trimChars s.toList, h⟩

/-! ### Widths -/

theorem numerals_of_narrow {range : Range} (h : range.width ≤ Text.widest) :
    range.numerals = .ok range.said := by
  have hpadded (n : Nat) : Text.padded range.width n = .ok (numbered range.width n) := by
    rw [Text.padded, if_pos h, filled_eq_numbered]
  exact mapM_of_forall fun n _ => hpadded n

theorem numerals_of_wide {range : Range} (h : ¬range.width ≤ Text.widest) :
    range.numerals = .error .width := by
  have hpadded (n : Nat) : Text.padded range.width n = .error .width := if_neg h
  have hlength : range.last + 1 - range.first = range.last - range.first + 1 :=
    Nat.succ_sub range.le
  rw [Range.numerals, hlength, List.range'_succ, List.mapM_cons, hpadded]
  rfl

theorem hosts_of_fits {entry : Entry} (h : entry.Fits (· ≤ Text.widest)) :
    entry.hosts = .ok entry.said := by
  cases entry with
  | plain => rfl
  | ranged before ranges after =>
    have hnarrow : ranges.mapM Range.numerals = .ok (ranges.map Range.said) :=
      mapM_of_forall fun range hrange => numerals_of_narrow (h range hrange)
    rw [Entry.hosts, hnarrow]
    rfl

theorem hosts_of_not_fits {entry : Entry} (h : ¬entry.Fits (· ≤ Text.widest)) :
    entry.hosts = .error .width := by
  cases entry with
  | plain => exact absurd (fun _ hrange => absurd hrange List.not_mem_nil) h
  | ranged before ranges after =>
    have hwide : ranges.mapM Range.numerals = .error .width := by
      refine mapM_of_exists (fun range _ => ?_) ?_
      · by_cases hnarrow : range.width ≤ Text.widest
        · exact .inl ⟨_, numerals_of_narrow hnarrow⟩
        · exact .inr (numerals_of_wide hnarrow)
      · simp only [Entry.Fits, Entry.ranges, not_forall] at h
        obtain ⟨range, hrange, hwide⟩ := h
        exact ⟨range, hrange, numerals_of_wide hwide⟩
    rw [Entry.hosts, hwide]
    rfl

/-- A text is not read, or it names its hosts, or some of them are too wide. -/
theorem expand?_cases (s : String) :
    (read? (Text.trimChars s.toList) = none ∧ expand? s = .ok none) ∨
      ∃ entries, read? (Text.trimChars s.toList) = some entries ∧
        ((∀ entry ∈ entries, entry.Fits (· ≤ Text.widest)) ∧
            expand? s = .ok (some ((entries.flatMap Entry.said).map String.ofList)) ∨
          (¬∀ entry ∈ entries, entry.Fits (· ≤ Text.widest)) ∧ expand? s = .error .width) := by
  unfold expand?
  cases read? (Text.trimChars s.toList) with
  | none => exact .inl ⟨rfl, rfl⟩
  | some entries =>
    refine .inr ⟨entries, rfl, ?_⟩
    by_cases hfits : ∀ entry ∈ entries, entry.Fits (· ≤ Text.widest)
    · have hhosts : entries.mapM Entry.hosts = .ok (entries.map Entry.said) :=
        mapM_of_forall fun entry hentry => hosts_of_fits (hfits entry hentry)
      refine .inl ⟨hfits, ?_⟩
      dsimp only
      rw [hhosts, List.flatMap_def]
      rfl
    · have hwide : entries.mapM Entry.hosts = .error .width := by
        refine mapM_of_exists (fun entry _ => ?_) ?_
        · by_cases hfits : entry.Fits (· ≤ Text.widest)
          · exact .inl ⟨_, hosts_of_fits hfits⟩
          · exact .inr (hosts_of_not_fits hfits)
        · simp only [not_forall] at hfits
          obtain ⟨entry, hentry, hwide⟩ := hfits
          exact ⟨entry, hentry, hosts_of_not_fits hwide⟩
      refine .inr ⟨hfits, ?_⟩
      dsimp only
      rw [hwide]
      rfl

/-! ### Expansions -/

variable {s : String} {hosts : List String}

theorem expand?_eq_some_iff :
    expand? s = .ok (some hosts) ↔ Names (· ≤ Text.widest) s hosts := by
  rw [names_iff]
  obtain ⟨hread, hnone⟩ | ⟨entries, hread, ⟨hfits, hsome⟩ | ⟨hwide, herror⟩⟩ := expand?_cases s
  · simp [hread, hnone]
  · rw [hsome, Except.ok.injEq, Option.some.injEq]
    constructor
    · rintro rfl
      exact ⟨entries, hread, by simp [Function.comp_def], hfits⟩
    · rintro ⟨others, hothers, hsaid, -⟩
      obtain rfl := Option.some.inj (hread.symm.trans hothers)
      rw [hsaid]
      simp [Function.comp_def]
  · refine iff_of_false (by simp [herror]) ?_
    rintro ⟨others, hothers, -, hfits⟩
    exact hwide (Option.some.inj (hread.symm.trans hothers) ▸ hfits)

/-- Every text that is read names hosts, if widths do not matter. -/
theorem exists_names_iff : (∃ hosts, Names (fun _ => True) s hosts) ↔
    ∃ entries, read? (Text.trimChars s.toList) = some entries := by
  simp only [names_iff]
  constructor
  · rintro ⟨_, entries, hread, -⟩
    exact ⟨entries, hread⟩
  · rintro ⟨entries, hread⟩
    exact ⟨(entries.flatMap Entry.said).map String.ofList, entries, hread,
      by simp [Function.comp_def], fun _ _ _ _ => trivial⟩

theorem expand?_eq_none_iff :
    expand? s = .ok none ↔ ¬∃ hosts, Names (fun _ => True) s hosts := by
  rw [exists_names_iff]
  obtain ⟨hread, hnone⟩ | ⟨entries, hread, ⟨-, hsome⟩ | ⟨-, herror⟩⟩ := expand?_cases s
  · simp [hread, hnone]
  · simp [hread, hsome]
  · simp [hread, herror]

theorem expand?_eq_error_iff {c : Crash} : expand? s = .error c ↔ c = .width ∧
    (∃ hosts, Names (fun _ => True) s hosts) ∧ ¬∃ hosts, Names (· ≤ Text.widest) s hosts := by
  simp only [← expand?_eq_some_iff, exists_names_iff]
  obtain ⟨hread, hnone⟩ | ⟨entries, hread, ⟨-, hsome⟩ | ⟨-, herror⟩⟩ := expand?_cases s
  · simp [hread, hnone]
  · simp [hread, hsome]
  · simp [hread, herror, eq_comm]

example : expand? " rabbit[08-10,7]-ib,login1\n" =
    .ok (some ["rabbit08-ib", "rabbit09-ib", "rabbit10-ib", "rabbit7-ib", "login1"]) := by
  decide +kernel

theorem Lists.append {cs ds : List Char} {hosts others : List (List Char)}
    (h : Lists fits cs hosts) (h' : Lists fits ds others) :
    Lists fits (cs ++ ',' :: ds) (hosts ++ others) := by
  obtain ⟨groups, hcommas, rfl⟩ := h
  obtain ⟨groups', hcommas', rfl⟩ := h'
  exact ⟨groups ++ groups', hcommas.append hcommas', List.flatten_append.symm⟩

theorem Names.lists (h : Names fits s hosts) (hne : s ≠ "") (hbare : Bare s.toList) :
    Lists fits s.toList (hosts.map String.toList) := by
  obtain ⟨core, hsurrounds, hcore⟩ := h
  have hcoreBare : Bare core := by
    rcases hcore with ⟨rfl, -⟩ | hlists
    · exact Text.bare_nil
    · exact hlists.bare
  have heq : s.toList = core :=
    (Text.trimChars_of_bare hbare).symm.trans (Text.trimChars_of_surrounds hsurrounds hcoreBare)
  rcases hcore with ⟨rfl, -⟩ | hlists
  · exact absurd (String.toList_eq_nil_iff.mp heq) hne
  · exact heq ▸ hlists

theorem Names.join {a b : String} {hosts others : List String} (h : Names fits a hosts)
    (h' : Names fits b others) (ha : a ≠ "") (hb : b ≠ "") (hbareA : Bare a.toList)
    (hbareB : Bare b.toList) : Names fits (a ++ "," ++ b) (hosts ++ others) := by
  have hlists := (h.lists ha hbareA).append (h'.lists hb hbareB)
  exact ⟨_, .refl _, .inr (by simpa using hlists)⟩

/-- The texts that are read are the lists, with white space around them at most, and their hosts are
those that the lists name, as long as no range is wider than the formatter takes. A list with a
wider range crashes the program, and all other texts are refused. A list and another one behind a
comma name the hosts of both. -/
theorem expand?_exact (s : String) :
    (∀ hosts, expand? s = .ok (some hosts) ↔ Names (· ≤ 65535) s hosts) ∧
    (expand? s = .ok none ↔ ¬∃ hosts, Names (fun _ => True) s hosts) ∧
    ((∃ c, expand? s = .error c) ↔
      (∃ hosts, Names (fun _ => True) s hosts) ∧ ¬∃ hosts, Names (· ≤ 65535) s hosts) ∧
    ∀ (other : String) (hosts others : List String), s ≠ "" → other ≠ "" → Bare s.toList →
      Bare other.toList → expand? s = .ok (some hosts) → expand? other = .ok (some others) →
      expand? (s ++ "," ++ other) = .ok (some (hosts ++ others)) := by
  refine ⟨fun _ => expand?_eq_some_iff, expand?_eq_none_iff, ?_,
    fun other hosts others hs hother hbare hbare' hread hread' => ?_⟩
  · simp only [expand?_eq_error_iff, exists_eq_left]
    rfl
  · have named := (expand?_eq_some_iff.mp hread).join (expand?_eq_some_iff.mp hread') hs hother
      hbare hbare'
    exact expand?_eq_some_iff.mpr named

/-- A list that names a zero, in some width. -/
def zeroList (width : Nat) : String :=
  String.ofList ('[' :: (List.replicate width '0' ++ [']']))

section

variable {width : Nat} (hwidth : 0 < width)

include hwidth

theorem read?_zeroList : read? (Text.trimChars (zeroList width).toList) =
    some [.ranged [] [⟨0, 0, width, Nat.le_refl 0⟩] []] := by
  have number := Text.numeral_filled width 0
  rw [Text.filled_zero hwidth] at number
  have hrange := readsRange_single number (by decide)
  rw [List.length_replicate] at hrange
  have hnothing : IsPart [] := by simp [IsPart]
  have hentry := readsEntry_ranged hnothing (.one hrange) hnothing
  have hblank : ∀ c ∈ (zeroList width).toList, Text.isBlank c = false := by
    rw [zeroList, String.toList_ofList, List.forall_mem_cons, List.forall_mem_append]
    refine ⟨by decide, fun c hc => ?_, List.forall_mem_singleton.mpr rfl⟩
    exact Text.not_isBlank_of_mem_decimalDigits c (number.letters c hc)
  rw [Text.trimChars_of_bare (.of_forall hblank), zeroList, String.toList_ofList]
  exact readEntries?_of_commas (.one hentry) _ (by simp)

theorem said_zeroList : (Entry.ranged [] [⟨0, 0, width, Nat.le_refl 0⟩] []).said =
    [List.replicate width '0'] := by
  have hnumbered : numbered width 0 = List.replicate width '0' := by
    rw [← filled_eq_numbered, Text.filled_zero hwidth]
  simp [Entry.said, said_single, hnumbered]

theorem names_zeroList (hfits : fits width) :
    Names fits (zeroList width) [String.ofList (List.replicate width '0')] :=
  names_iff.mpr ⟨_, read?_zeroList hwidth, by simp [said_zeroList hwidth],
    by simpa [Entry.Fits, Entry.ranges] using hfits⟩

end

/-- A zero with one digit more than the formatter takes is named by a list, which is not read. -/
theorem expand?_zeroList :
    Names (fun _ => True) (zeroList 65536) [String.ofList (List.replicate 65536 '0')] ∧
      expand? (zeroList 65536) = .error .width := by
  have hread := read?_zeroList (Nat.succ_pos 65535)
  refine ⟨names_zeroList (Nat.succ_pos 65535) trivial, ?_⟩
  rw [expand?_eq_error_iff]
  refine ⟨rfl, ⟨_, names_zeroList (Nat.succ_pos 65535) trivial⟩, fun ⟨hosts, hnames⟩ => ?_⟩
  obtain ⟨entries, hentries, -, hfits⟩ := names_iff.mp hnames
  obtain rfl := Option.some.inj (hread.symm.trans hentries)
  simp [Entry.Fits, Entry.ranges, Text.widest] at hfits

end Hostlist

end Warren
