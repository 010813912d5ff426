import Warren.Proofs.Hostlist.Segments

/-!
# Lists that are written and read

Hosts that are written as a list are read back from it. There is no list if the largest number that
a word holds is followed by another one, or if a number is wider than the formatter takes:
`expand?_encode_iff`.
-/

namespace Warren.Hostlist

open Text (decimal filled widest)

/-! ### Items between commas -/

section

variable {α β : Type} {Item : List Char → β → Prop} {f : α → List Char} {g : α → β}
  {items : List α}

theorem Commas.join (hne : items ≠ []) (h : ∀ a ∈ items, Item (f a) (g a)) :
    Commas Item (joinCommas (items.map f)) (items.map g) := by
  induction items with
  | nil => exact absurd rfl hne
  | cons a items ih =>
    obtain ⟨ha, hitems⟩ := List.forall_mem_cons.mp h
    cases items with
    | nil =>
      rw [List.map_singleton, joinCommas, List.intercalate_singleton]
      exact .one ha
    | cons b items =>
      have hrest := ih (by simp) hitems
      rw [List.map_cons, joinCommas, List.map_cons, List.intercalate_cons_cons, List.append_assoc,
        List.singleton_append]
      exact .more ha hrest

theorem forall_mem_joinCommas {p : Char → Prop} (hcomma : p ',')
    (h : ∀ a ∈ items, ∀ c ∈ f a, p c) : ∀ c ∈ joinCommas (items.map f), p c := by
  cases items with
  | nil => simp [joinCommas]
  | cons a items =>
    have hcommas : Commas (fun cs (_ : α) => ∀ c ∈ cs, p c) _ ((a :: items).map id) :=
      .join (by simp) h
    exact hcommas.forall_mem hcomma fun _ _ => id

end

/-! ### What is written for a segment -/

/-- What is written for a range, whatever its width. -/
def rangeText (width : Nat) (range : UInt64 × UInt64) : List Char :=
  if range.1 = range.2 then filled width range.1.toNat
  else filled width range.1.toNat ++ '-' :: filled width range.2.toNat

/-- What is written for a segment, whatever its width. -/
def Segment.text : Segment → List Char
  | .plain name => name
  | .group before width [number] => before ++ filled width number.toNat
  | .group before width numbers =>
    before ++ '[' :: (joinCommas ((rangesOf numbers).reverse.map (rangeText width)) ++ [']'])

/-- No number is wider than the formatter takes. -/
def Segment.Narrow : Segment → Prop
  | .plain _ => True
  | .group _ width _ => width ≤ widest

variable {segment : Segment} {before : List Char} {width : Nat} {numbers : List UInt64}

theorem text_group (first second : UInt64) (rest : List UInt64) :
    (Segment.group before width (first :: second :: rest)).text =
      before ++ '[' ::
        (joinCommas ((rangesOf (first :: second :: rest)).reverse.map (rangeText width)) ++
          ']' :: []) := by
  rw [Segment.text]
  simp

theorem print_group (first second : UInt64) (rest : List UInt64) :
    (Segment.group before width (first :: second :: rest)).print = (do
      let ranges ← (first :: second :: rest).reverse.foldlM addNumber []
      let printed ← ranges.reverse.mapM (printRange width)
      return before ++ '[' :: joinCommas printed ++ [']']) := by
  rw [Segment.print]
  simp

theorem padded_of_narrow (h : width ≤ widest) (n : Nat) :
    Text.padded width n = .ok (filled width n) := if_pos h

theorem padded_of_wide (h : ¬width ≤ widest) (n : Nat) : Text.padded width n = .error .width :=
  if_neg h

theorem printRange_of_narrow (h : width ≤ widest) (range : UInt64 × UInt64) :
    printRange width range = .ok (rangeText width range) := by
  rw [printRange, bind_of_ok (padded_of_narrow h _), rangeText]
  by_cases heq : range.1 = range.2
  · rw [if_pos heq, if_pos heq]
    rfl
  · rw [if_neg heq, if_neg heq]
    simp only [padded_of_narrow h]
    rfl

theorem printRange_of_wide (h : ¬width ≤ widest) (range : UInt64 × UInt64) :
    printRange width range = .error .width := by
  rw [printRange, padded_of_wide h]
  rfl

theorem print_eq (hne : segment.hosts ≠ []) (hranges : segment.HasRanges)
    (hnarrow : segment.Narrow) : segment.print = .ok segment.text := by
  match segment with
  | .plain name => rfl
  | .group before width [] => exact absurd rfl hne
  | .group before width [number] =>
    rw [Segment.print, padded_of_narrow hnarrow]
    rfl
  | .group before width (first :: second :: rest) =>
    have hprinted : (rangesOf (first :: second :: rest)).reverse.mapM (printRange width) =
        .ok ((rangesOf (first :: second :: rest)).reverse.map (rangeText width)) :=
      mapM_of_forall fun range _ => printRange_of_narrow hnarrow range
    rw [print_group, bind_of_ok ((foldlM_addNumber _).1 hranges), bind_of_ok hprinted, text_group,
      List.append_assoc, List.cons_append]
    rfl

theorem rangesOf_ne_nil (hne : numbers ≠ []) : rangesOf numbers ≠ [] := by
  have hhead := head?_rangesOf numbers
  intro h
  rw [h, List.head?_nil, Option.map_none] at hhead
  exact hne (List.head?_eq_none_iff.mp hhead.symm)

theorem hasRanges_and_narrow_of_print (hne : segment.hosts ≠ []) {text : List Char}
    (h : segment.print = .ok text) : segment.HasRanges ∧ segment.Narrow := by
  match segment with
  | .plain name => exact ⟨trivial, trivial⟩
  | .group before width [] => exact absurd rfl hne
  | .group before width [number] =>
    refine ⟨List.IsChain.singleton _, ?_⟩
    by_contra hwide
    rw [Segment.print, padded_of_wide hwide] at h
    cases h
  | .group before width (first :: second :: rest) =>
    rw [print_group] at h
    obtain ⟨ranges, hfold, h⟩ := ok_of_bind h
    obtain ⟨printed, hprinted, -⟩ := ok_of_bind h
    have hchain : (first :: second :: rest).IsChain fun _ number => HasNext number := by
      by_contra hnot
      rw [(foldlM_addNumber _).2 hnot] at hfold
      cases hfold
    refine ⟨hchain, ?_⟩
    by_contra hwide
    rw [(foldlM_addNumber _).1 hchain] at hfold
    obtain rfl := Except.ok.inj hfold
    -- there is a range, and it would be written
    obtain ⟨range, hrange⟩ := List.exists_mem_of_ne_nil _
      (List.reverse_ne_nil_iff.mpr (rangesOf_ne_nil (List.cons_ne_nil first (second :: rest))))
    obtain ⟨_, hok⟩ := exists_ok_of_mapM hprinted range hrange
    rw [printRange_of_wide hwide] at hok
    cases hok

/-! ### What is read of a segment -/

/-- The range that is read where a range of numbers is written. -/
def readBack (width : Nat) (range : UInt64 × UInt64) : Option Range :=
  if le : range.1.toNat ≤ range.2.toNat then some ⟨range.1.toNat, range.2.toNat, width, le⟩
  else none

/-- The entry that is read where a segment is written. -/
def Segment.reading : Segment → Option Entry
  | .plain name => some (.plain name)
  | .group before width [number] => some (.plain (before ++ filled width number.toNat))
  | .group before width numbers =>
    ((rangesOf numbers).reverse.mapM (readBack width)).map fun ranges => .ranged before ranges []

theorem readsRange_rangeText {range : UInt64 × UInt64}
    (hfirst : (decimal range.1.toNat).length ≤ width)
    (hlast : (decimal range.2.toNat).length ≤ width) :
    ReadsRange (rangeText width range) (readBack width range) := by
  obtain ⟨first, last⟩ := range
  have hwidth := Text.length_filled hfirst
  dsimp only at hwidth
  by_cases heq : first = last
  · subst heq
    have hreads := readsRange_single (Text.numeral_filled width first.toNat) first.toNat_lt
    rw [hwidth] at hreads
    rw [rangeText, if_pos rfl, readBack, dif_pos (Nat.le_refl _)]
    exact hreads
  · have hreads := readsRange_interval (Text.numeral_filled width first.toNat)
      (Text.numeral_filled width last.toNat) first.toNat_lt last.toNat_lt
    rw [hwidth] at hreads
    rw [rangeText, if_neg heq]
    exact hreads

theorem reading_group (first second : UInt64) (rest : List UInt64) :
    (Segment.group before width (first :: second :: rest)).reading =
      ((rangesOf (first :: second :: rest)).reverse.mapM (readBack width)).map fun ranges =>
        .ranged before ranges [] := by
  rw [Segment.reading]
  simp

theorem proper_group (h : (Segment.group before width numbers).Proper) :
    numbers ≠ [] ∧ IsPart before ∧ ∀ n ∈ numbers, (decimal n.toNat).length ≤ width := by
  have hnumbers : numbers ≠ [] := by
    rintro rfl
    exact h.nonempty rfl
  have hhosts := h.hosts
  rw [Segment.hosts, List.forall_mem_map] at hhosts
  obtain ⟨n, rest, rfl⟩ := List.exists_cons_of_ne_nil hnumbers
  exact ⟨hnumbers, (hhosts n (by simp)).1, fun m hm => (hhosts m (List.mem_reverse.mpr hm)).2⟩

theorem isPart_filled (width n : Nat) : IsPart (filled width n) :=
  isPart_iff.mpr fun c hc => by
    have hdigit := isDigit_of_numeral (Text.numeral_filled width n) c hc
    simp [isHostChar, hdigit]

theorem text_cases (h : segment.Proper) :
    (∃ name, IsName name ∧ segment.text = name ∧ segment.reading = some (.plain name)) ∨
      ∃ before width first second rest,
        segment = .group before width (first :: second :: rest) ∧ IsPart before ∧
          ∀ n ∈ first :: second :: rest, (decimal (UInt64.toNat n)).length ≤ width := by
  cases segment with
  | plain name => exact .inl ⟨name, h.hosts (.plain name) (by simp [Segment.hosts]), rfl, rfl⟩
  | group before width numbers =>
    obtain ⟨hnumbers, hbefore, hwidth⟩ := proper_group h
    obtain ⟨first, others, rfl⟩ := List.exists_cons_of_ne_nil hnumbers
    cases others with
    | nil =>
      refine .inl ⟨before ++ filled width first.toNat, ⟨?_, ?_⟩, rfl, rfl⟩
      · exact List.append_ne_nil_of_right_ne_nil _ (Text.numeral_filled _ _).nonempty
      · exact List.forall_mem_append.mpr ⟨hbefore, isPart_filled _ _⟩
    | cons second rest => exact .inr ⟨_, _, _, _, _, rfl, hbefore, hwidth⟩

theorem readsEntry_text (h : segment.Proper) : ReadsEntry segment.text segment.reading := by
  rcases text_cases h with ⟨name, hname, htext, hreading⟩ |
    ⟨before, width, first, second, rest, rfl, hbefore, hwidth⟩
  · rw [htext, hreading]
    exact readsEntry_plain hname
  · have hranges := forall_mem_rangesOf hwidth
    have hcommas : Commas ReadsRange _ _ := .join (f := rangeText width) (g := readBack width)
      (List.reverse_ne_nil_iff.mpr (rangesOf_ne_nil (List.cons_ne_nil _ _))) fun range hrange => by
        obtain ⟨hfirst, hlast⟩ := hranges range (List.mem_reverse.mp hrange)
        exact readsRange_rangeText hfirst hlast
    have hnothing : IsPart [] := by simp [IsPart]
    have hreads := readsEntry_ranged hbefore hcommas hnothing
    rw [List.mapM_map, Function.id_comp] at hreads
    rw [text_group, reading_group]
    exact hreads

/-! ### The hosts that are read -/

theorem exists_mapM_readBack (width : Nat) {ranges : List (UInt64 × UInt64)}
    (h : ∀ range ∈ ranges, range.1.toNat ≤ range.2.toNat) :
    ∃ read, ranges.mapM (readBack width) = some read ∧
      (read.map Range.said).flatten = (ranges.flatMap spanned).map (filled width) ∧
      ∀ range ∈ read, range.width = width := by
  induction ranges with
  | nil => exact ⟨[], rfl, rfl, by simp⟩
  | cons range ranges ih =>
    obtain ⟨hrange, hranges⟩ := List.forall_mem_cons.mp h
    obtain ⟨read, hread, hsaid, hwidth⟩ := ih hranges
    refine ⟨⟨range.1.toNat, range.2.toNat, width, hrange⟩ :: read, ?_, ?_, ?_⟩
    · rw [List.mapM_cons, readBack, dif_pos hrange, hread]
      rfl
    · rw [List.map_cons, List.flatten_cons, hsaid, List.flatMap_cons, List.map_append,
        filled_eq_numbered]
      rfl
    · simpa using hwidth

/-- A segment is read as the hosts that it has, and its ranges are as wide as they are written. -/
theorem exists_reading (segment : Segment) :
    ∃ entry, segment.reading = some entry ∧ entry.said = segment.hosts.map Host.chars ∧
      (segment.Narrow → entry.Fits (· ≤ widest)) := by
  cases segment with
  | plain name => exact ⟨_, rfl, rfl, fun _ _ h => absurd h List.not_mem_nil⟩
  | group before width numbers =>
    obtain ⟨hle, hspanned⟩ := flatMap_spanned numbers
    match numbers with
    | [] => exact ⟨_, rfl, rfl, fun _ _ h => absurd h List.not_mem_nil⟩
    | [number] => exact ⟨_, rfl, rfl, fun _ _ h => absurd h List.not_mem_nil⟩
    | first :: second :: rest =>
      obtain ⟨read, hread, hsaid, hwidth⟩ := exists_mapM_readBack width
        fun range hrange => hle range (List.mem_reverse.mp hrange)
      refine ⟨.ranged before read [], by rw [reading_group, hread]; rfl, ?_, ?_⟩
      · rw [Entry.said, hsaid, hspanned, Segment.hosts]
        simp [Function.comp_def, Host.chars]
      · intro hnarrow range hrange
        rw [hwidth range hrange]
        exact hnarrow

theorem exists_mapM_reading (segments : List Segment) :
    ∃ entries, segments.mapM Segment.reading = some entries ∧
      entries.flatMap Entry.said = (segments.flatMap Segment.hosts).map Host.chars ∧
      ((∀ segment ∈ segments, segment.Narrow) → ∀ entry ∈ entries, entry.Fits (· ≤ widest)) := by
  induction segments with
  | nil => exact ⟨[], rfl, rfl, by simp⟩
  | cons segment segments ih =>
    obtain ⟨entry, hentry, hsaid, hfits⟩ := exists_reading segment
    obtain ⟨entries, hentries, hothers, hrest⟩ := ih
    refine ⟨entry :: entries, by simp [List.mapM_cons, hentry, hentries], ?_, fun h => ?_⟩
    · rw [List.flatMap_cons, List.flatMap_cons, List.map_append, hsaid, hothers]
    · obtain ⟨hsegment, hsegments⟩ := List.forall_mem_cons.mp h
      exact List.forall_mem_cons.mpr ⟨hfits hsegment, hrest hsegments⟩

/-! ### Lists -/

theorem text_ne_nil (h : segment.Proper) : segment.text ≠ [] := by
  rcases text_cases h with ⟨name, hname, htext, -⟩ |
    ⟨before, width, first, second, rest, rfl, -⟩
  · rw [htext]
    exact hname.1
  · simp [text_group]

theorem isPart_rangeText (width : Nat) (range : UInt64 × UInt64) :
    IsPart (rangeText width range) := by
  rw [rangeText]
  split
  · exact isPart_filled _ _
  · exact List.forall_mem_append.mpr
      ⟨isPart_filled _ _, List.forall_mem_cons.mpr ⟨by decide, isPart_filled _ _⟩⟩

theorem not_isBlank_text (h : segment.Proper) : ∀ c ∈ segment.text, Text.isBlank c = false := by
  rcases text_cases h with ⟨name, hname, htext, -⟩ |
    ⟨before, width, first, second, rest, rfl, hbefore, -⟩
  · rw [htext]
    exact hname.2.not_isBlank
  · have hranges : ∀ c ∈ joinCommas
          ((rangesOf (first :: second :: rest)).reverse.map (rangeText width)),
        Text.isBlank c = false :=
      forall_mem_joinCommas (by decide) fun range _ => (isPart_rangeText width range).not_isBlank
    rw [text_group]
    simp only [List.forall_mem_append, List.forall_mem_cons]
    exact ⟨hbefore.not_isBlank, by decide, hranges, by decide, by simp⟩

theorem proper_of_grouped {hosts : List (List Char)} {segments : List Segment}
    (g : Grouped (hosts.map Host.ofChars) segments) (named : ∀ host ∈ hosts, IsName host) :
    ∀ segment ∈ segments.reverse, segment.Proper := by
  intro segment hsegment
  refine ⟨g.nonempty segment (List.mem_reverse.mp hsegment), fun host hhost => ?_⟩
  have hmem : host ∈ hosts.map Host.ofChars :=
    g.hosts_eq ▸ List.mem_flatMap.mpr ⟨segment, hsegment, hhost⟩
  obtain ⟨name, hname, rfl⟩ := List.mem_map.mp hmem
  exact proper_ofChars (named name hname)

theorem read?_joinCommas {segments : List Segment}
    (hproper : ∀ segment ∈ segments, segment.Proper) :
    read? (Text.trimChars (joinCommas (segments.map Segment.text))) =
      segments.mapM Segment.reading := by
  have hblank : ∀ c ∈ joinCommas (segments.map Segment.text), Text.isBlank c = false :=
    forall_mem_joinCommas (by decide) fun segment hsegment =>
      not_isBlank_text (hproper segment hsegment)
  rw [Text.trimChars_of_bare (.of_forall hblank)]
  by_cases hnil : segments = []
  · subst hnil
    rfl
  · have hreads : Commas ReadsEntry _ _ := .join (f := Segment.text) (g := Segment.reading) hnil
      fun segment hsegment => readsEntry_text (hproper segment hsegment)
    have hwritten : Commas (fun cs (_ : Segment) => cs ≠ []) _ (segments.map id) :=
      .join (f := Segment.text) hnil fun segment hsegment =>
        text_ne_nil (hproper segment hsegment)
    have hlength := hwritten.length_le fun _ _ => id
    rw [List.length_map] at hlength
    rw [read?, if_neg (hwritten.ne_nil fun _ _ => id),
      readEntries?_of_commas hreads _ (by rwa [List.length_map]), List.mapM_map, Function.id_comp]

theorem narrow_iff_hosts (hne : segment.hosts ≠ []) :
    segment.Narrow ↔ ∀ host ∈ segment.hosts, host.Narrow := by
  cases segment with
  | plain name => simp [Segment.Narrow, Segment.hosts, Host.Narrow]
  | group before width numbers =>
    rw [Segment.hosts, List.forall_mem_map, Segment.Narrow]
    obtain ⟨host, hhost⟩ := List.exists_mem_of_ne_nil _ hne
    obtain ⟨number, hnumber, -⟩ := List.mem_map.mp hhost
    exact ⟨fun h _ _ => h, fun h => h number hnumber⟩

theorem encodeChars_cases (hosts : List (List Char)) :
    let segments := ((hosts.map Host.ofChars).foldl addHost []).reverse
    ((∀ segment ∈ segments, segment.HasRanges ∧ segment.Narrow) →
        encodeChars hosts = .ok (joinCommas (segments.map Segment.text))) ∧
      ((∃ text, encodeChars hosts = .ok text) →
        ∀ segment ∈ segments, segment.HasRanges ∧ segment.Narrow) := by
  intro segments
  have hne : ∀ segment ∈ segments, segment.hosts ≠ [] := fun segment hsegment =>
    (grouped_foldl (hosts.map Host.ofChars)).nonempty segment (List.mem_reverse.mp hsegment)
  constructor
  · intro h
    have hprinted : segments.mapM Segment.print = .ok (segments.map Segment.text) :=
      mapM_of_forall fun segment hsegment =>
        print_eq (hne segment hsegment) (h segment hsegment).1 (h segment hsegment).2
    rw [encodeChars]
    exact bind_of_ok hprinted _
  · rintro ⟨text, h⟩ segment hsegment
    obtain ⟨printed, hprinted, -⟩ := ok_of_bind h
    obtain ⟨_, hok⟩ := exists_ok_of_mapM hprinted segment hsegment
    exact hasRanges_and_narrow_of_print (hne segment hsegment) hok

/-- The segments of hosts can be written exactly if no host with the largest number is followed by
another number behind the same name, and if no number is too wide. -/
theorem forall_segments_iff (hosts : List (List Char)) :
    (∀ segment ∈ ((hosts.map Host.ofChars).foldl addHost []).reverse,
        segment.HasRanges ∧ segment.Narrow) ↔
      (hosts.IsChain fun a b => ¬Overruns a b) ∧ ∀ host ∈ hosts, ¬TooWide host := by
  have g := grouped_foldl (hosts.map Host.ofChars)
  have hnarrow : (∀ segment ∈ (hosts.map Host.ofChars).foldl addHost [], segment.Narrow) ↔
      ∀ host ∈ hosts.map Host.ofChars, host.Narrow := by
    conv_rhs => rw [← g.hosts_eq]
    simp only [hostsOf, List.mem_flatMap, List.mem_reverse]
    constructor
    · rintro h host ⟨segment, hsegment, hhost⟩
      exact (narrow_iff_hosts (g.nonempty segment hsegment)).mp (h segment hsegment) host hhost
    · intro h segment hsegment
      exact (narrow_iff_hosts (g.nonempty segment hsegment)).mpr
        fun host hhost => h host ⟨segment, hsegment, hhost⟩
  have hranges := g.ranges
  simp only [List.isChain_map, wraps_iff] at hranges
  simp only [List.forall_mem_map, narrow_iff] at hnarrow
  simp only [List.mem_reverse, forall_and, hranges, hnarrow]

/-- Hosts that are written as a list are read from it as they are. They can be written exactly if no
host with the largest number is followed by another number behind the same name and in the same
width, and no number is wider than the formatter takes. -/
theorem expand?_encode_iff {hosts : List String} (named : ∀ host ∈ hosts, IsName host.toList) :
    (∀ text, encode hosts = .ok text → expand? text = .ok (some hosts)) ∧
      ((∃ text, encode hosts = .ok text) ↔
        (hosts.IsChain fun a b => ¬Overruns a.toList b.toList) ∧
          ∀ host ∈ hosts, ¬TooWide host.toList) := by
  have hiff := forall_segments_iff (hosts.map String.toList)
  have g := grouped_foldl ((hosts.map String.toList).map Host.ofChars)
  have hproper := proper_of_grouped g (List.forall_mem_map.mpr named)
  obtain ⟨hok, hall⟩ := encodeChars_cases (hosts.map String.toList)
  simp only [List.isChain_map, List.forall_mem_map] at hiff
  constructor
  · intro text h
    obtain ⟨cs, hcs, htext⟩ := ok_of_bind h
    have hsegments := hall ⟨cs, hcs⟩
    rw [hok hsegments] at hcs
    obtain rfl := Except.ok.inj hcs
    obtain rfl := Except.ok.inj htext
    obtain ⟨entries, hentries, hsaid, hfits⟩ := exists_mapM_reading
      (((hosts.map String.toList).map Host.ofChars).foldl addHost []).reverse
    rw [← read?_joinCommas hproper] at hentries
    rw [← hostsOf, g.hosts_eq] at hsaid
    refine expand?_eq_some_iff.mpr (names_iff.mpr ⟨entries, by simpa using hentries, ?_,
      hfits fun segment hsegment => (hsegments segment hsegment).2⟩)
    rw [hsaid]
    simp [Function.comp_def, chars_ofChars]
  · rw [← hiff]
    constructor
    · rintro ⟨text, h⟩
      obtain ⟨cs, hcs, -⟩ := ok_of_bind h
      exact hall ⟨cs, hcs⟩
    · intro hsegments
      rw [encode, hok hsegments]
      exact ⟨_, rfl⟩

/-- The largest number and a zero that is not as wide are read back. -/
theorem expand?_encode_iff_narrow :
    let hosts := ["rabbit08", "rabbit09", "n18446744073709551615", "n0"]
    (∀ host ∈ hosts, IsName host.toList) ∧
      encode hosts = .ok "rabbit[08-09],n18446744073709551615,n0" ∧
      expand? "rabbit[08-09],n18446744073709551615,n0" = .ok (some hosts) := by
  intro hosts
  have named : ∀ host ∈ hosts, IsName host.toList := by
    simp [hosts, IsName, IsPart]
  have written : encode hosts = .ok "rabbit[08-09],n18446744073709551615,n0" := by decide +kernel
  exact ⟨named, written, (expand?_encode_iff named).1 _ written⟩

/-- The largest number is followed by a zero of the same width, and nothing is written. -/
theorem encode_largest :
    (∀ host ∈ ["n18446744073709551615", "n00000000000000000000"], IsName host.toList) ∧
      encode ["n18446744073709551615", "n00000000000000000000"] = .error .overflow := by
  refine ⟨by simp [IsName, IsPart], ?_⟩
  decide +kernel

end Warren.Hostlist
