import Warren.Proofs.Hostlist.Grammar
import Warren.Proofs.Hostlist.Runs

/-!
# Hosts and the segments that they form

A host of an encoded list is a name, or a number behind a name. Nothing of it is lost, zeros in
front of the number included, and neither is a host when the hosts are put together in segments:
`Grouped` is what adding one more host preserves.
-/

namespace Warren.Hostlist

open Text (Numeral decimalDigits isDigit filled)

/-! ### Hosts -/

/-- A host ends with a number that a word holds. -/
structure NumberedAs (host before digits : List Char) (number : Nat) : Prop where
  host_eq : host = before ++ digits
  behind : ∀ c ∈ before.getLast?, isDigit c = false
  numeral : Numeral decimalDigits digits number
  word : number < UInt64.size

/-- One host ends with the largest number that a word holds, and the other one with a number too,
behind the same name and in the same width. -/
def Overruns (a b : List Char) : Prop :=
  ∃ before digits others number, NumberedAs a before digits 18446744073709551615 ∧
    NumberedAs b before others number ∧ others.length = digits.length

/-- A host ends with a number that is wider than the formatter takes. -/
def TooWide (host : List Char) : Prop :=
  ∃ before digits number, NumberedAs host before digits number ∧ 65535 < digits.length

def Host.chars : Host → List Char
  | .plain name => name
  | .numbered before width number => before ++ filled width number.toNat

/-- Parts of names, and numbers that are not wider than they are written. -/
def Host.Proper : Host → Prop
  | .plain name => IsName name
  | .numbered before width number =>
    IsPart before ∧ (Text.decimal number.toNat).length ≤ width

/-- The largest number is followed by one behind the same name, in the same width. -/
def Host.Wraps (h next : Host) : Prop :=
  ∃ before width number, h = .numbered before width largest ∧
    next = .numbered before width number

/-- A number is not wider than the formatter takes. -/
def Host.Narrow : Host → Prop
  | .plain _ => True
  | .numbered _ width _ => width ≤ Text.widest

section

variable {cs before ds : List Char} {width : Nat} {number : UInt64}

theorem ofChars_append (hbefore : ∀ c ∈ before.getLast?, isDigit c = false)
    (numeral : Numeral decimalDigits ds number.toNat) :
    Host.ofChars (before ++ ds) = .numbered before ds.length number := by
  have hdigits : ((before ++ ds).reverse.takeWhile isDigit).reverse = ds := by
    have hds : ∀ c ∈ ds.reverse, isDigit c = true :=
      fun c hc => isDigit_of_numeral numeral c (List.mem_reverse.mp hc)
    have hend : before.reverse.takeWhile isDigit = [] := by
      cases h : before.reverse with
      | nil => rfl
      | cons c rest =>
        have hc : isDigit c = false := hbefore c (by rw [List.getLast?_eq_head?_reverse, h]; rfl)
        rw [List.takeWhile_cons_of_neg (by simp [hc])]
    rw [List.reverse_append, List.takeWhile_append_of_pos hds, hend, List.append_nil,
      List.reverse_reverse]
  have hbound := readBound?_eq_some_iff.mpr ⟨numeral, number.toNat_lt⟩
  simp only [Host.ofChars, hdigits, hbound, List.length_append, Nat.add_sub_cancel,
    List.take_left, UInt64.ofNat_toNat]

theorem NumberedAs.ofChars_eq {n : Nat} (h : NumberedAs cs before ds n) :
    Host.ofChars cs = .numbered before ds.length (UInt64.ofNat n) := by
  have numeral := h.numeral
  rw [← UInt64.toNat_ofNat_of_lt' h.word] at numeral
  rw [h.host_eq]
  exact ofChars_append h.behind numeral

theorem ofChars_cases (cs : List Char) :
    Host.ofChars cs = .plain cs ∨
      ∃ before ds number, NumberedAs cs before ds (UInt64.toNat number) ∧
        Host.ofChars cs = .numbered before ds.length number := by
  have hsplit : (cs.reverse.dropWhile isDigit).reverse ++ (cs.reverse.takeWhile isDigit).reverse =
      cs := by
    rw [← List.reverse_append, List.takeWhile_append_dropWhile, List.reverse_reverse]
  cases hbound : readBound? (cs.reverse.takeWhile isDigit).reverse with
  | none => exact .inl (by simp only [Host.ofChars, hbound])
  | some n =>
    obtain ⟨numeral, hword⟩ := readBound?_eq_some_iff.mp hbound
    have hbefore : ∀ c ∈ (cs.reverse.dropWhile isDigit).reverse.getLast?, isDigit c = false := by
      intro c hc
      rw [List.getLast?_reverse] at hc
      have hnot := List.head?_dropWhile_not isDigit cs.reverse
      rw [Option.mem_def.mp hc] at hnot
      exact hnot
    have hnumbered : NumberedAs cs _ _ n := ⟨hsplit.symm, hbefore, numeral, hword⟩
    refine .inr ⟨_, _, UInt64.ofNat n, ?_, hnumbered.ofChars_eq⟩
    rwa [UInt64.toNat_ofNat_of_lt' hword]

theorem ofChars_eq_numbered {before : List Char} {width : Nat} {number : UInt64}
    (h : Host.ofChars cs = .numbered before width number) :
    ∃ ds, NumberedAs cs before ds number.toNat ∧ ds.length = width := by
  rcases ofChars_cases cs with heq | ⟨_, ds, _, hnumbered, heq⟩
  · rw [heq] at h
    cases h
  · rw [heq] at h
    cases h
    exact ⟨ds, hnumbered, rfl⟩

theorem chars_ofChars (cs : List Char) : (Host.ofChars cs).chars = cs := by
  rcases ofChars_cases cs with h | ⟨before, ds, number, hnumbered, h⟩
  · rw [h, Host.chars]
  · rw [h, Host.chars, ← hnumbered.numeral.eq_filled, hnumbered.host_eq]

theorem proper_ofChars (h : IsName cs) : (Host.ofChars cs).Proper := by
  rcases ofChars_cases cs with heq | ⟨before, ds, number, hnumbered, heq⟩
  · rw [heq]
    exact h
  · rw [heq]
    refine ⟨fun c hc => h.2 c ?_, hnumbered.numeral.length_decimal_le⟩
    rw [hnumbered.host_eq]
    exact List.mem_append_left _ hc

theorem wraps_iff {a b : List Char} : (Host.ofChars a).Wraps (Host.ofChars b) ↔ Overruns a b := by
  constructor
  · rintro ⟨before, width, number, ha, hb⟩
    obtain ⟨ds, hlargest, hwidth⟩ := ofChars_eq_numbered ha
    obtain ⟨es, hnumber, hwidth'⟩ := ofChars_eq_numbered hb
    exact ⟨before, ds, es, _, hlargest, hnumber, hwidth'.trans hwidth.symm⟩
  · rintro ⟨before, ds, es, n, ha, hb, hwidth⟩
    refine ⟨before, ds.length, UInt64.ofNat n, ha.ofChars_eq, ?_⟩
    rw [hb.ofChars_eq, hwidth]

theorem narrow_iff {a : List Char} : (Host.ofChars a).Narrow ↔ ¬TooWide a := by
  constructor
  · rintro h ⟨before, ds, n, hnumbered, hwide⟩
    rw [hnumbered.ofChars_eq] at h
    exact absurd h (Nat.not_le.mpr hwide)
  · intro h
    cases ha : Host.ofChars a with
    | plain name => trivial
    | numbered before width number =>
      obtain ⟨ds, hnumbered, rfl⟩ := ofChars_eq_numbered ha
      exact Nat.le_of_not_lt fun hwide => h ⟨before, ds, _, hnumbered, hwide⟩

end

/-! ### Segments -/

def Segment.hosts : Segment → List Host
  | .plain name => [.plain name]
  | .group before width numbers => numbers.reverse.map (.numbered before width)

/-- There are hosts, and every one of them is a proper one. -/
structure Segment.Proper (segment : Segment) : Prop where
  nonempty : segment.hosts ≠ []
  hosts : ∀ host ∈ segment.hosts, host.Proper

/-- The segment of one host. -/
def Segment.single : Host → Segment
  | .plain name => .plain name
  | .numbered before width number => .group before width [number]

/-- Each number that another one follows has a successor. -/
def Segment.HasRanges : Segment → Prop
  | .plain _ => True
  | .group _ _ numbers => numbers.IsChain fun _ number => HasNext number

/-- The hosts of some segments, the last one of which comes first. -/
def hostsOf (segments : List Segment) : List Host := segments.reverse.flatMap Segment.hosts

theorem hostsOf_cons (segment : Segment) (segments : List Segment) :
    hostsOf (segment :: segments) = hostsOf segments ++ segment.hosts := by
  simp [hostsOf]

theorem hosts_single (h : Host) : (Segment.single h).hosts = [h] := by
  cases h <;> rfl

theorem hasRanges_single (h : Host) : (Segment.single h).HasRanges := by
  cases h with
  | plain name => trivial
  | numbered before width number => exact .singleton number

theorem hosts_group_cons (before : List Char) (width : Nat) (number : UInt64)
    (numbers : List UInt64) :
    (Segment.group before width (number :: numbers)).hosts =
      (Segment.group before width numbers).hosts ++ [.numbered before width number] := by
  simp [Segment.hosts]

theorem addHost_cases (segments : List Segment) (h : Host) :
    (∃ before width numbers rest number, segments = .group before width numbers :: rest ∧
      h = .numbered before width number ∧
      addHost segments h = .group before width (number :: numbers) :: rest) ∨
    ((∀ before width numbers rest number, segments = .group before width numbers :: rest →
      h ≠ .numbered before width number) ∧ addHost segments h = .single h :: segments) := by
  cases h with
  | plain name => exact .inr ⟨by simp, rfl⟩
  | numbered before width number =>
    match segments with
    | [] => exact .inr ⟨by simp, rfl⟩
    | .plain name :: rest => exact .inr ⟨by simp, rfl⟩
    | .group before' width' numbers :: rest =>
      by_cases heq : before' = before ∧ width' = width
      · obtain ⟨rfl, rfl⟩ := heq
        exact .inl ⟨_, _, _, _, _, rfl, rfl, by simp [addHost]⟩
      · refine .inr ⟨?_, by simp [addHost, heq, Segment.single]⟩
        rintro b w numbers' rest' number' hsegments heq'
        cases hsegments
        cases heq'
        exact heq ⟨rfl, rfl⟩

theorem mem_hosts_of_getLast? {segment : Segment} {segments : List Segment} {h : Host}
    (hne : segment.hosts ≠ []) (hlast : h ∈ (hostsOf (segment :: segments)).getLast?) :
    h ∈ segment.hosts := by
  rw [hostsOf_cons, List.getLast?_append_of_ne_nil _ hne] at hlast
  exact List.mem_of_getLast? hlast

theorem wraps_numbered_iff {before : List Char} {width : Nat} {last number : UInt64} :
    (Host.numbered before width last).Wraps (.numbered before width number) ↔
      ¬HasNext last := by
  rw [HasNext, not_not]
  constructor
  · rintro ⟨_, _, _, hlast, -⟩
    cases hlast
    rfl
  · rintro rfl
    exact ⟨before, width, number, rfl, rfl⟩

/-- The segments of some hosts: none is empty, and all have ranges exactly if nothing follows the
largest number behind the same name. -/
structure Grouped (hosts : List Host) (segments : List Segment) : Prop where
  hosts_eq : hostsOf segments = hosts
  nonempty : ∀ segment ∈ segments, segment.hosts ≠ []
  ranges : (∀ segment ∈ segments, segment.HasRanges) ↔ hosts.IsChain fun h next => ¬h.Wraps next

theorem Grouped.addHost {hosts : List Host} {segments : List Segment} (g : Grouped hosts segments)
    (h : Host) : Grouped (hosts ++ [h]) (addHost segments h) := by
  obtain ⟨rfl, hne, hranges⟩ := g
  have hchain : (hostsOf segments ++ [h]).IsChain (fun h next => ¬h.Wraps next) ↔
      (∀ segment ∈ segments, segment.HasRanges) ∧
        ∀ last ∈ (hostsOf segments).getLast?, ¬last.Wraps h := by
    rw [List.isChain_append, ← hranges]
    simp
  rcases addHost_cases segments h with
    ⟨before, width, numbers, rest, number, rfl, rfl, heq⟩ | ⟨hnot, heq⟩ <;> rw [heq]
  · obtain ⟨hnumbers, hrest⟩ := List.forall_mem_cons.mp hne
    obtain ⟨last, others, rfl⟩ : ∃ last others, numbers = last :: others :=
      List.exists_cons_of_ne_nil (by rintro rfl; exact hnumbers rfl)
    have hlast : (hostsOf (.group before width (last :: others) :: rest)).getLast? =
        some (.numbered before width last) := by
      rw [hostsOf_cons, hosts_group_cons, ← List.append_assoc, List.getLast?_concat]
    refine ⟨?_, List.forall_mem_cons.mpr ⟨?_, hrest⟩, ?_⟩
    · rw [hostsOf_cons, hosts_group_cons, hostsOf_cons, List.append_assoc]
    · simp [hosts_group_cons]
    · rw [hchain, hlast, List.forall_mem_cons, List.forall_mem_cons]
      simp only [Segment.HasRanges, List.isChain_cons_cons, Option.mem_some_iff, forall_eq',
        wraps_numbered_iff, not_not]
      tauto
  · refine ⟨?_, List.forall_mem_cons.mpr ⟨?_, hne⟩, ?_⟩
    · rw [hostsOf_cons, hosts_single]
    · simp [hosts_single]
    · have hwraps : ∀ last ∈ (hostsOf segments).getLast?, ¬last.Wraps h := by
        -- a host that `h` could follow so would have it in its group
        rintro last hlast ⟨before, width, number, rfl, rfl⟩
        cases segments with
        | nil => simp [hostsOf] at hlast
        | cons segment rest =>
          have hmem := mem_hosts_of_getLast? (hne segment (by simp)) hlast
          cases segment with
          | plain name => simp [Segment.hosts] at hmem
          | group before' width' numbers =>
            obtain ⟨number, -, hnumber⟩ := List.mem_map.mp hmem
            cases hnumber
            exact hnot _ _ _ _ _ rfl rfl
      rw [hchain, List.forall_mem_cons]
      exact ⟨fun hall => ⟨hall.2, hwraps⟩, fun hall => ⟨hasRanges_single h, hall.1⟩⟩

theorem grouped_foldl (hosts : List Host) : Grouped hosts (hosts.foldl addHost []) := by
  induction hosts using List.reverseRecOn with
  | nil => exact ⟨rfl, by simp, by simp⟩
  | append_singleton hosts h ih =>
    rw [List.foldl_concat]
    exact ih.addHost h

end Warren.Hostlist
