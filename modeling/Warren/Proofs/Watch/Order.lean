import Warren.Proofs.Watch.Unbroken

/-!
# The order of the events of a watch

Changes are told in the order of their versions. A listing is not: it is in the order of the keys,
and the watch goes on from the version of its last item. What happened to an object of the listing
between these two versions is told again (`Outdated`), and nothing else is ever out of order.
-/

namespace Warren

namespace Api

/-- The versions of the events about one object do not decrease. -/
def InOrder (events : List Event) : Prop :=
  events.Pairwise fun a b => a.name? = b.name? → ∀ m ∈ a.number?, ∀ n ∈ b.number?, m ≤ n

instance : DecidablePred InOrder := fun events =>
  inferInstanceAs (Decidable (events.Pairwise fun a b =>
    a.name? = b.name? → ∀ m ∈ a.number?, ∀ n ∈ b.number?, m ≤ n))

theorem InOrder.of_prefix {events more : List Event} (h : InOrder more) (hp : events <+: more) :
    InOrder events := List.Pairwise.sublist hp.sublist h

namespace Server.Logged

variable {s : Server}

theorem inOrder_listing (hs : s.Logged) (kind : Kind) (space : String) :
    InOrder (s.told kind space 0) := by
  have hentries : (s.entriesIn kind space).Pairwise fun a b => a.1 < b.1 := hs.sorted.filter _
  rw [told_zero_eq_map, InOrder, List.pairwise_map]
  refine hentries.imp_of_mem ?_
  rintro ⟨key, object⟩ ⟨key', object'⟩ hmem hmem' hlt hname
  obtain ⟨hstored, hin⟩ := hs.mem_entriesIn.mp hmem
  obtain ⟨hstored', hin'⟩ := hs.mem_entriesIn.mp hmem'
  obtain ⟨_, _, _, _, hcarries⟩ := hs.exists_latest? hstored
  obtain ⟨_, _, _, _, hcarries'⟩ := hs.exists_latest? hstored'
  simp only [hcarries.name?, hcarries'.name?, Option.some.injEq] at hname
  -- one name in one collection is one key, but the keys of the entries differ
  have hsame : key = key' := by
    rw [Key.eq_key_of_isIn hin, Key.eq_key_of_isIn hin', hname]
  rw [hsame] at hlt
  exact absurd hlt (Std.Irrefl.irrefl key')

theorem inOrder_changes (hs : s.Logged) (kind : Kind) (space : String) (since : Nat) :
    InOrder ((s.changesSince kind space since).map Change.event) := by
  rw [InOrder, List.pairwise_map]
  refine (hs.growing.filter _).imp_of_mem ?_
  intro a b ha hb hlt _ m hm n hn
  have hnumber (c : Change) (hc : c ∈ s.changesSince kind space since) :
      c.event.number? = some c.version := (hs.carries c (List.mem_filter.mp hc).1).number?
  rw [hnumber a ha] at hm
  rw [hnumber b hb] at hn
  cases hm
  cases hn
  exact Nat.le_of_lt hlt

end Server.Logged

end Api

namespace Viewing

open Api

variable {v : Viewing} {now : Span} {a : Act} {acts : List Act}

/-! ### What was handed over -/

theorem prefix_seen_step (hv : v.Sound) (a : Act) : v.seen <+: (v.step a).seen := by
  cases a with
  | occur o => exact List.prefix_rfl
  | poll now =>
    change v.seen <+: (v.poll now).seen
    cases (polled hv now).2 with
    | answered _ hseen _ => exact hseen ▸ List.prefix_append _ _
    | unanswered _ hseen _ => exact hseen ▸ List.prefix_rfl

theorem prefix_seen_run (hv : v.Sound) (acts : List Act) : v.seen <+: (v.run acts).seen := by
  induction acts generalizing v with
  | nil => exact List.prefix_rfl
  | cons a rest ih => exact (prefix_seen_step hv a).trans (ih (sound_step hv a))

theorem exists_answered (hv : v.Sound) (h : (v.run acts).seen ≠ v.seen) :
    ∃ mid later post, acts = mid ++ .poll later :: post ∧ (v.run mid).Answered later := by
  induction acts generalizing v with
  | nil => exact absurd rfl h
  | cons a rest ih =>
    by_cases hsame : (v.step a).seen = v.seen
    · obtain ⟨mid, later, post, rfl, answered⟩ := ih (sound_step hv a) (hsame ▸ h)
      exact ⟨a :: mid, later, post, rfl, answered⟩
    · cases a with
      | occur o => exact absurd rfl hsame
      | poll now =>
        cases (polled hv now).2 with
        | answered answered _ _ => exact ⟨[], now, rest, rfl, answered⟩
        | unanswered _ hseen _ => exact absurd hseen hsame

/-- Every event that was handed over has the key and the version of a change. -/
def Genuine (v : Viewing) : Prop :=
  ∀ e ∈ v.seen, ∃ c ∈ v.server.log, c.key.isIn v.watch.kind v.watch.space = true ∧
    e.Carries c.key c.version

theorem genuine_step (v : Viewing) (a : Act) (hv : v.Sound) (h : v.Genuine) :
    (v.step a).Genuine := by
  cases a with
  | occur o =>
    intro e he
    obtain ⟨c, hc, hin, hcarries⟩ := h e he
    exact ⟨c, (Server.evolves_occur hv.logged hv.scripted o).log_subset hc, hin, hcarries⟩
  | poll now =>
    obtain ⟨looks, polled⟩ := polled hv now
    intro e he
    change e ∈ (v.poll now).seen at he
    change ∃ c ∈ (v.poll now).server.log,
      c.key.isIn (v.poll now).watch.kind (v.poll now).watch.space = true ∧ e.Carries c.key c.version
    rw [looks.store.log, looks.kind, looks.space]
    cases polled with
    | unanswered _ hseen _ => exact h e (hseen ▸ he)
    | answered _ hseen _ =>
      rw [hseen] at he
      rcases List.mem_append.mp he with he | he
      · exact h e he
      · obtain ⟨c, hc, hin, _, hcarries⟩ := hv.logged.exists_of_mem_told he
        exact ⟨c, hc, hin, hcarries⟩

/-! ### What is out of order -/

/-- Nothing beyond the position of the watch is older than what was handed over. -/
def InStep (v : Viewing) : Prop :=
  ∀ e ∈ v.seen, ∀ c ∈ v.server.log, c.key.isIn v.watch.kind v.watch.space = true →
    e.name? = some c.key.name → v.position < c.version → ∀ n, e.number? = some n → n ≤ c.version

/-- An object that is stored has an older change beyond the position of the watch. -/
def Outdated (v : Viewing) : Prop :=
  ∃ old ∈ v.server.log, ∃ new ∈ v.server.log, old.key = new.key ∧
    new.key.isIn v.watch.kind v.watch.space = true ∧ (v.server.object? new.key).isSome = true ∧
    v.position < old.version ∧ old.version < new.version

theorem told_of_steady (steady : ¬v.Restarts now) (hpos : 0 < v.position) :
    v.told now =
      (v.server.changesSince v.watch.kind v.watch.space v.position).map Change.event := by
  rw [told, origin_of_not_restarts steady, Server.told_of_pos hpos]

/-- A poll beyond the start keeps the order if and only if nothing beyond the position is older than
what was handed over. -/
theorem inOrder_poll (hv : v.Sound) (hpos : 0 < v.position) (steady : ¬v.Restarts now)
    (answered : v.Answered now) : InOrder (v.poll now).seen ↔ InOrder v.seen ∧ v.InStep := by
  have hwindow := hv.logged.inOrder_changes v.watch.kind v.watch.space v.position
  rw [seen_poll hv answered, told_of_steady steady hpos, InOrder, List.pairwise_append]
  refine ⟨fun ⟨hold, _, hcross⟩ => ⟨hold, ?_⟩, fun ⟨hold, hin⟩ => ⟨hold, hwindow, ?_⟩⟩
  · intro e he c hc hkey hname hlt n hn
    have hmem : c ∈ v.server.changesSince v.watch.kind v.watch.space v.position :=
      Server.mem_changesSince.mpr ⟨hc, hkey, hlt⟩
    have hcarries := hv.logged.carries c hc
    exact hcross e he c.event (List.mem_map_of_mem hmem) (hname.trans hcarries.name?.symm) n hn
      c.version hcarries.number?
  · intro e he e' he' hname m hm n hn
    obtain ⟨c, hmem, rfl⟩ := List.mem_map.mp he'
    obtain ⟨hc, hkey, hlt⟩ := Server.mem_changesSince.mp hmem
    have hcarries := hv.logged.carries c hc
    rw [hcarries.number?] at hn
    cases hn
    exact hin e he c hc hkey (hname.trans hcarries.name?) hlt m hm

theorem inStep_poll (hv : v.Sound) (hpos : 0 < v.position) (steady : ¬v.Restarts now)
    (small : v.server.version < UInt64.size) (answered : v.Answered now) : (v.poll now).InStep := by
  have looks := (polled hv now).1
  have htold := told_of_steady steady hpos
  intro e _ c hc hin _ hlt
  rw [looks.store.log] at hc
  rw [looks.kind, looks.space] at hin
  have hle : v.position ≤ (v.poll now).position :=
    position_le_step hv (a := .poll now) steady small
  have hmem : c ∈ v.server.changesSince v.watch.kind v.watch.space v.position :=
    Server.mem_changesSince.mpr ⟨hc, hin, by omega⟩
  rcases position_poll hv steady small with ⟨hseen, _⟩ |
    ⟨e', c', _, hlast, _, _, _, hcarries', hposition⟩
  · have hnil : v.told now = [] := by
      rw [seen_poll hv answered] at hseen
      exact List.append_right_eq_self.mp hseen
    rw [htold, List.map_eq_nil_iff] at hnil
    rw [hnil] at hmem
    cases hmem
  · rw [htold, List.getLast?_map] at hlast
    obtain ⟨last, hlast', rfl⟩ := Option.map_eq_some_iff.mp hlast
    have hlog : last ∈ v.server.log :=
      (Server.mem_changesSince.mp (List.mem_of_getLast? hlast')).1
    have hcarries := hv.logged.carries last hlog
    have hversion : last.version = c'.version :=
      Option.some.inj (hcarries.number?.symm.trans hcarries'.number?)
    have hmax := le_of_getLast?_of_pairwise_lt (hv.logged.growing.filter _) hlast' c hmem
    omega

theorem inStep_occur (hv : v.Sound) (genuine : v.Genuine) (hin : v.InStep) (o : Occurrence) :
    (v.step (.occur o)).InStep := by
  intro e he c hc hkey hname hlt n hn
  change c ∈ (v.server.occur o).log at hc
  rcases Server.evolves_occur hv.logged hv.scripted o with hsame | ⟨change, hrecords⟩
  · exact hin e he c (hsame.log ▸ hc) hkey hname hlt n hn
  · rw [hrecords.log] at hc
    rcases List.mem_append.mp hc with hc | hc
    · exact hin e he c hc hkey hname hlt n hn
    · obtain rfl := List.mem_singleton.mp hc
      obtain ⟨c', hc', _, hcarries⟩ := genuine e he
      have hversion : n = c'.version := Option.some.inj (hn.symm.trans hcarries.number?)
      have hle := (hv.logged.numbered c' hc').2
      have hnumber := hrecords.number
      omega

/-- What gets out of step was listed while an older change was beyond the last item. -/
theorem outdated_of_not_inStep (hv : v.Sound) (onward : v.Onward) (genuine : v.Genuine)
    (steady : v.Steady a) (small : v.server.version < UInt64.size) (hin : v.InStep)
    (h : ¬(v.step a).InStep) :
    ∃ now, a = .poll now ∧ v.position = 0 ∧ v.Answered now ∧ (v.poll now).Outdated := by
  cases a with
  | occur o => exact absurd (inStep_occur hv genuine hin o) h
  | poll now =>
    change ¬(v.poll now).InStep at h
    obtain ⟨looks, polled⟩ := polled hv now
    have horigin := origin_of_not_restarts steady
    cases polled with
    | unanswered _ hseen hposition =>
      refine absurd ?_ h
      intro e he c hc hkey hname hlt
      rw [looks.store.log] at hc
      rw [looks.kind, looks.space] at hkey
      rw [hposition, horigin] at hlt
      exact hin e (hseen ▸ he) c hc hkey hname hlt
    | answered answered hseen _ =>
      by_cases hzero : v.position = 0
      · refine ⟨now, rfl, hzero, answered, ?_⟩
        simp only [InStep, Classical.not_forall] at h
        obtain ⟨e, he, c, hc, hin', hname, hlt, n, hn, hnot⟩ := h
        rw [looks.store.log] at hc
        rw [looks.kind, looks.space] at hin'
        rw [hseen, onward hzero, List.nil_append, told, horigin, hzero,
          Server.told_zero_eq_map] at he
        obtain ⟨⟨key, object⟩, hmem, rfl⟩ := List.mem_map.mp he
        obtain ⟨hstored, hkey⟩ := hv.logged.mem_entriesIn.mp hmem
        obtain ⟨new, hnew, _, rfl, hcarries⟩ := hv.logged.exists_latest? hstored
        have hversion : n = new.version := Option.some.inj (hn.symm.trans hcarries.number?)
        have hsame : c.key = new.key := by
          have hnames : c.key.name = new.key.name :=
            Option.some.inj (hname.symm.trans hcarries.name?)
          rw [Key.eq_key_of_isIn hin', Key.eq_key_of_isIn hkey, hnames]
        refine ⟨c, looks.store.log ▸ hc, new, looks.store.log ▸ hnew, hsame, ?_, ?_, hlt, by omega⟩
        · rw [looks.kind, looks.space]
          exact hkey
        · rw [looks.store.object?, hstored]
          rfl
      · exact absurd (inStep_poll hv (by omega) steady small answered) h

theorem not_inStep_of_outdated (hv : v.Sound) (hzero : v.position = 0) (answered : v.Answered now)
    (h : (v.poll now).Outdated) : ¬(v.poll now).InStep := by
  have looks := (polled hv now).1
  obtain ⟨old, hold, new, hnew, hkey, hin, hstored, hlt, hnewer⟩ := h
  obtain ⟨object, hobject⟩ := Option.isSome_iff_exists.mp hstored
  have horigin : v.origin now = 0 := Nat.le_zero.mp (hzero ▸ v.origin_le now)
  rw [looks.store.log] at hold hnew
  rw [looks.kind, looks.space] at hin
  rw [looks.store.object?] at hobject
  -- the listing has the object at its latest version
  obtain ⟨latest, hlatest, hc, hsame, hcarries⟩ := hv.logged.exists_latest? hobject
  have hlisted : Event.added object ∈ (v.poll now).seen := by
    rw [seen_poll hv answered, told, horigin, Server.told_zero_eq_map]
    refine List.mem_append_right _ (List.mem_map.mpr ⟨(new.key, object), ?_, rfl⟩)
    exact hv.logged.mem_entriesIn.mpr ⟨hobject, hin⟩
  have hle := hv.logged.le_latest? hc new hnew rfl
  intro hstep
  have hbound := hstep _ hlisted old (looks.store.log ▸ hold)
    (by rw [looks.kind, looks.space, hkey]; exact hin) (by rw [hkey]; exact hcarries.name?) hlt
    latest.version hcarries.number?
  omega

/-! ### Runs -/

theorem inOrder_step (hv : v.Sound) (onward : v.Onward) (steady : v.Steady a) (hin : v.InStep)
    (h : InOrder v.seen) : InOrder (v.step a).seen := by
  cases a with
  | occur o => exact h
  | poll now =>
    change InOrder (v.poll now).seen
    cases (polled hv now).2 with
    | unanswered _ hseen _ => exact hseen ▸ h
    | answered answered hseen _ =>
      by_cases hzero : v.position = 0
      · rw [hseen, onward hzero, List.nil_append, told, origin_of_not_restarts steady, hzero]
        exact hv.logged.inOrder_listing v.watch.kind v.watch.space
      · exact (inOrder_poll hv (by omega) steady answered).mpr ⟨h, hin⟩

/-- A watch lists from the start while an older change of a listed object is beyond the last item,
and a later poll is answered. -/
def Replays (v : Viewing) (acts : List Act) : Prop :=
  ∃ pre now mid later post, acts = pre ++ .poll now :: (mid ++ .poll later :: post) ∧
    (v.run pre).position = 0 ∧ (v.run pre).Answered now ∧ ((v.run pre).poll now).Outdated ∧
    (((v.run pre).poll now).run mid).Answered later

theorem replays_of_not_inOrder (hv : v.Sound) (onward : v.Onward) (genuine : v.Genuine)
    (unbroken : v.Unbroken acts) (small : (v.run acts).server.version < UInt64.size)
    (hin : v.InStep) (hord : InOrder v.seen) (h : ¬InOrder (v.run acts).seen) :
    v.Replays acts := by
  induction acts generalizing v with
  | nil => exact absurd hord h
  | cons a rest ih =>
    have hle := version_le_run hv (a :: rest)
    have hsmall : v.server.version < UInt64.size := by omega
    have hsound := sound_step hv a
    have hord' : InOrder (v.step a).seen := inOrder_step hv onward unbroken.1 hin hord
    by_cases hin' : (v.step a).InStep
    · obtain ⟨pre, now, mid, later, post, rfl, hreplay⟩ :=
        ih hsound (onward_step hv unbroken.1 hsmall onward) (genuine_step v a hv genuine)
          unbroken.2 small hin' hord' h
      exact ⟨a :: pre, now, mid, later, post, rfl, hreplay⟩
    · obtain ⟨now, rfl, hzero, answered, houtdated⟩ :=
        outdated_of_not_inStep hv onward genuine unbroken.1 hsmall hin hin'
      have hmore : ((v.poll now).run rest).seen ≠ (v.poll now).seen := fun hsame =>
        h (by rw [run_cons]; exact hsame ▸ hord')
      obtain ⟨mid, later, post, rfl, answered'⟩ := exists_answered hsound hmore
      exact ⟨[], now, mid, later, post, rfl, hzero, answered, houtdated, answered'⟩

theorem not_inOrder_poll (hv : v.Sound) (onward : v.Onward) (steady : ¬v.Restarts now)
    (answered : v.Answered now) (h : ¬v.InStep) : ¬InOrder (v.poll now).seen := by
  have hpos : 0 < v.position := by
    refine Nat.pos_of_ne_zero fun hzero => h ?_
    intro e he
    rw [onward hzero] at he
    cases he
  exact fun hord => h ((inOrder_poll hv hpos steady answered).mp hord).2

theorem not_inStep_step (hv : v.Sound) (onward : v.Onward) (steady : v.Steady a)
    (h : ¬v.InStep) : ¬InOrder (v.step a).seen ∨ ¬(v.step a).InStep := by
  cases a with
  | occur o =>
    refine Or.inr fun hin => h fun e he c hc => ?_
    exact hin e he c ((Server.evolves_occur hv.logged hv.scripted o).log_subset hc)
  | poll now =>
    obtain ⟨looks, polled⟩ := polled hv now
    cases polled with
    | answered answered _ _ => exact Or.inl (not_inOrder_poll hv onward steady answered h)
    | unanswered _ hseen hposition =>
      refine Or.inr fun hin => h fun e he c hc hkey hname hlt => ?_
      change InStep (v.poll now) at hin
      unfold InStep at hin
      rw [hseen, hposition, origin_of_not_restarts steady, looks.store.log, looks.kind,
        looks.space] at hin
      exact hin e he c hc hkey hname hlt

theorem not_inStep_run (hv : v.Sound) (onward : v.Onward) (unbroken : v.Unbroken acts)
    (small : (v.run acts).server.version < UInt64.size) (h : ¬v.InStep) :
    ¬InOrder (v.run acts).seen ∨ ¬(v.run acts).InStep := by
  refine unbroken_induction (P := fun v => ¬InOrder v.seen ∨ ¬v.InStep) ?_ hv onward unbroken
    small (Or.inr h)
  intro v a hv onward steady h
  rcases h with hord | hin
  · exact Or.inl fun hord' => hord (hord'.of_prefix (prefix_seen_step hv a))
  · exact not_inStep_step hv onward steady hin

theorem not_inOrder_of_replays (hv : v.Sound) (onward : v.Onward) (unbroken : v.Unbroken acts)
    (small : (v.run acts).server.version < UInt64.size) (h : v.Replays acts) :
    ¬InOrder (v.run acts).seen := by
  obtain ⟨pre, now, mid, later, post, rfl, hzero, answered, houtdated, answered'⟩ := h
  obtain ⟨unbroken₁, steady, unbroken₂⟩ := (unbroken_append _ _ _).mp unbroken
  obtain ⟨unbroken₂, steady', _⟩ := (unbroken_append _ _ _).mp unbroken₂
  -- the run by its parts: the listing, what follows it, the later poll, and the rest
  rw [run_append, run_cons, run_append, run_cons] at small ⊢
  have hlist := sound_run hv pre
  have hafter := sound_step hlist (.poll now)
  have hlater := sound_run hafter mid
  have hrest := sound_step hlater (.poll later)
  have hle₁ := version_le_step hlist (.poll now)
  have hle₂ := version_le_run hafter mid
  have hle₃ := version_le_step hlater (.poll later)
  have hle₄ := version_le_run hrest post
  have onward₁ := onward_run hv unbroken₁ (by omega) onward
  have onward₂ := onward_step hlist steady (by omega) onward₁
  have onward₃ := onward_run hafter unbroken₂ (by omega) onward₂
  have hbroken : ¬InOrder (((v.run pre).poll now).run mid |>.poll later).seen := by
    rcases not_inStep_run hafter onward₂ unbroken₂ (by omega)
      (not_inStep_of_outdated hlist hzero answered houtdated) with hord | hin
    · exact fun hord' => hord (hord'.of_prefix (prefix_seen_step hlater (.poll later)))
    · exact not_inOrder_poll hlater onward₃ steady' answered' hin
  exact fun hord => hbroken (hord.of_prefix (prefix_seen_run hrest post))

section

variable (kind : Kind) (space : String) (backoff : Backoff)

/-- Without compactions and without failures that say that a version is gone, the position of a
watch from the start never decreases, and the events about each object are handed over in the order
of their versions, unless a listing was outdated and another answer followed. -/
theorem order_of_plain {acts : List Act} (plain : ∀ a ∈ acts, a.Plain)
    (small : ((start kind space backoff).run acts).server.version < UInt64.size) :
    (∀ pre post, acts = pre ++ post →
      ((start kind space backoff).run pre).position ≤
        ((start kind space backoff).run acts).position) ∧
    (InOrder ((start kind space backoff).run acts).seen ↔
      ¬(start kind space backoff).Replays acts) := by
  have hstart := sound_start kind space backoff
  have onward := onward_start kind space backoff
  have unbroken := unbroken_of_plain hstart Server.remembers_empty plain
  constructor
  · rintro pre post rfl
    rw [run_append] at small ⊢
    exact position_le_run (sound_run hstart pre) ((unbroken_append _ _ _).mp unbroken).2 small
  · refine ⟨fun hord h => not_inOrder_of_replays hstart onward unbroken small h hord, fun h => ?_⟩
    have genuine : (start kind space backoff).Genuine := fun e he => by cases he
    have hin : (start kind space backoff).InStep := fun e he => by cases he
    have hord : InOrder (start kind space backoff).seen := List.Pairwise.nil
    exact Classical.not_not.mp fun hnot =>
      h (replays_of_not_inOrder hstart onward genuine unbroken small hin hord hnot)

end

/-- The theorem applies to two workflows, where the later one in the listing was changed last. -/
theorem order_of_plain_pair :
    let acts : List Act := [Sample.put "fluxjob-1" .proposal, Sample.put "fluxjob-1" .setup,
      Sample.put "fluxjob-2" .proposal, .poll .zero, Sample.put "fluxjob-1" .dataIn, .poll .zero]
    (∀ a ∈ acts, a.Plain) ∧ (Sample.opening.run acts).server.version < UInt64.size ∧
      (∀ pre post, acts = pre ++ post →
        (Sample.opening.run pre).position ≤ (Sample.opening.run acts).position) ∧
      (InOrder (Sample.opening.run acts).seen ↔ ¬Sample.opening.Replays acts) := by
  intro acts
  have plain : ∀ a ∈ acts, a.Plain := by simp [acts, Sample.put, Act.Plain, Occurrence.Plain]
  have small : (Sample.opening.run acts).server.version < UInt64.size := by decide +kernel
  exact ⟨plain, small, order_of_plain .workflow defaultSpace Sample.backoff plain small⟩

/-- The first of two workflows is listed with its last change, and both of its changes are told once
more, as the listing ended with an older workflow. -/
theorem not_inOrder_pair :
    let acts : List Act := [Sample.put "fluxjob-2" .proposal, Sample.put "fluxjob-1" .proposal,
      Sample.put "fluxjob-1" .setup, .poll .zero, .poll .zero]
    (∀ a ∈ acts, a.Plain) ∧ (Sample.opening.run acts).server.version < UInt64.size ∧
      ¬InOrder (Sample.opening.run acts).seen := by
  intro acts
  have plain : ∀ a ∈ acts, a.Plain := by simp [acts, Sample.put, Act.Plain, Occurrence.Plain]
  have small : (Sample.opening.run acts).server.version < UInt64.size := by decide +kernel
  have disorder : ¬InOrder (Sample.opening.run acts).seen := by decide +kernel
  exact ⟨plain, small, disorder⟩

end Viewing

end Warren
