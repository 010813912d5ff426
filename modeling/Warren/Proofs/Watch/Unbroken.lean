import Warren.Proofs.Watch.View

/-!
# Watches that never go back

As long as no poll goes back to the start, the position of a watch only grows, and it is at the
start only while nothing was handed over. Without compactions and without failures that say so, no
version is ever gone.
-/

namespace Warren

namespace Api

namespace Server

variable {s t u : Server}

/-! ### Servers that forget nothing -/

/-- No version is ever gone: nothing is compacted, and no watch is to fail as if it were. -/
structure Remembers (s : Server) : Prop where
  compacted : s.compactedBefore = 0
  granted : ∀ fault, some fault ∈ s.outcomes .watch → fault.isGone = false

theorem mem_of_outcome {verb : Verb} {fault : Fault} (h : (s.outcome verb).1 = some fault) :
    some fault ∈ s.outcomes verb := by
  unfold outcome at h
  split at h
  · cases h
  · rename_i next rest hnext
    rw [hnext, ← h]
    exact List.mem_cons_self ..

theorem remembers_empty : Remembers empty := ⟨rfl, fun _ h => by cases h⟩

/-- Nothing more is compacted, and no outcomes of watches are added. -/
structure Eases (s t : Server) : Prop where
  compacted : t.compactedBefore = s.compactedBefore
  outcomes : ∀ out ∈ t.outcomes .watch, out ∈ s.outcomes .watch

theorem Eases.refl (s : Server) : Eases s s := ⟨rfl, fun _ h => h⟩

theorem Eases.trans (h : Eases s t) (h' : Eases t u) : Eases s u :=
  ⟨h'.compacted.trans h.compacted, fun out hout => h.outcomes out (h'.outcomes out hout)⟩

theorem Eases.remembers (h : Eases s t) (hs : s.Remembers) : t.Remembers :=
  ⟨h.compacted.trans hs.compacted, fun fault hf => hs.granted fault (h.outcomes _ hf)⟩

theorem eases_noted (s : Server) (q : Request) : Eases s (s.noted q) := by
  unfold noted outcome receive
  dsimp only
  split
  · exact ⟨rfl, fun _ h => h⟩
  · rename_i next rest hnext
    refine ⟨rfl, fun out hout => ?_⟩
    dsimp only at hout
    split at hout
    · rename_i hverb
      rw [hverb, hnext]
      exact List.mem_cons_of_mem _ hout
    · exact hout

theorem eases_remove (s : Server) (key : Key) : Eases s (s.remove key) := by
  unfold remove
  split
  · exact .refl s
  · exact ⟨rfl, fun _ h => h⟩

theorem eases_run_answer {act : Server → Except Fault α × Server}
    (hact : ∀ s, Eases s (act s).2) (q : Request) (s : Server) :
    Eases s ((answer q act).run s).2 := by
  rw [run_answer]
  cases (s.outcome q.verb).1 with
  | none => exact (eases_noted s q).trans (hact _)
  | some fault => exact eases_noted s q

theorem eases_serve (hscripted : s.scripted = []) (q : Request) : Eases s (s.serve q) := by
  cases q with
  | get kind space name =>
    refine eases_run_answer (fun t => ?_) _ s
    cases t.object? (kind.key space name) <;> exact .refl t
  | list kind scope selector limit => exact eases_run_answer (fun t => .refl t) _ s
  | create kind space body =>
    refine eases_run_answer (fun t => ?_) _ s
    unfold applyCreate
    split
    · exact .refl t
    · exact ⟨rfl, fun _ h => h⟩
  | patch kind space name body =>
    refine eases_run_answer (fun t => ?_) _ s
    unfold applyPatch
    split
    · exact .refl t
    · dsimp only
      split
      · exact eases_remove t _
      · exact ⟨rfl, fun _ h => h⟩
  | delete kind space name =>
    refine eases_run_answer (fun t => ?_) _ s
    unfold applyDelete
    split
    · exact .refl t
    · dsimp only
      split
      · exact eases_remove t _
      · exact ⟨rfl, fun _ h => h⟩
  | watch kind scope version =>
    change Eases s (watch kind scope version s).2
    simp only [watch, hscripted]
    exact eases_run_answer (fun t => .refl t) _ s

theorem eases_serveAll (hs : s.Logged) (hscripted : s.scripted = []) (qs : List Request) :
    Eases s (s.serveAll qs) := by
  induction qs generalizing s with
  | nil => exact .refl s
  | cons q rest ih =>
    have h := evolves_serve hs hscripted q
    exact (eases_serve hscripted q).trans (ih (h.logged hs) (h.scripted.trans hscripted))

end Server

/-- Something that happens to a server without a compaction and without a failure that says that a
version is gone. -/
def Occurrence.Plain : Occurrence → Prop
  | .compact _ => False
  | .script verb added => verb = .watch → ∀ fault, some fault ∈ added → fault.isGone = false
  | .put _ _ | .update _ _ | .request _ => True

theorem Server.Remembers.occur {s : Server} (hs : s.Remembers) (hscripted : s.scripted = [])
    {o : Occurrence} (plain : o.Plain) : (s.occur o).Remembers := by
  cases o with
  | put key object => exact ⟨hs.compacted, hs.granted⟩
  | update key patch => exact ⟨hs.compacted, hs.granted⟩
  | request asked => exact (eases_serve hscripted asked).remembers hs
  | compact asEvent => cases plain
  | script verb added =>
    refine ⟨hs.compacted, fun fault hfault => ?_⟩
    simp only [Server.occur, Server.script] at hfault
    split at hfault
    · rename_i hverb
      rcases List.mem_append.mp hfault with hfault | hfault
      · exact hs.granted fault hfault
      · exact plain hverb.symm fault hfault
    · exact hs.granted fault hfault

end Api

theorem Watch.gone_receive_of_remembers {s : Api.Server} (hs : s.Logged) (h : s.Remembers)
    (w : Watch) (now : Span) :
    (receive now w.cursor (w.answerFrom s w.cursor)).gone = false := by
  unfold answerFrom Api.Server.reply
  cases hout : (s.outcome .watch).1 with
  | some fault =>
    have hfault : fault.isGone = false := h.granted fault (Api.Server.mem_of_outcome hout)
    simp [receive, hfault, Delivery.none]
  | none =>
    rw [Option.elim_none]
    rcases s.eventsSince_cases w.kind w.space w.cursor.position with htold | ⟨_, hold, _⟩
    · rw [htold]
      refine (deliver_of_carries _ fun e he => ?_).2.1
      obtain ⟨c, _, _, _, hcarries⟩ := hs.exists_of_mem_told he
      exact ⟨_, _, hcarries⟩
    · rw [h.compacted] at hold
      omega

namespace Viewing

open Api

variable {v : Viewing} {now : Span} {a : Act} {acts : List Act}

def Steady (v : Viewing) : Act → Prop
  | .occur _ => True
  | .poll now => ¬v.Restarts now

def Unbroken : Viewing → List Act → Prop
  | _, [] => True
  | v, a :: rest => v.Steady a ∧ Unbroken (v.step a) rest

theorem unbroken_append (v : Viewing) (acts rest : List Act) :
    v.Unbroken (acts ++ rest) ↔ v.Unbroken acts ∧ (v.run acts).Unbroken rest := by
  induction acts generalizing v with
  | nil => simp [Unbroken]
  | cons a acts ih =>
    simp only [List.cons_append, Unbroken, run_cons, ih, and_assoc]

theorem version_le_step (hv : v.Sound) (a : Act) :
    v.server.version ≤ (v.step a).server.version := by
  cases a with
  | occur o => exact (Server.evolves_occur hv.logged hv.scripted o).version_le
  | poll now => exact Nat.le_of_eq (polled hv now).1.store.version.symm

theorem version_le_run (hv : v.Sound) (acts : List Act) :
    v.server.version ≤ (v.run acts).server.version := by
  induction acts generalizing v with
  | nil => exact Nat.le_refl _
  | cons a rest ih => exact Nat.le_trans (version_le_step hv a) (ih (sound_step hv a))

theorem position_poll (hv : v.Sound) (steady : ¬v.Restarts now)
    (small : v.server.version < UInt64.size) :
    (v.poll now).seen = v.seen ∧ (v.poll now).position = v.position ∨
      ∃ e c, v.Answered now ∧ (v.told now).getLast? = some e ∧ c ∈ v.server.log ∧
        c.key.isIn v.watch.kind v.watch.space = true ∧ v.position < c.version ∧
        e.Carries c.key c.version ∧ (v.poll now).position = c.version := by
  have horigin := origin_of_not_restarts steady
  obtain ⟨_, polled⟩ := polled hv now
  cases polled with
  | unanswered _ hseen hposition => exact Or.inl ⟨hseen, hposition.trans horigin⟩
  | answered answered hseen hposition =>
    rcases positionAfter_told hv now with ⟨hnil, hsame⟩ |
      ⟨e, c, hlast, hc, hin, hlt, hcarries, hafter⟩
    · refine Or.inl ⟨?_, by rw [hposition, hsame, horigin]⟩
      rw [hseen, hnil, List.append_nil]
    · have hle := (hv.logged.numbered c hc).2
      rw [if_pos (by omega)] at hafter
      exact Or.inr ⟨e, c, answered, hlast, hc, hin, horigin ▸ hlt, hcarries,
        hposition.trans hafter⟩

theorem position_le_step (hv : v.Sound) (steady : v.Steady a)
    (small : v.server.version < UInt64.size) : v.position ≤ (v.step a).position := by
  cases a with
  | occur o => exact Nat.le_refl _
  | poll now =>
    -- either nothing was told, or the last change told is beyond the position
    change v.position ≤ (v.poll now).position
    rcases position_poll hv steady small with ⟨_, hsame⟩ | ⟨_, c, _, _, _, _, hlt, _, hposition⟩
    · omega
    · omega

theorem position_le_run (hv : v.Sound) (unbroken : v.Unbroken acts)
    (small : (v.run acts).server.version < UInt64.size) :
    v.position ≤ (v.run acts).position := by
  induction acts generalizing v with
  | nil => exact Nat.le_refl _
  | cons a rest ih =>
    have hstep := sound_step hv a
    have hle := version_le_run hv (a :: rest)
    exact Nat.le_trans (position_le_step hv unbroken.1 (by omega)) (ih hstep unbroken.2 small)

/-- A watch is at the start only while it handed nothing over. -/
def Onward (v : Viewing) : Prop := v.position = 0 → v.seen = []

theorem onward_step (hv : v.Sound) (steady : v.Steady a)
    (small : v.server.version < UInt64.size) (h : v.Onward) : (v.step a).Onward := by
  cases a with
  | occur o => exact h
  | poll now =>
    intro hzero
    change (v.poll now).position = 0 at hzero
    rcases position_poll hv steady small with ⟨hseen, hsame⟩ | ⟨_, c, _, _, _, _, hlt, _, hposition⟩
    · exact hseen.trans (h (hsame ▸ hzero))
    · omega

theorem onward_run (hv : v.Sound) (unbroken : v.Unbroken acts)
    (small : (v.run acts).server.version < UInt64.size) (h : v.Onward) : (v.run acts).Onward := by
  induction acts generalizing v with
  | nil => exact h
  | cons a rest ih =>
    have hle := version_le_run hv (a :: rest)
    exact ih (sound_step hv a) unbroken.2 small (onward_step hv unbroken.1 (by omega) h)

/-- What every step of a run that does not go back keeps holds after it. -/
theorem unbroken_induction {P : Viewing → Prop}
    (hstep : ∀ v a, v.Sound → v.Onward → v.Steady a → P v → P (v.step a))
    (hv : v.Sound) (onward : v.Onward) (unbroken : v.Unbroken acts)
    (small : (v.run acts).server.version < UInt64.size) (h : P v) : P (v.run acts) := by
  induction acts generalizing v with
  | nil => exact h
  | cons a rest ih =>
    have hle := version_le_run hv (a :: rest)
    have onward' := onward_step hv unbroken.1 (by omega) onward
    exact ih (sound_step hv a) onward' unbroken.2 small (hstep v a hv onward unbroken.1 h)

/-- A watch from the start, of a server that is empty. -/
def start (kind : Kind) (space : String) (backoff : Backoff) : Viewing :=
  ⟨.empty, ⟨kind, space, .at Watch.start backoff⟩, []⟩

def Sample.opening : Viewing := start .workflow defaultSpace Sample.backoff

section

variable (kind : Kind) (space : String) (backoff : Backoff)

theorem position_start : (start kind space backoff).position = 0 :=
  Watch.position_of_version_start rfl

theorem sound_start : (start kind space backoff).Sound where
  logged := Server.logged_empty
  scripted := rfl
  behind := by rw [position_start]; exact Nat.zero_le _

theorem onward_start : (start kind space backoff).Onward := fun _ => rfl

end

/-! ### Runs without anything that makes a version gone -/

def Act.Plain : Act → Prop
  | .occur o => o.Plain
  | .poll _ => True

theorem steady_of_remembers (hv : v.Sound) (h : v.server.Remembers) (now : Span) :
    ¬v.Restarts now := by
  unfold Restarts answers
  cases hdue : v.watch.cursor.isDue now with
  | false =>
    obtain ⟨_, hanswers⟩ := Watch.poll_of_not_due (s := v.server) hdue
    simp [hanswers]
  | true =>
    have hkept := Watch.gone_receive_of_remembers hv.logged h v.watch now
    obtain ⟨_, hanswers⟩ := Watch.poll_once hv.scripted hdue rfl hkept
    simp [hanswers]

theorem unbroken_of_plain (hv : v.Sound) (h : v.server.Remembers)
    (plain : ∀ a ∈ acts, a.Plain) : v.Unbroken acts := by
  induction acts generalizing v with
  | nil => trivial
  | cons a rest ih =>
    have hrest : ∀ a ∈ rest, a.Plain := fun b hb => plain b (List.mem_cons_of_mem _ hb)
    have ha : a.Plain := plain a (List.mem_cons_self ..)
    cases a with
    | occur o => exact ⟨trivial, ih (sound_occur hv o) (h.occur hv.scripted ha) hrest⟩
    | poll now =>
      obtain ⟨versions, _, hserver⟩ := served_poll v now
      have heases : Server.Eases v.server (v.poll now).server :=
        hserver ▸ Server.eases_serveAll hv.logged hv.scripted _
      exact ⟨steady_of_remembers hv h now, ih (sound_poll hv now) (heases.remembers h) hrest⟩

end Viewing

end Warren
