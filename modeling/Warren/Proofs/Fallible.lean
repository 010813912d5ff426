/-!
# Work that may fail

Conversations with the server, work on a job and answers to requests are all of one shape: they
change a state and end in a value or in a fault, and a fault keeps what was done to the state until
then. The lemmas run such work piece by piece. `Leads` relates the state at the start to the state
at the end, whatever the outcome is, `Yields` says what holds after each of the outcomes, and
`Lockstep` compares two runs.
-/

namespace Warren

variable {ε σ α β : Type} {R S : σ → σ → Prop}

/-! ### Outcomes -/

theorem ok_of_bind {x : Except ε α} {f : α → Except ε β} {b : β} (h : (x >>= f) = .ok b) :
    ∃ a, x = .ok a ∧ f a = .ok b := by
  cases x with
  | ok a => exact ⟨a, rfl, h⟩
  | error e => cases h

theorem error_of_bind {x : Except ε α} {f : α → Except ε β} {e : ε} (h : (x >>= f) = .error e) :
    x = .error e ∨ ∃ a, x = .ok a ∧ f a = .error e := by
  cases x with
  | ok a => exact .inr ⟨a, rfl, h⟩
  | error e' => exact .inl (congrArg Except.error (Except.error.inj h))

theorem bind_of_ok {x : Except ε α} {a : α} (h : x = .ok a) (f : α → Except ε β) :
    (x >>= f) = f a := by
  rw [h]
  rfl

theorem mapM_of_forall {f : α → Except ε β} {g : α → β} {items : List α}
    (h : ∀ a ∈ items, f a = .ok (g a)) : items.mapM f = .ok (items.map g) := by
  induction items with
  | nil => rfl
  | cons a items ih =>
    obtain ⟨ha, hitems⟩ := List.forall_mem_cons.mp h
    rw [List.mapM_cons, bind_of_ok ha, bind_of_ok (ih hitems)]
    rfl

theorem exists_ok_of_mapM {f : α → Except ε β} {items : List α} {bs : List β}
    (h : items.mapM f = .ok bs) : ∀ a ∈ items, ∃ b, f a = .ok b := by
  induction items generalizing bs with
  | nil => simp
  | cons a items ih =>
    rw [List.mapM_cons] at h
    obtain ⟨b, hb, h⟩ := ok_of_bind h
    obtain ⟨cs, hcs, -⟩ := ok_of_bind h
    exact List.forall_mem_cons.mpr ⟨⟨b, hb⟩, ih hcs⟩

theorem mapM_of_exists {f : α → Except ε β} {items : List α} {e : ε}
    (heach : ∀ a ∈ items, (∃ b, f a = .ok b) ∨ f a = .error e) (h : ∃ a ∈ items, f a = .error e) :
    items.mapM f = .error e := by
  induction items with
  | nil => simp at h
  | cons a items ih =>
    obtain ⟨ha, hitems⟩ := List.forall_mem_cons.mp heach
    rw [List.mapM_cons]
    obtain ⟨b, hb⟩ | herror := ha
    · have hrest : ∃ a ∈ items, f a = .error e := by simpa [hb] using h
      rw [bind_of_ok hb, ih hitems hrest]
      rfl
    · rw [herror]
      rfl

@[simp] theorem run_get_apply (s : σ) :
    (get : ExceptT ε (StateM σ) σ).run s = (.ok s, s) := rfl

@[simp] theorem run_lift_apply (x : StateM σ α) (s : σ) :
    (ExceptT.lift x : ExceptT ε (StateM σ) α).run s = (.ok (x s).1, (x s).2) := rfl

theorem bind_apply (x : StateM σ α) (f : α → StateM σ β) (s : σ) :
    (x >>= f) s = f (x s).1 (x s).2 := rfl

theorem run_bind_apply (x : ExceptT ε (StateM σ) α) (f : α → ExceptT ε (StateM σ) β) (s : σ) :
    (x >>= f).run s = match x.run s with
      | (.ok a, t) => (f a).run t
      | (.error e, t) => (.error e, t) := by
  change (match x.run s with
    | (out, t) => (match out with
      | .ok a => (f a).run
      | .error e => pure (.error e) : StateM σ (Except ε β)) t) = _
  obtain ⟨out, t⟩ := x.run s
  cases out <;> rfl

theorem run_bind_ok {x : ExceptT ε (StateM σ) α} {s t : σ} {a : α} (hx : x.run s = (.ok a, t))
    (f : α → ExceptT ε (StateM σ) β) : (x >>= f).run s = (f a).run t := by
  rw [run_bind_apply, hx]

theorem run_bind_error {x : ExceptT ε (StateM σ) α} {s t : σ} {e : ε}
    (hx : x.run s = (.error e, t)) (f : α → ExceptT ε (StateM σ) β) :
    (x >>= f).run s = (.error e, t) := by
  rw [run_bind_apply, hx]

theorem run_bind_pure (x : ExceptT ε (StateM σ) α) (b : β) (s : σ) :
    (x >>= fun _ => pure b).run s = ((x.run s).1.map fun _ => b, (x.run s).2) := by
  rw [run_bind_apply]
  obtain ⟨out, t⟩ := x.run s
  cases out <;> rfl

theorem run_discard (x : ExceptT ε (StateM σ) α) (s : σ) :
    (discard x).run s = ((x.run s).1.map fun _ => PUnit.unit, (x.run s).2) := by
  change (match x.run s with
    | (out, t) => (match out with
      | .ok a => pure (.ok (Function.const α PUnit.unit a))
      | .error e => pure (.error e) : StateM σ (Except ε PUnit)) t) = _
  obtain ⟨out, t⟩ := x.run s
  cases out <;> rfl

theorem run_tryCatch_apply (x : ExceptT ε (StateM σ) α) (f : ε → ExceptT ε (StateM σ) α) (s : σ) :
    (tryCatch x f).run s = match x.run s with
      | (.ok a, t) => (.ok a, t)
      | (.error e, t) => (f e).run t := by
  change (match x.run s with
    | (out, t) => (match out with
      | .ok a => pure (.ok a)
      | .error e => (f e).run : StateM σ (Except ε α)) t) = _
  obtain ⟨out, t⟩ := x.run s
  cases out <;> rfl

/-! ### Where work leads -/

/-- Work relates the state in which it starts to the state in which it ends. -/
def Leads (R : σ → σ → Prop) (work : ExceptT ε (StateM σ) α) (s : σ) : Prop :=
  R s (work.run s).2

theorem Leads.mono {x : ExceptT ε (StateM σ) α} {s : σ} (hx : Leads R x s)
    (h : ∀ s t, R s t → S s t) : Leads S x s :=
  h _ _ hx

section

variable [Std.Refl R]

theorem Leads.pure (a : α) (s : σ) : Leads R (Pure.pure a : ExceptT ε (StateM σ) α) s :=
  Std.Refl.refl s

theorem Leads.throw (e : ε) (s : σ) : Leads R (throwThe ε e : ExceptT ε (StateM σ) α) s :=
  Std.Refl.refl s

end

theorem Leads.bind_right [Trans R S R] {x : ExceptT ε (StateM σ) α}
    {f : α → ExceptT ε (StateM σ) β} {s : σ} (hx : Leads R x s)
    (hf : ∀ a t, x.run s = (.ok a, t) → Leads S (f a) t) : Leads R (x >>= f) s := by
  unfold Leads at hx ⊢
  rw [run_bind_apply]
  cases hr : x.run s with
  | mk out t =>
    rw [hr] at hx
    cases out with
    | ok a => exact Trans.trans hx (hf a t hr)
    | error e => exact hx

theorem Leads.bind [Trans R R R] {x : ExceptT ε (StateM σ) α} {f : α → ExceptT ε (StateM σ) β}
    {s : σ} (hx : Leads R x s) (hf : ∀ a t, x.run s = (.ok a, t) → Leads R (f a) t) :
    Leads R (x >>= f) s := hx.bind_right hf

/-- Work that may lead to less if it fails, followed by more work if it does not. -/
theorem Leads.bind_of_ok [Trans R S S] {x : ExceptT ε (StateM σ) α}
    {f : α → ExceptT ε (StateM σ) β} {s : σ} (hx : Leads S x s)
    (hf : ∀ a t, x.run s = (.ok a, t) → R s t ∧ Leads S (f a) t) : Leads S (x >>= f) s := by
  unfold Leads at hx ⊢
  rw [run_bind_apply]
  cases hr : x.run s with
  | mk out t =>
    rw [hr] at hx
    cases out with
    | ok a =>
      obtain ⟨hst, hrest⟩ := hf a t hr
      exact Trans.trans hst hrest
    | error e => exact hx

theorem Leads.congr {x y : ExceptT ε (StateM σ) α} {s : σ} (h : x.run s = y.run s)
    (hy : Leads R y s) : Leads R x s := by
  unfold Leads at hy ⊢
  rw [h]
  exact hy

theorem Leads.discard {x : ExceptT ε (StateM σ) α} {s : σ} (hx : Leads R x s) :
    Leads R (Functor.discard x) s := by
  unfold Leads at hx ⊢
  rw [run_discard]
  exact hx

theorem Leads.tryCatch [Trans R R R] {x : ExceptT ε (StateM σ) α}
    {f : ε → ExceptT ε (StateM σ) α} {s : σ} (hx : Leads R x s)
    (hf : ∀ e t, x.run s = (.error e, t) → Leads R (f e) t) : Leads R (tryCatchThe ε x f) s := by
  unfold Leads at hx ⊢
  change R s ((MonadExcept.tryCatch x f).run s).2
  rw [run_tryCatch_apply]
  cases hr : x.run s with
  | mk out t =>
    rw [hr] at hx
    cases out with
    | ok a => exact hx
    | error e => exact Trans.trans hx (hf e t hr)

theorem Leads.tryCatch_of_error [Trans R S S] {x : ExceptT ε (StateM σ) α}
    {f : ε → ExceptT ε (StateM σ) α} {s : σ} (hx : Leads S x s)
    (hf : ∀ e t, x.run s = (.error e, t) → R s t ∧ Leads S (f e) t) :
    Leads S (tryCatchThe ε x f) s := by
  unfold Leads at hx ⊢
  change S s ((MonadExcept.tryCatch x f).run s).2
  rw [run_tryCatch_apply]
  cases hr : x.run s with
  | mk out t =>
    rw [hr] at hx
    cases out with
    | ok a => exact hx
    | error e =>
      obtain ⟨hst, hrest⟩ := hf e t hr
      exact Trans.trans hst hrest

theorem Leads.mapM [Std.Refl R] [Trans R R R] {f : α → ExceptT ε (StateM σ) β} {items : List α}
    (hf : ∀ a ∈ items, ∀ s, Leads R (f a) s) (s : σ) : Leads R (items.mapM f) s := by
  induction items generalizing s with
  | nil =>
    rw [List.mapM_nil]
    exact .pure _ s
  | cons a rest ih =>
    rw [List.mapM_cons]
    have hrest : ∀ b ∈ rest, ∀ s, Leads R (f b) s := fun b hb => hf b (List.mem_cons_of_mem _ hb)
    refine (hf a (List.mem_cons_self ..) s).bind fun b t _ => ?_
    exact (ih hrest t).bind fun bs u _ => .pure _ u

theorem Leads.forM [Std.Refl R] [Trans R R R] {f : α → ExceptT ε (StateM σ) PUnit}
    {items : List α} (hf : ∀ a ∈ items, ∀ s, Leads R (f a) s) (s : σ) :
    Leads R (items.forM f) s := by
  induction items generalizing s with
  | nil => exact .pure _ s
  | cons a rest ih =>
    have hrest : ∀ b ∈ rest, ∀ s, Leads R (f b) s := fun b hb => hf b (List.mem_cons_of_mem _ hb)
    exact (hf a (List.mem_cons_self ..) s).bind fun _ t _ => ih hrest t

/-! ### What work yields -/

variable {P : α → σ → Prop} {E : ε → σ → Prop}

/-- Work ends in a value and a state of one kind, or in a fault and a state of another. -/
def Yields (P : α → σ → Prop) (E : ε → σ → Prop) (work : ExceptT ε (StateM σ) α) (s : σ) : Prop :=
  match work.run s with
  | (.ok a, t) => P a t
  | (.error e, t) => E e t

theorem Yields.of_ok {x : ExceptT ε (StateM σ) α} {s t : σ} {a : α} (hx : x.run s = (.ok a, t))
    (h : P a t) : Yields P E x s := by
  unfold Yields
  rw [hx]
  exact h

theorem Yields.of_error {x : ExceptT ε (StateM σ) α} {s t : σ} {e : ε}
    (hx : x.run s = (.error e, t)) (h : E e t) : Yields P E x s := by
  unfold Yields
  rw [hx]
  exact h

theorem Yields.cases {x : ExceptT ε (StateM σ) α} {s : σ} (h : Yields P E x s) :
    (∃ a t, x.run s = (.ok a, t) ∧ P a t) ∨ ∃ e t, x.run s = (.error e, t) ∧ E e t := by
  unfold Yields at h
  cases hx : x.run s with
  | mk out t =>
    rw [hx] at h
    cases out with
    | ok a => exact Or.inl ⟨a, t, rfl, h⟩
    | error e => exact Or.inr ⟨e, t, rfl, h⟩

theorem Yields.ok {x : ExceptT ε (StateM σ) α} {s : σ} (h : Yields P (fun _ _ => False) x s) :
    ∃ a t, x.run s = (.ok a, t) ∧ P a t := by
  obtain hok | ⟨_, _, _, hfalse⟩ := h.cases
  · exact hok
  · exact hfalse.elim

theorem yields_trivial (x : ExceptT ε (StateM σ) α) (s : σ) :
    Yields (fun _ _ => True) (fun _ _ => True) x s := by
  unfold Yields
  split <;> trivial

theorem Yields.bind {Q : β → σ → Prop} {x : ExceptT ε (StateM σ) α}
    {f : α → ExceptT ε (StateM σ) β} {s : σ} (hx : Yields P E x s)
    (hf : ∀ a t, P a t → Yields Q E (f a) t) : Yields Q E (x >>= f) s := by
  obtain ⟨a, t, hrun, hP⟩ | ⟨e, t, hrun, hE⟩ := hx.cases
  · have hrest := hf a t hP
    unfold Yields at hrest ⊢
    rw [run_bind_ok hrun]
    exact hrest
  · exact .of_error (run_bind_error hrun f) hE

theorem Yields.congr {x y : ExceptT ε (StateM σ) α} {s : σ} (h : x.run s = y.run s)
    (hy : Yields P E y s) : Yields P E x s := by
  unfold Yields at hy ⊢
  rw [h]
  exact hy

theorem Yields.mono {Q : α → σ → Prop} {F : ε → σ → Prop} {x : ExceptT ε (StateM σ) α} {s : σ}
    (hx : Yields P E x s) (h : ∀ a t, P a t → Q a t) (h' : ∀ e t, E e t → F e t) :
    Yields Q F x s := by
  obtain ⟨a, t, hrun, hP⟩ | ⟨e, t, hrun, hE⟩ := hx.cases
  · exact .of_ok hrun (h a t hP)
  · exact .of_error hrun (h' e t hE)

theorem Yields.leads {x : ExceptT ε (StateM σ) α} {s : σ}
    (h : Yields (fun _ t => R s t) (fun _ t => R s t) x s) : Leads R x s := by
  obtain ⟨a, t, hrun, hR⟩ | ⟨e, t, hrun, hR⟩ := h.cases
  · unfold Leads
    rw [hrun]
    exact hR
  · unfold Leads
    rw [hrun]
    exact hR

section

variable {origin s : σ} {items : List α} [Std.Refl R] [Trans R R R]

theorem Yields.mapM {f : α → ExceptT ε (StateM σ) β} {W : α → β → σ → σ → Prop}
    (hf : ∀ a s, R origin s → Yields (fun b t => R s t ∧ W a b s t) E (f a) s)
    (before : ∀ {a b s t u}, R s t → W a b t u → W a b s u)
    (after : ∀ {a b s t u}, W a b s t → R t u → W a b s u) (hs : R origin s) :
    Yields (fun bs t => R s t ∧ ∀ a ∈ items, ∃ b ∈ bs, W a b s t) E (items.mapM f) s := by
  induction items generalizing s with
  | nil =>
    rw [List.mapM_nil]
    exact .of_ok rfl ⟨Std.Refl.refl s, by simp⟩
  | cons a rest ih =>
    rw [List.mapM_cons]
    refine (hf a s hs).bind fun b t hb => ?_
    obtain ⟨hst, hb⟩ := hb
    refine (ih (Trans.trans hs hst)).bind fun bs u hbs => ?_
    obtain ⟨htu, hbs⟩ := hbs
    refine .of_ok rfl ⟨Trans.trans hst htu, fun c hc => ?_⟩
    rcases List.mem_cons.mp hc with rfl | hc
    · exact ⟨b, List.mem_cons_self .., after hb htu⟩
    · obtain ⟨d, hd, hW⟩ := hbs c hc
      exact ⟨d, List.mem_cons_of_mem _ hd, before hst hW⟩

theorem Yields.forM {f : α → ExceptT ε (StateM σ) PUnit} {W : α → σ → σ → Prop}
    (hf : ∀ a s, R origin s → Yields (fun _ t => R s t ∧ W a s t) E (f a) s)
    (before : ∀ {a s t u}, R s t → W a t u → W a s u)
    (after : ∀ {a s t u}, W a s t → R t u → W a s u) (hs : R origin s) :
    Yields (fun _ t => R s t ∧ ∀ a ∈ items, W a s t) E (items.forM f) s := by
  induction items generalizing s with
  | nil => exact .of_ok rfl ⟨Std.Refl.refl s, by simp⟩
  | cons a rest ih =>
    refine (hf a s hs).bind fun _ t ha => ?_
    obtain ⟨hst, ha⟩ := ha
    refine (ih (Trans.trans hs hst)).mono (fun _ u hrest => ?_) fun _ _ h => h
    obtain ⟨htu, hrest⟩ := hrest
    refine ⟨Trans.trans hst htu, fun c hc => ?_⟩
    rcases List.mem_cons.mp hc with rfl | hc
    · exact after ha htu
    · exact before hst (hrest c hc)

end

/-! ### Two runs side by side -/

section

variable {γ δ : Type} {P : α → β → σ → σ → Prop} {E : σ → σ → Prop}

/-- Two pieces of work succeed together, or fail together with the same fault. -/
def Lockstep (P : α → β → σ → σ → Prop) (E : σ → σ → Prop) (x : ExceptT ε (StateM σ) α)
    (y : ExceptT ε (StateM σ) β) (s t : σ) : Prop :=
  match x.run s, y.run t with
  | (.ok a, s'), (.ok b, t') => P a b s' t'
  | (.error e, s'), (.error f, t') => e = f ∧ E s' t'
  | _, _ => False

theorem Lockstep.of_ok {x : ExceptT ε (StateM σ) α} {y : ExceptT ε (StateM σ) β} {s t s' t' : σ}
    {a : α} {b : β} (hx : x.run s = (.ok a, s')) (hy : y.run t = (.ok b, t')) (h : P a b s' t') :
    Lockstep P E x y s t := by
  unfold Lockstep
  rw [hx, hy]
  exact h

theorem Lockstep.of_error {x : ExceptT ε (StateM σ) α} {y : ExceptT ε (StateM σ) β}
    {s t s' t' : σ} {e : ε} (hx : x.run s = (.error e, s')) (hy : y.run t = (.error e, t'))
    (h : E s' t') : Lockstep P E x y s t := by
  unfold Lockstep
  rw [hx, hy]
  exact ⟨rfl, h⟩

theorem Lockstep.cases {x : ExceptT ε (StateM σ) α} {y : ExceptT ε (StateM σ) β} {s t : σ}
    (h : Lockstep P E x y s t) :
    (∃ a b s' t', x.run s = (.ok a, s') ∧ y.run t = (.ok b, t') ∧ P a b s' t') ∨
      ∃ e s' t', x.run s = (.error e, s') ∧ y.run t = (.error e, t') ∧ E s' t' := by
  unfold Lockstep at h
  cases hx : x.run s with
  | mk out s' =>
    cases hy : y.run t with
    | mk out' t' =>
      rw [hx, hy] at h
      cases out with
      | ok a =>
        cases out' with
        | ok b => exact Or.inl ⟨a, b, s', t', rfl, rfl, h⟩
        | error f => exact h.elim
      | error e =>
        cases out' with
        | ok b => exact h.elim
        | error f =>
          obtain ⟨rfl, hE⟩ := h
          exact Or.inr ⟨e, s', t', rfl, rfl, hE⟩

theorem Lockstep.bind {Q : γ → δ → σ → σ → Prop} {x : ExceptT ε (StateM σ) α}
    {y : ExceptT ε (StateM σ) β} {f : α → ExceptT ε (StateM σ) γ} {g : β → ExceptT ε (StateM σ) δ}
    {s t : σ} (h : Lockstep P E x y s t)
    (hf : ∀ a b s' t', P a b s' t' → Lockstep Q E (f a) (g b) s' t') :
    Lockstep Q E (x >>= f) (y >>= g) s t := by
  obtain ⟨a, b, s', t', hx, hy, hP⟩ | ⟨e, s', t', hx, hy, hE⟩ := h.cases
  · have hrest := hf a b s' t' hP
    unfold Lockstep at hrest ⊢
    rw [run_bind_ok hx, run_bind_ok hy]
    exact hrest
  · exact .of_error (run_bind_error hx f) (run_bind_error hy g) hE

theorem Lockstep.mono {Q : α → β → σ → σ → Prop} {F : σ → σ → Prop}
    {x : ExceptT ε (StateM σ) α} {y : ExceptT ε (StateM σ) β} {s t : σ} (h : Lockstep P E x y s t)
    (hP : ∀ a b s' t', P a b s' t' → Q a b s' t') (hE : ∀ s' t', E s' t' → F s' t') :
    Lockstep Q F x y s t := by
  obtain ⟨a, b, s', t', hx, hy, h⟩ | ⟨e, s', t', hx, hy, h⟩ := h.cases
  · exact .of_ok hx hy (hP a b s' t' h)
  · exact .of_error hx hy (hE s' t' h)

theorem Lockstep.mapM {R : σ → σ → Prop} {f : α → ExceptT ε (StateM σ) β} {items : List α}
    (hf : ∀ a s t, R s t → Lockstep (fun b b' s' t' => b = b' ∧ R s' t') R (f a) (f a) s t)
    {s t : σ} (h : R s t) :
    Lockstep (fun bs bs' s' t' => bs = bs' ∧ R s' t') R (items.mapM f) (items.mapM f) s t := by
  induction items generalizing s t with
  | nil =>
    rw [List.mapM_nil]
    exact .of_ok rfl rfl ⟨rfl, h⟩
  | cons a rest ih =>
    rw [List.mapM_cons]
    refine (hf a s t h).bind fun b b' s' t' hb => ?_
    obtain ⟨rfl, h'⟩ := hb
    refine (ih h').bind fun bs bs' u v hbs => ?_
    obtain ⟨rfl, h''⟩ := hbs
    exact .of_ok rfl rfl ⟨rfl, h''⟩

theorem Lockstep.forM {R : σ → σ → Prop} {f : α → ExceptT ε (StateM σ) PUnit} {items : List α}
    (hf : ∀ a s t, R s t → Lockstep (fun _ _ s' t' => R s' t') R (f a) (f a) s t) {s t : σ}
    (h : R s t) :
    Lockstep (fun _ _ s' t' => R s' t') R (items.forM f) (items.forM f) s t := by
  induction items generalizing s t with
  | nil => exact .of_ok rfl rfl h
  | cons a rest ih => exact (hf a s t h).bind fun _ _ s' t' h' => ih h'

end

end Warren
