import Mathlib.Data.List.TakeWhile
import Warren.Text.Blank

/-!
# Text without the white space around it

Trimming takes a text apart into white space, a core that has none at its ends, and white space
again. There is one core only, by `trimChars_of_surrounds`.
-/

namespace Warren.Text

/-- Nothing but white space. -/
def Blank (cs : List Char) : Prop := ∀ c ∈ cs, isBlank c = true

/-- No white space at either end. -/
structure Bare (cs : List Char) : Prop where
  head : ∀ c ∈ cs.head?, isBlank c = false
  last : ∀ c ∈ cs.getLast?, isBlank c = false

/-- A core with some white space around it. -/
def Surrounds (cs core : List Char) : Prop :=
  ∃ before after, Blank before ∧ Blank after ∧ cs = before ++ core ++ after

theorem Surrounds.refl (cs : List Char) : Surrounds cs cs :=
  ⟨[], [], by simp [Blank], by simp [Blank], by simp⟩

section

variable {cs core : List Char}

theorem bare_nil : Bare [] := ⟨by simp, by simp⟩

theorem Bare.of_forall (h : ∀ c ∈ cs, isBlank c = false) : Bare cs :=
  ⟨fun c hc => h c (List.mem_of_mem_head? hc), fun c hc => h c (List.mem_of_getLast? hc)⟩

theorem Bare.reverse (h : Bare cs) : Bare cs.reverse :=
  ⟨by rw [List.head?_reverse]; exact h.last, by rw [List.getLast?_reverse]; exact h.head⟩

theorem dropWhile_of_head (h : ∀ c ∈ cs.head?, isBlank c = false) : cs.dropWhile isBlank = cs := by
  cases cs with
  | nil => rfl
  | cons c cs => rw [List.dropWhile_cons_of_neg (by simp [h c rfl])]

theorem dropWhile_surrounded {before : List Char} (hblank : Blank before) (h : Bare core) :
    (before ++ core).dropWhile isBlank = core := by
  rw [List.dropWhile_append_of_pos hblank, dropWhile_of_head h.head]

theorem Blank.reverse (h : Blank cs) : Blank cs.reverse := fun c hc => h c (List.mem_reverse.mp hc)

theorem trimChars_of_surrounds (h : Surrounds cs core) (hbare : Bare core) :
    trimChars cs = core := by
  obtain ⟨before, after, hbefore, hafter, rfl⟩ := h
  rw [trimChars, List.append_assoc, List.dropWhile_append_of_pos hbefore]
  by_cases hcore : core = []
  · subst hcore
    rw [List.nil_append, List.dropWhile_eq_nil_iff.mpr hafter]
    rfl
  · obtain ⟨first, rest, rfl⟩ := List.exists_cons_of_ne_nil hcore
    have hhead : ∀ c ∈ (first :: rest ++ after).head?, isBlank c = false := hbare.head
    rw [dropWhile_of_head hhead, List.reverse_append,
      dropWhile_surrounded hafter.reverse hbare.reverse, List.reverse_reverse]

theorem head_dropWhile (cs : List Char) :
    ∀ c ∈ (cs.dropWhile isBlank).head?, isBlank c = false := by
  intro c hc
  have h := List.head?_dropWhile_not isBlank cs
  rw [Option.mem_def.mp hc] at h
  exact h

theorem bare_trimChars (cs : List Char) : Bare (trimChars cs) := by
  have hlast := head_dropWhile (cs.dropWhile isBlank).reverse
  refine ⟨fun c hc => ?_, by rw [trimChars, List.getLast?_reverse]; exact hlast⟩
  -- what is left begins as the text does behind its first white space
  have hprefix : trimChars cs <+: cs.dropWhile isBlank := by
    rw [trimChars, ← List.reverse_suffix, List.reverse_reverse]
    exact List.dropWhile_suffix _
  obtain ⟨rest, hrest⟩ := hprefix
  refine head_dropWhile cs c ?_
  rw [← hrest, List.head?_append]
  simp [Option.mem_def.mp hc]

theorem surrounds_trimChars (cs : List Char) : Surrounds cs (trimChars cs) := by
  refine ⟨cs.takeWhile isBlank, ((cs.dropWhile isBlank).reverse.takeWhile isBlank).reverse,
    fun _ => List.mem_takeWhile_imp,
    fun c hc => List.mem_takeWhile_imp (List.mem_reverse.mp hc), ?_⟩
  rw [trimChars, List.append_assoc, ← List.reverse_append, List.takeWhile_append_dropWhile,
    List.reverse_reverse, List.takeWhile_append_dropWhile]

theorem trimChars_of_bare (h : Bare cs) : trimChars cs = cs :=
  trimChars_of_surrounds (.refl cs) h

end

end Warren.Text
