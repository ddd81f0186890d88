import BracketScript.Text.Blank
import BracketScript.Text.Search

/-!
# Trimming and splitting

What is left of a text without the blanks around it is the one part of it that
neither starts nor ends with a blank and has only blanks before and after it
(`trimChars_eq_iff`).  The pieces of a text are those of the library's
`List.splitOn` (`pieces_eq_splitOn`).
-/

namespace BracketScript
namespace Text

/-- A text that neither starts nor ends with a blank. -/
def Bare (cs : List Char) : Prop :=
  (∀ c ∈ cs.head?, isBlank c = false) ∧ ∀ c ∈ cs.getLast?, isBlank c = false

instance (cs : List Char) : Decidable (Bare cs) :=
  decidable_of_iff
    ((cs.head?.all fun c => !isBlank c) = true ∧ (cs.getLast?.all fun c => !isBlank c) = true)
    (by simp [Bare, Option.all_eq_true])

/-- The second text is the first one without the blanks around it. -/
def Trims (cs core : List Char) : Prop :=
  Bare core ∧ ∃ before after, cs = before ++ core ++ after ∧
    (∀ c ∈ before, isBlank c = true) ∧ ∀ c ∈ after, isBlank c = true

theorem dropWhile_isBlank_append {before rest : List Char} (h : ∀ c ∈ before, isBlank c = true) :
    (before ++ rest).dropWhile isBlank = rest.dropWhile isBlank := by
  induction before with
  | nil => rfl
  | cons c before ih =>
      rw [List.forall_mem_cons] at h
      rw [List.cons_append, List.dropWhile_cons_of_pos h.1, ih h.2]

theorem dropWhile_isBlank_eq_self {cs : List Char} (h : ∀ c ∈ cs.head?, isBlank c = false) :
    cs.dropWhile isBlank = cs := by
  cases cs with
  | nil => rfl
  | cons c cs => exact List.dropWhile_cons_of_neg (by simpa using h c rfl)

theorem head?_dropWhile_isBlank (cs : List Char) :
    ∀ c ∈ (cs.dropWhile isBlank).head?, isBlank c = false := by
  intro c hc
  have h := List.head?_dropWhile_not isBlank cs
  rw [Option.mem_def.mp hc] at h
  simpa using h

/-- Blanks at the end go with those at the front of the reversed text. -/
theorem trimChars_append_blanks {cs after : List Char} (h : ∀ c ∈ after, isBlank c = true)
    (hlast : ∀ c ∈ cs.getLast?, isBlank c = false) (hhead : ∀ c ∈ cs.head?, isBlank c = false) :
    trimChars (cs ++ after) = cs := by
  have hreverse : ∀ c ∈ after.reverse, isBlank c = true := by simpa using h
  have hcs : cs.reverse.dropWhile isBlank = cs.reverse :=
    dropWhile_isBlank_eq_self (by simpa using hlast)
  unfold trimChars
  cases cs with
  | nil =>
      rw [List.nil_append, ← List.append_nil after, dropWhile_isBlank_append h]
      rfl
  | cons c cs =>
      have hwhole : (c :: cs ++ after).dropWhile isBlank = c :: cs ++ after :=
        dropWhile_isBlank_eq_self hhead
      rw [hwhole, List.reverse_append, dropWhile_isBlank_append hreverse, hcs, List.reverse_reverse]

theorem trimChars_of_trims {cs core : List Char} (h : Trims cs core) : trimChars cs = core := by
  obtain ⟨⟨hhead, hlast⟩, before, after, rfl, hbefore, hafter⟩ := h
  have hfront : trimChars (before ++ core ++ after) = trimChars (core ++ after) := by
    unfold trimChars
    rw [List.append_assoc, dropWhile_isBlank_append hbefore]
  rw [hfront, trimChars_append_blanks hafter hlast hhead]

/-- A text is the blanks at its front and what follows them. -/
theorem exists_blanks_append (cs : List Char) :
    ∃ before, (∀ c ∈ before, isBlank c = true) ∧ cs = before ++ cs.dropWhile isBlank :=
  ⟨cs.takeWhile isBlank, List.all_eq_true.mp List.all_takeWhile,
    List.takeWhile_append_dropWhile.symm⟩

theorem trims_trimChars (cs : List Char) : Trims cs (trimChars cs) := by
  obtain ⟨before, hbefore, hfront⟩ := exists_blanks_append cs
  obtain ⟨after, hafter, hback⟩ := exists_blanks_append (cs.dropWhile isBlank).reverse
  have hsplit : cs.dropWhile isBlank = trimChars cs ++ after.reverse := by
    rw [trimChars, ← List.reverse_append, ← hback, List.reverse_reverse]
  refine ⟨⟨?_, ?_⟩, before, after.reverse, ?_, hbefore, by simpa using hafter⟩
  · -- The front of what is left is the front of what followed the blanks.
    intro c hc
    apply head?_dropWhile_isBlank cs c
    rw [hsplit, List.head?_append, Option.mem_def.mp hc]
    rfl
  · rw [trimChars, List.getLast?_reverse]
    exact head?_dropWhile_isBlank _
  · rw [List.append_assoc, ← hsplit]
    exact hfront

theorem trimChars_eq_iff {cs core : List Char} : trimChars cs = core ↔ Trims cs core :=
  ⟨fun h => h ▸ trims_trimChars cs, trimChars_of_trims⟩

theorem Bare.trims {cs : List Char} (h : Bare cs) : Trims cs cs :=
  ⟨h, [], [], by simp, nofun, nofun⟩

theorem pieces_eq_splitOn (separator : Char) (cs : List Char) :
    pieces separator cs = cs.splitOn separator := by
  induction cs with
  | nil => simp [pieces]
  | cons c cs ih =>
      have hstep : pieces separator (c :: cs) =
          if c = separator then [] :: pieces separator cs
          else (pieces separator cs).modifyHead (c :: ·) := by
        rw [pieces, List.foldr_cons, ← pieces]
        split
        · rfl
        · rw [ih]
          cases hsplit : cs.splitOn separator with
          | nil => exact absurd hsplit (List.splitOn_ne_nil _ _)
          | cons piece rest => rfl
      rw [hstep, ih, List.splitOn_eq_splitOnP, List.splitOn_eq_splitOnP,
        List.splitOnP_cons_eq_if_modifyHead]
      simp

end Text
end BracketScript
