import Mathlib.Data.List.TakeWhile
import ResumableCsv.Text.Basic

/-!
Blanks around a text: trimming takes off the blanks in front of the first character that is none,
and those behind the last.
-/

namespace ResumableCsv.Text

/-- A text of blanks alone. -/
def Blank (text : List Char) : Prop := ∀ c ∈ text, isBlank c = true

variable {text blanks : List Char}

theorem Blank.nil : Blank [] := by simp [Blank]

theorem trimStart_append (blank : Blank blanks) (text : List Char) :
    trimStart (blanks ++ text) = trimStart text :=
  List.dropWhile_append_of_pos blank

theorem trimStart_of_head (solid : ∀ c ∈ text.head?, isBlank c = false) :
    trimStart text = text := by
  cases text with
  | nil => rfl
  | cons c rest => exact List.dropWhile_cons_of_neg (by simp [solid c rfl])

theorem exists_blanks_trimStart (text : List Char) :
    ∃ blanks, text = blanks ++ trimStart text ∧ Blank blanks :=
  ⟨text.takeWhile isBlank, List.takeWhile_append_dropWhile.symm, fun _ member =>
    List.mem_takeWhile_imp member⟩

/-- What is left does not start with a blank. -/
theorem head_trimStart (text : List Char) : ∀ c ∈ (trimStart text).head?, isBlank c = false := by
  intro c found
  have stopped := List.head?_dropWhile_not isBlank text
  rwa [← trimStart, found] at stopped

theorem trimStart_trimStart (text : List Char) : trimStart (trimStart text) = trimStart text :=
  trimStart_of_head (head_trimStart text)

theorem trimEnd_append (blank : Blank blanks) (text : List Char) :
    trimEnd (text ++ blanks) = trimEnd text := by
  rw [trimEnd, List.reverse_append, List.dropWhile_append_of_pos, ← trimEnd]
  simpa [Blank] using blank

theorem trimEnd_eq_nil_iff : trimEnd text = [] ↔ Blank text := by
  simp [trimEnd, List.dropWhile_eq_nil_iff, Blank]

/-- Only blanks are trimmed to nothing. -/
theorem trim_eq_nil_iff : trim text = [] ↔ trimStart text = [] := by
  rw [trim, trimEnd_eq_nil_iff]
  constructor
  · intro blank
    have solid := head_trimStart text
    cases left : trimStart text with
    | nil => rfl
    | cons c rest =>
      rw [left] at blank solid
      have both := (blank c (by simp)).symm.trans (solid c rfl)
      cases both
  · intro nothing
    rw [nothing]
    exact .nil

theorem trim_append_blanks (blank : Blank blanks) (text : List Char) :
    trim (text ++ blanks) = trim text := by
  obtain ⟨lead, split, leading⟩ := exists_blanks_trimStart text
  by_cases nothing : trimStart text = []
  · have all : trimStart (text ++ blanks) = [] := by
      rw [split, nothing, List.append_nil, trimStart_append leading, trimStart,
        List.dropWhile_eq_nil_iff]
      exact blank
    rw [trim_eq_nil_iff.mpr all, trim_eq_nil_iff.mpr nothing]
  · have solid : ∀ c ∈ (trimStart text ++ blanks).head?, isBlank c = false := by
      intro c found
      rw [List.head?_append, List.head?_eq_some_head nothing] at found
      cases found
      exact head_trimStart text _ (List.head?_eq_some_head nothing)
    calc trim (text ++ blanks)
        = trimEnd (trimStart (lead ++ (trimStart text ++ blanks))) := by
          rw [← List.append_assoc, ← split, trim]
      _ = trimEnd (trimStart text ++ blanks) := by
          rw [trimStart_append leading, trimStart_of_head solid]
      _ = trim text := trimEnd_append blank _

theorem trim_of_solid (solid : ∀ c ∈ text, isBlank c = false) : trim text = text := by
  have first : trimStart text = text :=
    trimStart_of_head fun c found => solid c (List.mem_of_mem_head? found)
  have last : text.reverse.dropWhile isBlank = text.reverse :=
    trimStart_of_head fun c found => solid c (List.mem_reverse.mp (List.mem_of_mem_head? found))
  rw [trim, first, trimEnd, last, List.reverse_reverse]

end ResumableCsv.Text
