import Mathlib.Data.List.Infix
import ResumableCsv.Text.Basic

/-!
Splitting on a separator: the text is cut at its first occurrence, and what stands behind that is cut
in the same way, so occurrences that overlap an earlier one do not count. Pieces that are free of a
separating character come back from what they are joined to.
-/

namespace ResumableCsv.Text

/-- The pieces of a text between the leftmost occurrences of a separator that do not overlap. -/
inductive Splits (separator : List Char) : List Char → List (List Char) → Prop
  | whole {text : List Char} (absent : ¬separator <:+: text) : Splits separator text [text]
  | cut {front back : List Char} {pieces : List (List Char)}
      (leftmost : ∀ earlier, earlier ++ separator <+: front ++ separator ++ back →
        front.length ≤ earlier.length)
      (later : Splits separator back pieces) :
      Splits separator (front ++ separator ++ back) (front :: pieces)

variable {separator text : List Char} {pieces : List (List Char)}

/-- A character in front does not complete an occurrence of the separator. -/
theorem Splits.consFirst {c : Char} (splits : Splits separator text pieces)
    (apart : ¬separator <+: c :: text) :
    Splits separator (c :: text) (Text.consFirst c pieces) := by
  cases splits with
  | whole absent =>
    refine .whole fun found => ?_
    rcases List.infix_cons_iff.mp found with here | later
    · exact apart here
    · exact absent later
  | @cut front back pieces leftmost later =>
    have shifted : ∀ earlier, earlier ++ separator <+: (c :: front) ++ separator ++ back →
        (c :: front).length ≤ earlier.length := by
      intro earlier found
      cases earlier with
      | nil => exact absurd found apart
      | cons d earlier =>
        have behind : earlier ++ separator <+: front ++ separator ++ back :=
          (List.cons_prefix_cons.mp found).2
        exact Nat.succ_le_succ (leftmost earlier behind)
    exact .cut shifted later

theorem splits_splitOn (separated : separator ≠ []) (text : List Char) :
    Splits separator text (splitOn separator text) := by
  fun_induction splitOn separator text with
  | case1 text found ih =>
    obtain ⟨back, rfl⟩ := List.isPrefixOf_iff_prefix.mp found.2
    rw [List.drop_left] at ih ⊢
    have here : Splits separator ([] ++ separator ++ back) ([] :: splitOn separator back) :=
      .cut (fun _ _ => Nat.zero_le _) ih
    exact here
  | case2 =>
    exact .whole fun found => separated (List.infix_nil.mp found)
  | case3 c rest missing ih =>
    refine ih.consFirst fun here => missing ⟨separated, ?_⟩
    exact List.isPrefixOf_iff_prefix.mpr here

/-- No piece of a split holds the separator. -/
theorem Splits.not_infix (splits : Splits separator text pieces) (separated : separator ≠ []) :
    ∀ piece ∈ pieces, ¬separator <:+: piece := by
  induction splits with
  | whole absent => simpa using absent
  | @cut front back pieces leftmost _ ih =>
    refine List.forall_mem_cons.mpr ⟨?_, ih⟩
    rintro ⟨earlier, behind, rfl⟩
    have found : earlier ++ separator <+: earlier ++ separator ++ behind ++ separator ++ back :=
      ⟨behind ++ separator ++ back, by simp⟩
    have bound := leftmost earlier found
    have positive := List.length_pos_iff.mpr separated
    simp only [List.length_append] at bound
    omega

/-- Splitting undoes joining, also where pieces are empty. -/
theorem splitOn_join {c : Char} (filled : pieces ≠ []) (apart : ∀ piece ∈ pieces, c ∉ piece) :
    splitOn [c] (join [c] pieces) = pieces := by
  induction pieces with
  | nil => exact absurd rfl filled
  | cons piece others ih =>
    obtain ⟨here, later⟩ := List.forall_mem_cons.mp apart
    cases others with
    | nil => exact splitOn_of_not_mem here
    | cons next others =>
      calc splitOn [c] (join [c] (piece :: next :: others))
        _ = splitOn [c] (piece ++ c :: join [c] (next :: others)) := by simp [join]
        _ = piece :: splitOn [c] (join [c] (next :: others)) := splitOn_append here _
        _ = piece :: next :: others := by rw [ih (List.cons_ne_nil _ _) later]

/-- The characters of a piece are characters of the text. -/
theorem mem_of_mem_splitOn (separator text : List Char) :
    ∀ piece ∈ splitOn separator text, ∀ c ∈ piece, c ∈ text := by
  fun_induction splitOn separator text with
  | case1 text _ ih =>
    refine List.forall_mem_cons.mpr ⟨by simp, ?_⟩
    exact fun piece member c found => List.mem_of_mem_drop (ih piece member c found)
  | case2 => simp
  | case3 first rest _ ih =>
    cases pieces : splitOn separator rest with
    | nil => exact absurd pieces (splitOn_ne_nil separator rest)
    | cons front others =>
      rw [pieces] at ih
      obtain ⟨here, later⟩ := List.forall_mem_cons.mp ih
      refine List.forall_mem_cons.mpr ⟨?_, ?_⟩
      · exact List.forall_mem_cons.mpr
          ⟨List.mem_cons_self, fun c found => List.mem_cons_of_mem _ (here c found)⟩
      · exact fun piece member c found => List.mem_cons_of_mem _ (later piece member c found)

end ResumableCsv.Text
