import ResumableCsv.Proofs.Selection.Bounds
import ResumableCsv.Proofs.Selection.Grammar

/-!
Inverted selections: an exclamation mark in front of an expression picks the columns the expression
does not pick, in ascending order, and is refused just when the expression is.
-/

namespace ResumableCsv

open Text

namespace Selection

open Grammar

variable {text : String} {selection : Selection}

theorem parse_unmarked_iff (unmarked : (trimStart text.toList).head? ≠ some '!') :
    parse text = .ok selection ↔
      selection.inverted = false ∧ Terms text.toList selection.selectors := by
  rw [parse_iff_ofChars, ofChars_of_splitMark (splitMark_of_head unmarked), terms_trimStart_iff]

theorem parse_marked_iff :
    parse ("!" ++ text) = .ok selection ↔
      selection.inverted = true ∧ Terms text.toList selection.selectors := by
  rw [parse_iff_ofChars, String.toList_append]
  exact ofChars_of_splitMark (splitMark_of_mark Blank.nil)

/-- The positions that are not among some others, ascending. -/
def others (length : Nat) (indices : List Nat) : List Nat :=
  (List.range length).filter fun index => !indices.contains index

theorem mem_others {length index : Nat} {indices : List Nat} :
    index ∈ others length indices ↔ index < length ∧ index ∉ indices := by
  simp [others]

theorem pairwise_others (length : Nat) (indices : List Nat) :
    (others length indices).Pairwise (· < ·) :=
  List.Pairwise.filter _ List.pairwise_lt_range

end Selection

namespace Headers

open Selection Grammar

variable {headers : Headers} {text : String} (unmarked : (trimStart text.toList).head? ≠ some '!')

include unmarked

theorem select_unmarked_iff {indices : List Nat} :
    headers.select text = .ok indices ↔
      ∃ selectors, Terms text.toList selectors ∧
        listed headers.length headers.resolve selectors = .ok indices := by
  constructor
  · intro found
    obtain ⟨⟨selectors, inverted⟩, parsed, found⟩ := Outcome.do_eq_ok_iff.mp found
    obtain ⟨rfl, written⟩ := (parse_unmarked_iff unmarked).mp parsed
    obtain ⟨chosen, listed, built⟩ := Outcome.do_eq_ok_iff.mp found
    cases built
    exact ⟨selectors, written, listed⟩
  · rintro ⟨selectors, written, listed⟩
    have parsed : parse text = .ok ⟨selectors, false⟩ :=
      (parse_unmarked_iff unmarked).mpr ⟨rfl, written⟩
    exact Outcome.do_eq_ok_iff.mpr
      ⟨_, parsed, Outcome.do_eq_ok_iff.mpr ⟨indices, listed, rfl⟩⟩

/-- A mark in front picks the other columns. -/
theorem select_marked_iff {picked : List Nat} :
    headers.select ("!" ++ text) = .ok picked ↔
      ∃ indices, headers.select text = .ok indices ∧ picked = others headers.length indices := by
  constructor
  · intro found
    obtain ⟨⟨selectors, inverted⟩, parsed, found⟩ := Outcome.do_eq_ok_iff.mp found
    obtain ⟨rfl, written⟩ := parse_marked_iff.mp parsed
    obtain ⟨chosen, listed, built⟩ := Outcome.do_eq_ok_iff.mp found
    cases built
    exact ⟨chosen, (select_unmarked_iff unmarked).mpr ⟨selectors, written, listed⟩, rfl⟩
  · rintro ⟨indices, found, rfl⟩
    obtain ⟨selectors, written, listed⟩ := (select_unmarked_iff unmarked).mp found
    have parsed : parse ("!" ++ text) = .ok ⟨selectors, true⟩ :=
      parse_marked_iff.mpr ⟨rfl, written⟩
    exact Outcome.do_eq_ok_iff.mpr
      ⟨_, parsed, Outcome.do_eq_ok_iff.mpr ⟨indices, listed, rfl⟩⟩

end Headers

/-- Columns that are picked are there; a mark in front of an expression that has none is refused
just when the expression is, and picks all other columns, in ascending order. -/
theorem Headers.select_inverted (names : List String) {text : String}
    (unmarked : (trimStart text.toList).head? ≠ some '!') :
    (∀ indices, (Headers.ofNames names).select text = .ok indices →
      ∀ index ∈ indices, index < names.length) ∧
    ((∃ picked, (Headers.ofNames names).select ("!" ++ text) = .ok picked) ↔
      ∃ indices, (Headers.ofNames names).select text = .ok indices) ∧
    ∀ indices picked, (Headers.ofNames names).select text = .ok indices →
      (Headers.ofNames names).select ("!" ++ text) = .ok picked →
        picked.Pairwise (· < ·) ∧
          ∀ index, index ∈ picked ↔ index < names.length ∧ index ∉ indices := by
  refine ⟨fun indices found => Headers.select_lt found, ?_, ?_⟩
  · constructor
    · rintro ⟨picked, found⟩
      obtain ⟨indices, listed, _⟩ := (select_marked_iff unmarked).mp found
      exact ⟨indices, listed⟩
    · rintro ⟨indices, listed⟩
      exact ⟨_, (select_marked_iff unmarked).mpr ⟨indices, listed, rfl⟩⟩
  · intro indices picked listed found
    obtain ⟨same, again, rfl⟩ := (select_marked_iff unmarked).mp found
    rw [listed] at again
    cases again
    exact ⟨Selection.pairwise_others _ _, fun index => Selection.mem_others⟩

/-- Blanks, an occurrence of a name that stands twice, and a range backward. -/
theorem Headers.select_inverted_sample :
    (trimStart " a[1] ,4-2".toList).head? ≠ some '!' ∧
      (Headers.ofNames ["a", "b", "a", "c"]).select " a[1] ,4-2" = .ok [2, 3, 2, 1] ∧
      ∃ picked, (Headers.ofNames ["a", "b", "a", "c"]).select ("!" ++ " a[1] ,4-2") = .ok picked ∧
        picked.Pairwise (· < ·) ∧ ∀ index, index ∈ picked ↔ index = 0 := by
  have unmarked : (trimStart " a[1] ,4-2".toList).head? ≠ some '!' := by decide
  have parsed : Selection.parse " a[1] ,4-2" =
      .ok ⟨[.indexed "a" 1, .range (.position 3) (some (.position 1))], false⟩ := by cbv
  have listed : (Headers.ofNames ["a", "b", "a", "c"]).select " a[1] ,4-2" = .ok [2, 3, 2, 1] := by
    rw [Headers.select, parsed]
    decide
  obtain ⟨_, accepted, complement⟩ := Headers.select_inverted ["a", "b", "a", "c"] unmarked
  obtain ⟨picked, found⟩ := accepted.mpr ⟨_, listed⟩
  obtain ⟨ascending, members⟩ := complement _ picked listed found
  refine ⟨unmarked, listed, picked, found, ascending, fun index => ?_⟩
  rw [members]
  simp
  omega

end ResumableCsv
