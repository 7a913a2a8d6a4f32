import Mathlib.Data.List.Induction
import ResumableCsv.Outcome
import ResumableCsv.Selection.Resolve

/-!
Positions of columns: the table of a header row knows every name by the positions it stands at, so
that what a key or a selection resolves to is always a column that is there.
-/

namespace ResumableCsv

namespace NameTable

theorem lookup_add (table : NameTable) (name other : String) (position : Nat) :
    (table.add name position).lookup other =
      if other = name then some ((table.lookup name).getD [] ++ [position])
      else table.lookup other := by
  induction table with
  | nil => by_cases same : other = name <;> simp [add, same]
  | cons entry rest ih =>
    obtain ⟨known, positions⟩ := entry
    by_cases here : known = name
    · subst here
      by_cases same : other = known
      · simp [add, same]
      · have apart : (other == known) = false := by simpa using same
        simp [add, List.lookup_cons, apart, same]
    · by_cases first : other = known
      · subst first
        simp [add, here]
      · have apart : (other == known) = false := by simpa using first
        have away : (name == known) = false := by simpa using Ne.symm here
        simp only [add, if_neg here, List.lookup_cons, apart, away, ih]

theorem ofNames_append (names : List String) (name : String) :
    ofNames (names ++ [name]) = (ofNames names).add name names.length := by
  simp [ofNames, List.zipIdx_append]

/-- A table gives a name the positions it stands at. -/
theorem getElem?_of_lookup {names : List String} {name : String} {positions : List Nat}
    (found : (ofNames names).lookup name = some positions) :
    ∀ position ∈ positions, names[position]? = some name := by
  induction names using List.reverseRecOn generalizing positions with
  | nil => cases found
  | append_singleton names last ih =>
    rw [ofNames_append, lookup_add] at found
    have earlier (position : Nat) (member : names[position]? = some name) :
        (names ++ [last])[position]? = some name := by
      rw [List.getElem?_append_left (List.getElem?_eq_some_iff.mp member).1]
      exact member
    split at found
    next same =>
      subst same
      cases found
      intro position member
      rcases List.mem_append.mp member with old | new
      · cases known : (ofNames names).lookup name with
        | none => simp [known] at old
        | some before =>
          rw [known] at old
          exact earlier position (ih known position old)
      · rw [List.mem_singleton.mp new]
        simp
    next => exact fun position member => earlier position (ih found position member)

end NameTable

theorem inclusiveRange_lt {first last length : Nat} (low : first < length) (high : last < length) :
    ∀ index ∈ inclusiveRange first last, index < length := by
  intro index member
  unfold inclusiveRange at member
  split at member
  · have bound := List.mem_range'_1.mp member
    omega
  · have bound := List.mem_range'_1.mp (List.mem_reverse.mp member)
    omega

section

variable {length : Nat} {resolve : ColumnKey → Except Error Nat}
  (inside : ∀ key index, resolve key = .ok index → index < length)

include inside

theorem Selector.indices_lt {selector : Selector} {indices : List Nat}
    (found : selector.indices length resolve = .ok indices) :
    ∀ index ∈ indices, index < length := by
  cases selector with
  | single key =>
    obtain ⟨only, resolved, rfl⟩ := Outcome.map_eq_ok_iff.mp found
    simpa using inside key only resolved
  | indexed name occurrence =>
    obtain ⟨only, resolved, rfl⟩ := Outcome.map_eq_ok_iff.mp found
    simpa using inside _ only resolved
  | range first last =>
    obtain ⟨low, resolved, found⟩ := Outcome.do_eq_ok_iff.mp found
    have lower := inside first low resolved
    cases last with
    | some last =>
      obtain ⟨high, other, rfl⟩ := Outcome.map_eq_ok_iff.mp found
      exact inclusiveRange_lt lower (inside last high other)
    | none =>
      simp only at found
      split at found
      · cases found
      next some_left =>
        cases found
        exact inclusiveRange_lt lower (by omega)

theorem Selection.listed_lt {selectors : List Selector} {indices : List Nat}
    (found : Selection.listed length resolve selectors = .ok indices) :
    ∀ index ∈ indices, index < length := by
  induction selectors generalizing indices with
  | nil =>
    cases found
    simp
  | cons selector rest ih =>
    obtain ⟨these, first, found⟩ := Outcome.do_eq_ok_iff.mp found
    obtain ⟨others, later, joined⟩ := Outcome.do_eq_ok_iff.mp found
    cases joined
    intro index member
    rcases List.mem_append.mp member with here | there
    · exact Selector.indices_lt inside first index here
    · exact ih later index there

theorem Selection.indices_lt {selection : Selection} {indices : List Nat}
    (found : selection.indices length resolve = .ok indices) :
    ∀ index ∈ indices, index < length := by
  obtain ⟨chosen, listed, found⟩ := Outcome.do_eq_ok_iff.mp found
  split at found
  · cases found
    intro index member
    exact List.mem_range.mp (List.mem_filter.mp member).1
  · cases found
    exact Selection.listed_lt inside listed

end

theorem Headers.resolve_lt {names : List String} {key : ColumnKey} {index : Nat}
    (found : (Headers.ofNames names).resolve key = .ok index) : index < names.length := by
  have named {name : String} {occurrence : Nat}
      (found : (Headers.ofNames names).nthOccurrence name occurrence = .ok index) :
      index < names.length := by
    unfold nthOccurrence at found
    split at found
    · cases found
    next positions known =>
      split at found
      next position at_occurrence =>
        cases found
        have place := NameTable.getElem?_of_lookup known index
          (List.mem_of_getElem? at_occurrence)
        exact (List.getElem?_eq_some_iff.mp place).1
      next => cases found
  cases key with
  | named name => exact named found
  | nth name occurrence => exact named found
  | position position =>
    simp only [resolve] at found
    split at found
    next bound =>
      cases found
      exact bound
    next => cases found

/-- A selection only picks columns that are there. -/
theorem Headers.select_lt {names : List String} {text : String} {indices : List Nat}
    (found : (Headers.ofNames names).select text = .ok indices) :
    ∀ index ∈ indices, index < names.length := by
  obtain ⟨selection, _, found⟩ := Outcome.do_eq_ok_iff.mp found
  exact Selection.indices_lt (fun key index resolved => Headers.resolve_lt resolved) found

theorem Selection.selectPositions_lt {length : Nat} {text : String} {indices : List Nat}
    (found : Selection.selectPositions length text = .ok indices) :
    ∀ index ∈ indices, index < length := by
  obtain ⟨selection, _, found⟩ := Outcome.do_eq_ok_iff.mp found
  split at found
  · refine Selection.indices_lt ?_ found
    intro key index resolved
    unfold resolvePosition at resolved
    split at resolved
    · split at resolved
      next bound =>
        cases resolved
        exact bound
      next => cases resolved
    · cases resolved
  · cases found

end ResumableCsv
