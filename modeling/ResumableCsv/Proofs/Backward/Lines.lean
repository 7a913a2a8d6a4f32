import Mathlib.Data.List.Induction
import ResumableCsv.Backward.Tail

/-!
Lines from the end backward: what is left of a source is its data without the lines handed out, and
the next line is what stands behind the last line feed of that, whatever the chunks are.
-/

namespace ResumableCsv

open Record

/-- A text with a line feed has a last one. -/
theorem exists_last_lineFeed {text : Bytes} (member : lineFeed ∈ text) :
    ∃ before line, text = before ++ lineFeed :: line ∧ lineFeed ∉ line := by
  induction text using List.reverseRecOn with
  | nil => cases member
  | append_singleton text byte ih =>
    by_cases last : byte = lineFeed
    · exact ⟨text, [], by rw [last], by simp⟩
    · have earlier : lineFeed ∈ text := by
        rcases List.mem_append.mp member with there | here
        · exact there
        · exact absurd (List.mem_singleton.mp here).symm last
      obtain ⟨before, line, rfl, inner⟩ := ih earlier
      refine ⟨before, line ++ [byte], by simp, ?_⟩
      simp [inner, Ne.symm last]

namespace Tail

/-- The bytes not handed out yet, in order. -/
def data (tail : Tail) : Bytes := (tail.held ++ tail.unread).reverse

theorem data_ofData (floor : Nat) (content : Bytes) : (ofData floor content).data = content := by
  simp [data, ofData]

theorem stop_eq_floor (tail : Tail) : tail.stop = tail.floor + tail.data.length := by
  have total := tail.stop_eq
  simp only [data, List.length_reverse, List.length_append]
  omega

theorem data_refill (chunk : Nat) (tail : Tail) : (tail.refill chunk).data = tail.data := by
  simp [data, refill]

theorem data_pop {tail shorter : Tail} {byte : UInt8} (popped : tail.pop? = some (byte, shorter)) :
    tail.data = shorter.data ++ [byte] ∧ shorter.floor = tail.floor := by
  rcases tail with ⟨floor, stop, _ | ⟨first, held⟩, unread, stop_eq⟩
  · cases popped
  · cases popped
    exact ⟨by simp [data], rfl⟩

theorem data_of_pop_none {tail : Tail} (none_held : tail.pop? = none) (all : tail.unread = []) :
    tail.data = [] := by
  rcases tail with ⟨floor, stop, _ | ⟨first, held⟩, unread, stop_eq⟩
  · simp only at all
    simp [data, all]
  · cases none_held

theorem lineBefore_of_lineFeed (chunk : Nat) (line : Bytes) {before piece : Bytes} {tail : Tail}
    (found : tail.data = before ++ lineFeed :: piece) (inner : lineFeed ∉ piece) :
    ∃ rest, lineBefore chunk line tail =
        (some (tail.floor + before.length + 1, piece ++ line), rest) ∧
      rest.data = before ∧ rest.floor = tail.floor := by
  fun_induction lineBefore chunk line tail generalizing piece with
  | case1 line tail shorter popped =>
    obtain ⟨data, floor⟩ := data_pop popped
    rw [data] at found
    have last : piece = [] := by
      rcases List.eq_nil_or_concat piece with none_there | ⟨init, byte, rfl⟩
      · exact none_there
      · rw [List.concat_eq_append] at found inner
        rw [← List.cons_append, ← List.append_assoc] at found
        have same := (List.append_inj' found rfl).2
        exact absurd (by simp [List.cons.inj same]) inner
    subst last
    have same := (List.append_inj' found rfl).1
    refine ⟨shorter, ?_, same, floor⟩
    rw [stop_eq_floor, data, List.length_append, same]
    simp [Nat.add_assoc]
  | case2 line tail byte shorter popped other ih =>
    obtain ⟨data, floor⟩ := data_pop popped
    rw [data] at found
    rcases List.eq_nil_or_concat piece with rfl | ⟨init, final, rfl⟩
    · have same := (List.append_inj' found rfl).2
      exact absurd (List.cons.inj same).1 other
    · rw [List.concat_eq_append] at found inner ⊢
      rw [← List.cons_append, ← List.append_assoc] at found
      obtain ⟨same, byte_eq⟩ := List.append_inj' found rfl
      obtain ⟨rest, step, left, kept⟩ := ih same (by simp_all)
      refine ⟨rest, ?_, left, kept.trans floor⟩
      rw [step, floor, (List.cons.inj byte_eq).1]
      simp
  | case3 line tail none_held all =>
    rw [data_of_pop_none none_held all] at found
    simp at found
  | case4 line tail none_held more ih =>
    rw [← data_refill chunk] at found
    exact ih found inner

theorem lineBefore_of_no_lineFeed (chunk : Nat) (line : Bytes) {tail : Tail}
    (inner : lineFeed ∉ tail.data) :
    ∃ rest, lineBefore chunk line tail =
        (if tail.data ++ line = [] then none else some (tail.floor, tail.data ++ line), rest) ∧
      rest.data = [] ∧ rest.floor = tail.floor := by
  fun_induction lineBefore chunk line tail with
  | case1 line tail shorter popped =>
    rw [(data_pop popped).1] at inner
    simp at inner
  | case2 line tail byte shorter popped other ih =>
    obtain ⟨data, floor⟩ := data_pop popped
    rw [data] at inner ⊢
    obtain ⟨rest, step, left, kept⟩ := ih (by simp_all)
    refine ⟨rest, ?_, left, kept.trans floor⟩
    rw [step, floor]
    simp
  | case3 line tail none_held all =>
    have nothing := data_of_pop_none none_held all
    refine ⟨tail, ?_, nothing, rfl⟩
    rw [stop_eq_floor, nothing]
    cases line <;> simp
  | case4 line tail none_held more ih =>
    rw [← data_refill chunk] at inner
    obtain ⟨rest, step, left, kept⟩ := ih inner
    rw [data_refill] at step
    exact ⟨rest, step, left, kept⟩

/-- The next line is what stands behind the last line feed. -/
theorem nextLine_of_lineFeed (chunk : Nat) {before line : Bytes} {tail : Tail}
    (found : tail.data = before ++ lineFeed :: line) (inner : lineFeed ∉ line) :
    ∃ rest, tail.nextLine chunk = (some (tail.floor + before.length + 1, line), rest) ∧
      rest.data = before ∧ rest.floor = tail.floor := by
  have step := lineBefore_of_lineFeed chunk [] found inner
  rwa [List.append_nil] at step

/-- Without a line feed all that is left is the next line, unless nothing is left. -/
theorem nextLine_of_no_lineFeed (chunk : Nat) {tail : Tail} (inner : lineFeed ∉ tail.data) :
    ∃ rest, tail.nextLine chunk =
        (if tail.data = [] then none else some (tail.floor, tail.data), rest) ∧
      rest.data = [] ∧ rest.floor = tail.floor := by
  have step := lineBefore_of_no_lineFeed chunk [] inner
  rwa [List.append_nil] at step

/-- The line behind the last line break, if there is one, comes next. -/
theorem nextLine_of_closed (chunk : Nat) {before line : Bytes} {tail : Tail}
    (data : tail.data = before ++ line) (inner : lineFeed ∉ line) (some_left : tail.data ≠ [])
    (closed : before = [] ∨ ∃ lead, before = lead ++ [lineFeed]) :
    ∃ left, tail.nextLine chunk = (some (tail.floor + before.length, line), left) ∧
      left.data = before.dropLast ∧ left.floor = tail.floor := by
  rcases closed with rfl | ⟨lead, rfl⟩
  · rw [List.nil_append] at data
    obtain ⟨left, step, remaining, floor⟩ :=
      nextLine_of_no_lineFeed chunk (by rw [data]; exact inner)
    rw [if_neg some_left, data] at step
    exact ⟨left, step, remaining, floor⟩
  · have split : tail.data = lead ++ lineFeed :: line := by
      rw [data]
      simp
    obtain ⟨left, step, remaining, floor⟩ := nextLine_of_lineFeed chunk split inner
    refine ⟨left, ?_, by simpa using remaining, floor⟩
    rw [step]
    simp [Nat.add_assoc]

end Tail

end ResumableCsv
