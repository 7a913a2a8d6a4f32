import ResumableCsv.Backward.Reader
import ResumableCsv.Proofs.Backward.Lines
import ResumableCsv.Proofs.Record.Document
import ResumableCsv.Proofs.Record.Quotes

/-!
Frames from the end backward: lines with an odd number of quotes are joined with the line before, so
that the records of a text come out whole, last one first, each with the offset it starts at. On the
way a carriage return in front of a line feed gets lost, also inside quotes.
-/

namespace ResumableCsv

open Record

/-- Every carriage return in front of a line feed is left out. -/
def foldBreaks : Bytes → Bytes
  | [] => []
  | byte :: rest =>
    if byte = carriageReturn ∧ rest.head? = some lineFeed then foldBreaks rest
    else byte :: foldBreaks rest

theorem foldBreaks_cons {byte : UInt8} (apart : byte ≠ carriageReturn) (rest : Bytes) :
    foldBreaks (byte :: rest) = byte :: foldBreaks rest := by
  rw [foldBreaks, if_neg fun both => apart both.1]

theorem foldBreaks_lineFeed (rest : Bytes) :
    foldBreaks (lineFeed :: rest) = lineFeed :: foldBreaks rest :=
  foldBreaks_cons (by decide) rest

theorem foldBreaks_of_no_lineFeed {text : Bytes} (inner : lineFeed ∉ text) :
    foldBreaks text = text := by
  induction text with
  | nil => rfl
  | cons byte rest ih =>
    have apart : rest.head? ≠ some lineFeed := by
      intro found
      exact inner (List.mem_cons_of_mem byte (List.mem_of_mem_head? found))
    rw [foldBreaks, if_neg fun both => apart both.2, ih (by simp_all)]

namespace BackwardReader

theorem stripReturn_cons_cons (byte next : UInt8) (rest : Bytes) :
    stripReturn (byte :: next :: rest) = byte :: stripReturn (next :: rest) := by
  unfold stripReturn
  rw [List.getLast?_cons_cons]
  split <;> rfl

theorem stripReturn_concat (text : Bytes) : stripReturn (text ++ [carriageReturn]) = text := by
  simp [stripReturn]

theorem stripReturn_of_getLast? {text : Bytes} (apart : text.getLast? ≠ some carriageReturn) :
    stripReturn text = text := by
  rw [stripReturn, if_neg apart]

end BackwardReader

open BackwardReader

/-- Folding goes line by line. -/
theorem foldBreaks_append_lineFeed {line : Bytes} (inner : lineFeed ∉ line) (rest : Bytes) :
    foldBreaks (line ++ lineFeed :: rest) = stripReturn line ++ lineFeed :: foldBreaks rest := by
  induction line with
  | nil => exact foldBreaks_lineFeed rest
  | cons byte line ih =>
    have later := ih (by simp_all)
    cases line with
    | nil =>
      rw [List.cons_append, List.nil_append, foldBreaks, List.head?_cons]
      by_cases returns : byte = carriageReturn
      · rw [if_pos ⟨returns, rfl⟩, foldBreaks_lineFeed, returns]
        rfl
      · rw [if_neg fun both => returns both.1, foldBreaks_lineFeed,
          stripReturn_of_getLast? (by simpa using returns)]
        rfl
    | cons next more =>
      have apart : next ≠ lineFeed := by
        rintro rfl
        simp at inner
      rw [List.cons_append, foldBreaks, if_neg, later, stripReturn_cons_cons]
      · rfl
      · simp [apart]

theorem count_foldBreaks {quote : UInt8} (apart : quote ≠ carriageReturn) (text : Bytes) :
    (foldBreaks text).count quote = text.count quote := by
  induction text with
  | nil => rfl
  | cons byte rest ih =>
    rw [foldBreaks]
    split
    next returns =>
      rw [ih, List.count_cons_of_ne]
      exact fun same => apart (same ▸ returns.1)
    next => rw [List.count_cons, List.count_cons, ih]

/-- A text that comes out whole when lines are joined by their quotes: it neither starts nor ends
with a line break, and behind each line feed in it a quote is still to be closed. -/
structure Framed (quote : UInt8) (text : Bytes) : Prop where
  starts : text.head? ≠ some lineFeed
  ends : ∀ byte ∈ text.getLast?, isTerminator byte = false
  even : text.count quote % 2 = 0
  odd : ∀ before rest, text = before ++ lineFeed :: rest → rest.count quote % 2 = 1

namespace BackwardReader

section

variable {quote : UInt8} {chunk offset : Nat} {line : Bytes} {tail rest : Tail}

theorem glue_of_odd_none (odd : line.count quote % 2 = 1)
    (step : tail.nextLine chunk = (none, rest)) :
    glue quote chunk offset line tail = ((offset, line), rest) := by
  rw [glue, if_pos odd]
  split <;> simp_all

theorem glue_of_odd_some {earlier : Nat} {previous : Bytes} (odd : line.count quote % 2 = 1)
    (step : tail.nextLine chunk = (some (earlier, previous), rest)) :
    glue quote chunk offset line tail =
      glue quote chunk earlier (stripReturn previous ++ lineFeed :: line) rest := by
  rw [glue, if_pos odd]
  split <;> simp_all

theorem nextFrame_of_none (step : tail.nextLine chunk = (none, rest)) :
    nextFrame quote chunk tail = (none, rest) := by
  rw [nextFrame]
  split <;> simp_all

theorem nextFrame_of_some (step : tail.nextLine chunk = (some (offset, line), rest)) :
    nextFrame quote chunk tail =
      if (stripReturn line).isEmpty then nextFrame quote chunk rest
      else
        (some (glue quote chunk offset (stripReturn line) rest).1,
          (glue quote chunk offset (stripReturn line) rest).2) := by
  rw [nextFrame]
  split <;> simp_all

end

variable {quote : UInt8} {text : Bytes}

/-- Gluing the lines of a framed text puts it together, and leaves what stands before it. -/
theorem glue_of_framed (apart : quote ≠ carriageReturn) (framed : Framed quote text)
    (chunk offset : Nat)
    {before front rest : Bytes} (whole : text = front ++ lineFeed :: rest) {tail : Tail}
    (data : tail.data = before ++ front)
    (closed : before = [] ∨ ∃ lead, before = lead ++ [lineFeed]) :
    ∃ left, glue quote chunk offset (foldBreaks rest) tail =
        ((tail.floor + before.length, foldBreaks text), left) ∧
      left.data = before.dropLast ∧ left.floor = tail.floor := by
  induction length : front.length using Nat.strongRecOn generalizing offset front rest tail with
  | _ size ih =>
    have open_quote : (foldBreaks rest).count quote % 2 = 1 := by
      rw [count_foldBreaks apart]
      exact framed.odd front rest whole
    have finished (offset : Nat) (left : Tail) :
        glue quote chunk offset (foldBreaks text) left = ((offset, foldBreaks text), left) := by
      rw [glue, if_neg]
      rw [count_foldBreaks apart, framed.even]
      decide
    by_cases broken : lineFeed ∈ front
    · obtain ⟨first, line, rfl, inner⟩ := exists_last_lineFeed broken
      have split : tail.data = (before ++ first) ++ lineFeed :: line := by rw [data]; simp
      obtain ⟨left, step, remaining, floor⟩ := Tail.nextLine_of_lineFeed chunk split inner
      rw [glue_of_odd_some open_quote step, ← foldBreaks_append_lineFeed inner, ← floor]
      refine ih first.length ?_ _ (by rw [whole]; simp) remaining rfl
      rw [← length]
      simp only [List.length_append, List.length_cons]
      omega
    · have folded : foldBreaks text = stripReturn front ++ lineFeed :: foldBreaks rest := by
        rw [whole, foldBreaks_append_lineFeed broken]
      have filled : front ≠ [] := by
        rintro rfl
        exact framed.starts (by rw [whole]; rfl)
      obtain ⟨left, step, remaining, floor⟩ :=
        Tail.nextLine_of_closed chunk data broken (by simp [data, filled]) closed
      refine ⟨left, ?_, remaining, floor⟩
      rw [glue_of_odd_some open_quote step, ← folded, finished]

theorem stripReturn_append {back : Bytes} (ends : ∀ byte ∈ text.getLast?, isTerminator byte = false)
    (returns : back = [] ∨ back = [carriageReturn]) : stripReturn (text ++ back) = text := by
  rcases returns with rfl | rfl
  · rw [List.append_nil]
    apply stripReturn_of_getLast?
    intro found
    exact absurd (ends _ found) (by decide)
  · exact stripReturn_concat text

/-- The frame of the last record, in front of its terminator. -/
theorem nextFrame_of_framed (apart : quote ≠ carriageReturn) (framed : Framed quote text)
    (filled : text ≠ []) (chunk : Nat) {before back : Bytes} {tail : Tail}
    (data : tail.data = before ++ text ++ back) (returns : back = [] ∨ back = [carriageReturn])
    (closed : before = [] ∨ ∃ lead, before = lead ++ [lineFeed]) :
    ∃ left, nextFrame quote chunk tail =
        (some (tail.floor + before.length, foldBreaks text), left) ∧
      left.data = before.dropLast ∧ left.floor = tail.floor := by
  have single : lineFeed ∉ back := by rcases returns with rfl | rfl <;> decide
  have framed_line {offset : Nat} {line : Bytes} {left : Tail}
      (step : tail.nextLine chunk = (some (offset, line ++ back), left)) (some_byte : line ≠ [])
      (ends : ∀ byte ∈ line.getLast?, isTerminator byte = false) :
      nextFrame quote chunk tail =
        (some (glue quote chunk offset line left).1, (glue quote chunk offset line left).2) := by
    rw [nextFrame_of_some step, stripReturn_append ends returns,
      if_neg (by simpa using some_byte)]
  by_cases broken : lineFeed ∈ text
  · obtain ⟨front, line, whole, inner⟩ := exists_last_lineFeed broken
    have some_byte : line ≠ [] := by
      rintro rfl
      exact absurd (framed.ends lineFeed (by simp [whole])) (by decide)
    have ends : ∀ byte ∈ line.getLast?, isTerminator byte = false := by
      intro byte found
      apply framed.ends byte
      rw [whole, List.getLast?_append, List.getLast?_cons, found]
      simp
    have split : tail.data = (before ++ front) ++ lineFeed :: (line ++ back) := by
      rw [data, whole]
      simp
    obtain ⟨middle, step, remaining, floor⟩ :=
      Tail.nextLine_of_lineFeed chunk split (by simp [inner, single])
    obtain ⟨left, glued, kept, same⟩ := glue_of_framed apart framed chunk
      (tail.floor + (before ++ front).length + 1) whole remaining closed
    rw [foldBreaks_of_no_lineFeed inner] at glued
    refine ⟨left, ?_, kept, same.trans floor⟩
    rw [framed_line step some_byte ends, glued, floor]
  · have alone (offset : Nat) (left : Tail) :
        glue quote chunk offset text left = ((offset, foldBreaks text), left) := by
      rw [glue, if_neg, foldBreaks_of_no_lineFeed broken]
      rw [framed.even]
      decide
    rw [List.append_assoc] at data
    obtain ⟨left, step, remaining, floor⟩ := Tail.nextLine_of_closed chunk data
      (by simp [broken, single]) (by simp [data, filled]) closed
    refine ⟨left, ?_, remaining, floor⟩
    rw [framed_line step filled framed.ends, alone]

/-- At the start of the data there is no frame left. -/
theorem nextFrame_of_nil (quote : UInt8) (chunk : Nat) {tail : Tail} (data : tail.data = []) :
    (nextFrame quote chunk tail).1 = none := by
  obtain ⟨left, step, _⟩ := Tail.nextLine_of_no_lineFeed chunk (by rw [data]; simp)
  rw [if_pos data] at step
  rw [nextFrame_of_none step]

/-- A blank line is passed over. -/
theorem nextFrame_of_blank (quote : UInt8) (chunk : Nat) {before back : Bytes} {tail : Tail}
    (data : tail.data = before ++ back) (some_left : tail.data ≠ [])
    (returns : back = [] ∨ back = [carriageReturn])
    (closed : before = [] ∨ ∃ lead, before = lead ++ [lineFeed]) :
    ∃ left, nextFrame quote chunk tail = nextFrame quote chunk left ∧
      left.data = before.dropLast ∧ left.floor = tail.floor := by
  have single : lineFeed ∉ back := by rcases returns with rfl | rfl <;> decide
  have stripped : stripReturn back = [] := by rcases returns with rfl | rfl <;> rfl
  obtain ⟨left, step, remaining, floor⟩ :=
    Tail.nextLine_of_closed chunk data single some_left closed
  exact ⟨left, by rw [nextFrame_of_some step, stripped]; rfl, remaining, floor⟩

end BackwardReader

namespace Record

variable {dialect : Dialect}

/-- The text of a record comes out whole. -/
theorem framed_rowText (proper : dialect.Proper) {fields : List Spelled}
    (fair : ∀ field ∈ fields, field.Fair dialect) :
    Framed dialect.quote (rowText dialect fields) := by
  obtain ⟨even, odd⟩ := count_rowText proper fair
  refine ⟨?_, getLast?_rowText proper fair, even, odd⟩
  intro found
  exact absurd (head_rowText proper fair lineFeed found) (by decide)

end Record

end ResumableCsv
