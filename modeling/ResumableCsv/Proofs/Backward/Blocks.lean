import ResumableCsv.Proofs.Backward.Frames

/-!
Reading a text from its end: the frames that come out are its records, last one first, each with the
offset it starts at.
-/

namespace ResumableCsv

open Record

/-- What stands in front of one line end, and whether a carriage return comes between. -/
structure Block where
  text : Bytes
  carriage : Bool
deriving DecidableEq, Repr

def Block.back (block : Block) : Bytes := if block.carriage then [carriageReturn] else []

def blocksText (blocks : List Block) : Bytes :=
  blocks.flatMap fun block => block.text ++ block.back ++ [lineFeed]

/-- Blocks that are blank or hold one record. -/
def Whole (quote : UInt8) (blocks : List Block) : Prop :=
  ∀ block ∈ blocks, block.text = [] ∨ Framed quote block.text

theorem Block.back_cases (block : Block) : block.back = [] ∨ block.back = [carriageReturn] := by
  unfold back
  split
  · exact .inr rfl
  · exact .inl rfl

theorem blocksText_append (blocks others : List Block) :
    blocksText (blocks ++ others) = blocksText blocks ++ blocksText others := by
  simp [blocksText]

theorem dropLast_blocksText_concat (blocks : List Block) (block : Block) :
    (blocksText (blocks ++ [block])).dropLast = blocksText blocks ++ block.text ++ block.back := by
  simp [blocksText, ← List.append_assoc]

theorem blocksText_closed (blocks : List Block) :
    blocksText blocks = [] ∨ ∃ lead, blocksText blocks = lead ++ [lineFeed] := by
  rcases List.eq_nil_or_concat blocks with rfl | ⟨init, last, rfl⟩
  · exact .inl rfl
  · refine .inr ⟨blocksText init ++ last.text ++ last.back, ?_⟩
    simp [blocksText]

namespace BackwardReader

/-- The next frame is the last block that is not blank, and what stands before it is left. -/
theorem nextFrame_of_blocks {quote : UInt8} (apart : quote ≠ carriageReturn) {blocks : List Block}
    (whole : Whole quote blocks) (chunk : Nat) {tail : Tail}
    (data : tail.data = (blocksText blocks).dropLast) :
    ((∀ block ∈ blocks, block.text = []) ∧ (nextFrame quote chunk tail).1 = none) ∨
      ∃ before block blanks left, blocks = before ++ block :: blanks ∧
        (∀ blank ∈ blanks, blank.text = []) ∧ block.text ≠ [] ∧
        nextFrame quote chunk tail =
          (some (tail.floor + (blocksText before).length, foldBreaks block.text), left) ∧
        left.data = (blocksText before).dropLast ∧ left.floor = tail.floor := by
  induction blocks using List.reverseRecOn generalizing tail with
  | nil => exact .inl ⟨by simp, nextFrame_of_nil quote chunk data⟩
  | append_singleton blocks last ih =>
    rw [dropLast_blocksText_concat] at data
    have closed := blocksText_closed blocks
    by_cases blank : last.text = []
    · rw [blank, List.append_nil] at data
      have earlier : Whole quote blocks := fun block member => whole block (by simp [member])
      by_cases nothing : tail.data = []
      · have none_before : blocks = [] := by
          rw [nothing] at data
          have empty := (List.append_eq_nil_iff.mp data.symm).1
          rcases blocks with _ | ⟨first, others⟩
          · rfl
          · simp [blocksText] at empty
        exact .inl ⟨by simp [none_before, blank], nextFrame_of_nil quote chunk nothing⟩
      · obtain ⟨left, same, remaining, floor⟩ :=
          nextFrame_of_blank quote chunk data nothing last.back_cases closed
        rcases ih earlier remaining with ⟨blanks, ended⟩ | found
        · refine .inl ⟨?_, by rw [same, ended]⟩
          intro block member
          rcases List.mem_append.mp member with there | here
          · exact blanks block there
          · rw [List.mem_singleton.mp here]
            exact blank
        · obtain ⟨before, block, blanks, rest, split, skipped, filled, step, kept, still⟩ := found
          refine .inr ⟨before, block, blanks ++ [last], rest, by simp [split], ?_, filled,
            by rw [same, step, floor], kept, still.trans floor⟩
          intro other member
          rcases List.mem_append.mp member with there | here
          · exact skipped other there
          · rw [List.mem_singleton.mp here]
            exact blank
    · have framed := (whole last (by simp)).resolve_left blank
      obtain ⟨left, step, remaining, floor⟩ :=
        nextFrame_of_framed apart framed blank chunk data last.back_cases closed
      exact .inr ⟨blocks, last, [], left, rfl, by simp, blank, step, remaining, floor⟩

/-- What is left of a reader is a text without its last line feed. -/
structure Holds (reader : BackwardReader) (blocks : List Block) : Prop where
  running : reader.exhausted = false
  whole : Whole reader.dialect.quote blocks
  data_eq : reader.tail.data = (blocksText blocks).dropLast

/-- The records of blocks, without those that are blank. -/
def filled (blocks : List Block) : List Block := blocks.filter fun block => block.text ≠ []

variable {reader : BackwardReader} {blocks : List Block}

theorem filled_eq_nil (blank : ∀ block ∈ blocks, block.text = []) : filled blocks = [] := by
  simpa [filled] using blank

theorem filled_split (before : List Block) {block : Block} {blanks : List Block}
    (skipped : ∀ blank ∈ blanks, blank.text = []) (written : block.text ≠ []) :
    filled (before ++ block :: blanks) = filled before ++ [block] := by
  calc filled (before ++ block :: blanks)
      = filled before ++ block :: filled blanks := by
        rw [filled, List.filter_append, List.filter_cons_of_pos (by simpa using written)]
        rfl
    _ = filled before ++ [block] := by rw [filled_eq_nil skipped]

/-- The next record is the last block that is not blank, unless all are. -/
theorem nextRecord_of_holds (apart : reader.dialect.quote ≠ carriageReturn)
    (holds : reader.Holds blocks) :
    ((∀ block ∈ blocks, block.text = []) ∧ reader.nextRecord.1 = .ok none) ∨
      ∃ before block blanks left, blocks = before ++ block :: blanks ∧
        (∀ blank ∈ blanks, blank.text = []) ∧ block.text ≠ [] ∧
        reader.nextRecord =
          ((reader.parse (foldBreaks block.text)).map fun row =>
            some (reader.tail.floor + (blocksText before).length, row),
            { reader with tail := left }) ∧
        ({ reader with tail := left } : BackwardReader).Holds before ∧
        left.floor = reader.tail.floor := by
  rcases nextFrame_of_blocks apart holds.whole reader.chunkSize holds.data_eq with
    ⟨blank, ended⟩ | ⟨before, block, blanks, left, split, skipped, written, step, remaining, floor⟩
  · refine .inl ⟨blank, ?_⟩
    unfold nextRecord
    rw [if_neg (by simp [holds.running])]
    split
    · rfl
    next found =>
      rw [found] at ended
      cases ended
  · refine .inr ⟨before, block, blanks, left, split, skipped, written, ?_,
      ⟨holds.running, ?_, remaining⟩, floor⟩
    · unfold nextRecord
      rw [if_neg (by simp [holds.running]), step]
    · intro other member
      exact holds.whole other (by simp [split, member])

end BackwardReader

end ResumableCsv
