import ResumableCsv.Proofs.NulBytes.Stream

/-!
NUL bytes taken out in the buffer they arrive in: one place is read from and one is written to, and
what arrives is read again as long as nothing of it is kept. This comes to what taking them out of
the stream comes to, it stays inside the buffer, and every read ends.
-/

namespace ResumableCsv.NulBytes

/-- A byte put into a buffer, if the place is inside. -/
def store? (buffer : Bytes) (place : Nat) (byte : UInt8) : Option Bytes :=
  if place < buffer.length then some (buffer.set place byte) else none

/-- Goes over a number of bytes from a place on and moves those that are not NUL to the place behind
the bytes that are kept; tells how many are kept then. -/
def compact? : (count place kept : Nat) → (buffer : Bytes) → Option (Nat × Bytes)
  | 0, _, kept, buffer => some (kept, buffer)
  | count + 1, place, kept, buffer => do
    let byte ← buffer[place]?
    if byte = 0 then compact? count (place + 1) kept buffer
    else
      let moved ← store? buffer kept byte
      compact? count (place + 1) (kept + 1) moved

/-- What the stream delivers into a buffer: the number of bytes, the buffer, and what is left. -/
def deliver (buffer : Bytes) : List Bytes → Nat × Bytes × List Bytes
  | [] => (0, buffer, [])
  | block :: blocks =>
    let arrived := block.take buffer.length
    (arrived.length, arrived ++ buffer.drop arrived.length,
      putBack (block.drop buffer.length) blocks)

/-- One read into a buffer, in a number of turns; none if they are used up or a place is outside. -/
def readInto? : Nat → Bytes → List Bytes → Option (Nat × Bytes × List Bytes)
  | 0, _, _ => none
  | turns + 1, buffer, blocks =>
    let (arrived, filled, rest) := deliver buffer blocks
    if arrived = 0 then some (0, filled, rest)
    else do
      let (kept, compacted) ← compact? arrived 0 0 filled
      if kept = 0 then readInto? turns compacted rest else some (kept, compacted, rest)

theorem keptOf_cons (byte : UInt8) (rest : Bytes) :
    keptOf (byte :: rest) = if byte = 0 then keptOf rest else byte :: keptOf rest := by
  by_cases nul : byte = 0 <;> simp [keptOf, nul]

/-- Behind the bytes that are kept stand as many as were passed over, and what is not read yet is
untouched. -/
theorem compact?_eq (kept passed unread behind : Bytes) :
    ∃ left, (keptOf unread).length + left.length = passed.length + unread.length ∧
      compact? unread.length (kept.length + passed.length) kept.length
          (kept ++ (passed ++ (unread ++ behind))) =
        some ((kept ++ keptOf unread).length, kept ++ keptOf unread ++ left ++ behind) := by
  induction unread generalizing kept passed with
  | nil => exact ⟨passed, by simp [keptOf], by simp [compact?, keptOf]⟩
  | cons byte unread ih =>
    have here : (kept ++ (passed ++ (byte :: unread ++ behind)))[kept.length + passed.length]? =
        some byte := by
      simp
    by_cases nul : byte = 0
    · obtain ⟨left, length, step⟩ := ih kept (passed ++ [byte])
      refine ⟨left, ?_, ?_⟩
      · rw [keptOf_cons, if_pos nul, length, List.length_append, List.length_singleton,
          List.length_cons, Nat.add_right_comm, Nat.add_assoc]
      · rw [keptOf_cons, if_pos nul, ← step, List.length_cons, compact?, here]
        simp [nul, Nat.add_assoc]
    · -- the byte goes to the first of the passed places, and its own is the last of them then
      obtain ⟨left, length, step⟩ := ih (kept ++ [byte]) (passed ++ [byte]).tail
      have moved : store? (kept ++ (passed ++ (byte :: unread ++ behind))) kept.length byte =
          some (kept ++ [byte] ++ ((passed ++ [byte]).tail ++ (unread ++ behind))) := by
        have inside : kept.length < (kept ++ (passed ++ (byte :: unread ++ behind))).length := by
          simp only [List.length_append, List.length_cons]
          omega
        rw [store?, if_pos inside, List.set_append_right _ _ (Nat.le_refl _), Nat.sub_self]
        cases passed <;> simp
      have next : (kept ++ [byte]).length + (passed ++ [byte]).tail.length =
          kept.length + passed.length + 1 := by
        simp only [List.length_append, List.length_tail, List.length_singleton]
        omega
      refine ⟨left, ?_, ?_⟩
      · rw [keptOf_cons, if_neg nul, List.length_cons, List.length_cons]
        simp only [List.length_append, List.length_tail, List.length_singleton] at length
        omega
      · rw [next, List.length_append, List.length_singleton] at step
        rw [keptOf_cons, if_neg nul, List.length_cons, compact?, here]
        simp only [Option.bind_eq_bind, Option.bind_some, if_neg nul, moved, step]
        simp

/-- In a buffer the kept bytes come to stand in front, and the buffer keeps its length. -/
theorem compact?_of_arrived (arrived behind : Bytes) :
    ∃ after, after.length = (arrived ++ behind).length ∧ keptOf arrived <+: after ∧
      compact? arrived.length 0 0 (arrived ++ behind) =
        some ((keptOf arrived).length, after) := by
  obtain ⟨left, length, step⟩ := compact?_eq [] [] arrived behind
  refine ⟨keptOf arrived ++ (left ++ behind), ?_, List.prefix_append _ _, ?_⟩
  · simp only [List.length_append, List.length_nil] at length ⊢
    omega
  · simpa [Nat.add_assoc] using step

theorem ne_nil_of_mem_putBack {left : Bytes} {blocks : List Bytes}
    (delivered : ∀ block ∈ blocks, block ≠ []) : ∀ block ∈ putBack left blocks, block ≠ [] := by
  unfold putBack
  split
  next => exact delivered
  next some_left => exact List.forall_mem_cons.mpr ⟨by simpa using some_left, delivered⟩

/-- What is left behind a turn is shorter. -/
theorem length_flatten_putBack_lt {capacity : Nat} (room : capacity ≠ 0) {block : Bytes}
    (filled : block ≠ []) (blocks : List Bytes) :
    (putBack (block.drop capacity) blocks).flatten.length < (block :: blocks).flatten.length := by
  have positive := List.length_pos_iff.mpr filled
  rw [flatten_putBack, List.flatten_cons, List.length_append, List.length_append, List.length_drop]
  omega

/-- One turn takes what fits of the next block; if nothing of it is kept, there is another turn. -/
theorem readInto?_succ {buffer block : Bytes} (room : buffer ≠ []) (filled : block ≠ [])
    (turns : Nat) (blocks : List Bytes) :
    ∃ after, after.length = buffer.length ∧ keptOf (block.take buffer.length) <+: after ∧
      readInto? (turns + 1) buffer (block :: blocks) =
        if keptOf (block.take buffer.length) = [] then
          readInto? turns after (putBack (block.drop buffer.length) blocks)
        else some ((keptOf (block.take buffer.length)).length, after,
          putBack (block.drop buffer.length) blocks) := by
  have wide := List.length_pos_iff.mpr room
  have long := List.length_pos_iff.mpr filled
  have some_arrived : (block.take buffer.length).length ≠ 0 := by
    rw [List.length_take]
    omega
  obtain ⟨after, width, leading, step⟩ := compact?_of_arrived (block.take buffer.length)
    (buffer.drop (block.take buffer.length).length)
  refine ⟨after, ?_, leading, ?_⟩
  · rw [width, List.length_append, List.length_drop, List.length_take]
    omega
  · simp only [readInto?, deliver, if_neg some_arrived, step, Option.bind_eq_bind,
      Option.bind_some]
    simp only [List.length_eq_zero_iff]

theorem read_cons {capacity : Nat} (room : capacity ≠ 0) (block : Bytes) (blocks : List Bytes) :
    read capacity (block :: blocks) =
      if keptOf (block.take capacity) = [] then read capacity (putBack (block.drop capacity) blocks)
      else (keptOf (block.take capacity), putBack (block.drop capacity) blocks) := by
  rw [read, dif_neg room]
  exact ite_congr (propext List.isEmpty_iff) (fun _ => rfl) (fun _ => rfl)

/-- A read into a buffer ends, with the bytes that a read of the stream gives at its start and the
same left to come. -/
theorem readInto?_eq {turns : Nat} {buffer : Bytes} {blocks : List Bytes} (room : buffer ≠ [])
    (delivered : ∀ block ∈ blocks, block ≠ []) (enough : blocks.flatten.length < turns) :
    ∃ after, after.length = buffer.length ∧ (read buffer.length blocks).1 <+: after ∧
      readInto? turns buffer blocks =
        some ((read buffer.length blocks).1.length, after, (read buffer.length blocks).2) := by
  induction turns generalizing buffer blocks with
  | zero => exact absurd enough (Nat.not_lt_zero _)
  | succ turns ih =>
    cases blocks with
    | nil => exact ⟨buffer, rfl, by simp [read], by simp [readInto?, deliver, read]⟩
    | cons block blocks =>
      obtain ⟨filled, later⟩ := List.forall_mem_cons.mp delivered
      have wide : buffer.length ≠ 0 := by simpa using room
      obtain ⟨after, same, leading, step⟩ := readInto?_succ room filled turns blocks
      have fewer := length_flatten_putBack_lt wide filled blocks
      rw [step, read_cons wide]
      split
      next nothing =>
        -- the buffer that was gone over is as wide as the one before
        rw [← same] at fewer ⊢
        exact ih (by rintro rfl; exact wide same.symm) (ne_nil_of_mem_putBack later) (by omega)
      next something => exact ⟨after, same, leading, rfl⟩

end ResumableCsv.NulBytes
