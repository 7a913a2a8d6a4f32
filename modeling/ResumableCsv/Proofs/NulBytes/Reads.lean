import ResumableCsv.Proofs.NulBytes.InPlace

/-!
Successive reads of a stream without its NUL bytes. However the stream is cut into blocks and
whatever buffers are offered, the answers are the bytes that are not NUL in their order; an empty
answer tells that all of them were handed out, and it comes as soon as there are enough reads.
-/

namespace ResumableCsv.NulBytes

/-- Reads of some capacities, one after the other: the answers, and what is left to come. -/
def readEach : List Nat → List Bytes → List Bytes × List Bytes
  | [], blocks => ([], blocks)
  | capacity :: capacities, blocks =>
    ((read capacity blocks).1 :: (readEach capacities (read capacity blocks).2).1,
      (readEach capacities (read capacity blocks).2).2)

/-- Reads into some buffers, one after the other; an answer is what a read put in front. -/
def readEachInto? (turns : Nat) : List Bytes → List Bytes → Option (List Bytes × List Bytes)
  | [], blocks => some ([], blocks)
  | buffer :: buffers, blocks => do
    let (kept, after, rest) ← readInto? turns buffer blocks
    let (answers, left) ← readEachInto? turns buffers rest
    some (after.take kept :: answers, left)

/-- The blocks that are left are blocks that delivered something, and they do not grow. -/
theorem read_left (capacity : Nat) {blocks : List Bytes}
    (delivered : ∀ block ∈ blocks, block ≠ []) :
    (∀ block ∈ (read capacity blocks).2, block ≠ []) ∧
      (read capacity blocks).2.flatten.length ≤ blocks.flatten.length := by
  fun_induction read capacity blocks with
  | case1 => exact ⟨delivered, Nat.le_refl _⟩
  | case2 => exact ⟨delivered, Nat.le_refl _⟩
  | case3 block rest positive kept none_kept ih =>
    obtain ⟨filled, later⟩ := List.forall_mem_cons.mp delivered
    obtain ⟨blocks, shorter⟩ := ih (ne_nil_of_mem_putBack later)
    exact ⟨blocks, Nat.le_trans shorter
      (Nat.le_of_lt (length_flatten_putBack_lt positive filled rest))⟩
  | case4 block rest positive kept some_kept =>
    obtain ⟨filled, later⟩ := List.forall_mem_cons.mp delivered
    exact ⟨ne_nil_of_mem_putBack later,
      Nat.le_of_lt (length_flatten_putBack_lt positive filled rest)⟩

/-- Every read into a buffer ends, and the answers are those of the stream. -/
theorem readEachInto?_eq {turns : Nat} {buffers blocks : List Bytes}
    (room : ∀ buffer ∈ buffers, buffer ≠ []) (delivered : ∀ block ∈ blocks, block ≠ [])
    (enough : blocks.flatten.length < turns) :
    readEachInto? turns buffers blocks = some (readEach (buffers.map List.length) blocks) := by
  induction buffers generalizing blocks with
  | nil => rfl
  | cons buffer buffers ih =>
    obtain ⟨wide, others⟩ := List.forall_mem_cons.mp room
    obtain ⟨after, _, leading, step⟩ := readInto?_eq wide delivered enough
    obtain ⟨still, shorter⟩ := read_left buffer.length delivered
    have rest := ih others still (by omega)
    simp only [readEachInto?, step, rest, readEach, List.map_cons, Option.bind_eq_bind,
      Option.bind_some, ← List.prefix_iff_eq_take.mp leading]

/-- The answers are a beginning of the bytes that are not NUL; the others are left to come. -/
theorem readEach_append {capacities : List Nat} (room : ∀ capacity ∈ capacities, capacity ≠ 0)
    (blocks : List Bytes) :
    (readEach capacities blocks).1.flatten ++ keptOf (readEach capacities blocks).2.flatten =
      keptOf blocks.flatten := by
  induction capacities generalizing blocks with
  | nil => rfl
  | cons capacity capacities ih =>
    obtain ⟨wide, others⟩ := List.forall_mem_cons.mp room
    rw [readEach, List.flatten_cons, List.append_assoc, ih others, read_append wide]

theorem readEach_nil (capacities : List Nat) : (readEach capacities []).2 = [] := by
  induction capacities with
  | nil => rfl
  | cons capacity capacities ih => simpa only [readEach, read] using ih

/-- An empty answer leaves nothing of the stream, and the answers up to it are all there is. -/
theorem readEach_ended {capacities : List Nat} (room : ∀ capacity ∈ capacities, capacity ≠ 0)
    (blocks : List Bytes) {call : Nat} (ended : (readEach capacities blocks).1[call]? = some []) :
    (readEach (capacities.take (call + 1)) blocks).2 = [] ∧
      (readEach capacities blocks).2 = [] ∧
      ((readEach capacities blocks).1.take call).flatten = keptOf blocks.flatten := by
  induction capacities generalizing blocks call with
  | nil => simp [readEach] at ended
  | cons capacity capacities ih =>
    obtain ⟨wide, others⟩ := List.forall_mem_cons.mp room
    cases call with
    | zero =>
      have empty : (read capacity blocks).1 = [] := Option.some.inj ended
      have nothing := read_eq_nil wide empty
      refine ⟨nothing, ?_, ?_⟩
      · rw [readEach, nothing, readEach_nil]
      · rw [← read_append wide blocks, empty, nothing]
        rfl
    | succ call =>
      obtain ⟨nothing, left, answers⟩ := ih others _ ended
      refine ⟨nothing, left, ?_⟩
      rw [readEach, List.take_succ_cons, List.flatten_cons, answers, read_append wide]

/-- More reads than there are bytes to hand out include one that answers nothing. -/
theorem exists_readEach_ended {capacities : List Nat}
    (room : ∀ capacity ∈ capacities, capacity ≠ 0) (blocks : List Bytes)
    (many : (keptOf blocks.flatten).length < capacities.length) :
    ∃ call : Nat, (readEach capacities blocks).1[call]? = some [] := by
  induction capacities generalizing blocks with
  | nil => exact absurd many (Nat.not_lt_zero _)
  | cons capacity capacities ih =>
    obtain ⟨wide, others⟩ := List.forall_mem_cons.mp room
    by_cases empty : (read capacity blocks).1 = []
    · exact ⟨0, congrArg some empty⟩
    · have answered := List.length_pos_iff.mpr empty
      have fewer := congrArg List.length (read_append wide blocks)
      rw [List.length_append] at fewer
      rw [List.length_cons] at many
      obtain ⟨call, ended⟩ := ih others (read capacity blocks).2 (by omega)
      exact ⟨call + 1, ended⟩

/-- Reads of one capacity up to the first empty answer. -/
theorem readEach_replicate {capacity : Nat} (room : capacity ≠ 0) (blocks : List Bytes) :
    readEach (List.replicate ((drain capacity blocks).length + 1) capacity) blocks =
      (drain capacity blocks ++ [[]], []) := by
  fun_induction drain capacity blocks with
  | case1 blocks ended =>
    simp only [List.length_nil, List.replicate_succ, List.replicate_zero, readEach, ended,
      read_eq_nil room ended, List.nil_append]
  | case2 blocks found ih =>
    rw [List.length_cons, List.replicate_succ, readEach, ih, List.cons_append]

/-- Taking the NUL bytes out in place is exact for every delivery and for all buffers: each read
ends, together the answers are the bytes that are not NUL, in their order, and an empty answer comes
at the very end of the stream only. -/
theorem strip_in_place {turns : Nat} {buffers blocks : List Bytes}
    (delivered : ∀ block ∈ blocks, block ≠ []) (room : ∀ buffer ∈ buffers, buffer ≠ [])
    (enough : blocks.flatten.length < turns) :
    ∃ answers left,
      readEachInto? turns buffers blocks = some (answers, left) ∧
      readEach (buffers.map List.length) blocks = (answers, left) ∧
      answers.flatten ++ keptOf left.flatten = keptOf blocks.flatten ∧
      (∀ call : Nat, answers[call]? = some [] →
        (∃ seen, readEachInto? turns (buffers.take (call + 1)) blocks = some (seen, [])) ∧
        (answers.take call).flatten = keptOf blocks.flatten) ∧
      ((keptOf blocks.flatten).length < buffers.length →
        [] ∈ answers ∧ left = [] ∧ answers.flatten = keptOf blocks.flatten) ∧
      ∀ buffer ∈ buffers,
        readEachInto? turns
            (List.replicate ((drain buffer.length blocks).length + 1) buffer) blocks =
          some (drain buffer.length blocks ++ [[]], []) := by
  have wide : ∀ capacity ∈ buffers.map List.length, capacity ≠ 0 :=
    List.forall_mem_map.mpr fun buffer member => by simpa using room buffer member
  have whole := readEach_append wide blocks
  refine ⟨_, _, readEachInto?_eq room delivered enough, rfl, whole, ?_, ?_, ?_⟩
  · intro call empty
    obtain ⟨nothing, _, answers⟩ := readEach_ended wide blocks empty
    have some_room : ∀ buffer ∈ buffers.take (call + 1), buffer ≠ [] :=
      fun buffer member => room buffer (List.mem_of_mem_take member)
    have up_to := readEachInto?_eq some_room delivered enough
    rw [List.map_take] at up_to
    exact ⟨⟨_, up_to.trans (congrArg some (Prod.ext rfl nothing))⟩, answers⟩
  · intro many
    obtain ⟨call, empty⟩ := exists_readEach_ended wide blocks (by simpa using many)
    obtain ⟨_, left, _⟩ := readEach_ended wide blocks empty
    rw [left, List.flatten_nil, keptOf, List.filter_nil, List.append_nil] at whole
    exact ⟨List.mem_of_getElem? empty, left, whole⟩
  · intro buffer member
    have same : ∀ other ∈ List.replicate ((drain buffer.length blocks).length + 1) buffer,
        other ≠ [] :=
      fun other copied => List.eq_of_mem_replicate copied ▸ room buffer member
    rw [readEachInto?_eq same delivered enough, List.map_replicate,
      readEach_replicate (by simpa using room buffer member)]

/-- Blocks of nothing but NUL bytes among others, one of them too long for the buffers. -/
def scattered : List Bytes := [[0, 0], [0x61, 0, 0x62], [0], [0x63]]

def rooms : List Bytes := [[1, 2], [3], [4, 5, 6], [7]]

theorem strip_in_place_sample :
    (∀ block ∈ scattered, block ≠ []) ∧ (∀ buffer ∈ rooms, buffer ≠ []) ∧
      scattered.flatten.length < 8 ∧ (keptOf scattered.flatten).length < rooms.length ∧
      readEachInto? 8 rooms scattered = some ([[0x61], [0x62], [0x63], []], []) ∧
      (∃ seen, readEachInto? 8 rooms scattered = some (seen, [])) ∧
      [[0x61], [0x62], [0x63], []].flatten = keptOf scattered.flatten ∧
      readEachInto? 8 (List.replicate ((drain 2 scattered).length + 1) [1, 2]) scattered =
        some (drain 2 scattered ++ [[]], []) := by
  have delivered : ∀ block ∈ scattered, block ≠ [] := by decide
  have room : ∀ buffer ∈ rooms, buffer ≠ [] := by decide
  have enough : scattered.flatten.length < 8 := by decide
  have many : (keptOf scattered.flatten).length < rooms.length := by decide
  have run : readEachInto? 8 rooms scattered = some ([[0x61], [0x62], [0x63], []], []) := by decide
  obtain ⟨answers, left, through, _, _, ended, complete, again⟩ :=
    strip_in_place delivered room enough
  obtain ⟨rfl, rfl⟩ := Prod.mk.inj (Option.some.inj (through.symm.trans run))
  exact ⟨delivered, room, enough, many, run, (ended 3 rfl).1, (complete many).2.2,
    again [1, 2] (by decide)⟩

end ResumableCsv.NulBytes
