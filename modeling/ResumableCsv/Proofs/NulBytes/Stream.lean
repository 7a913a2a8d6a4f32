import ResumableCsv.Reader.Source

/-!
Taking the NUL bytes out of a stream leaves all its other bytes in their order, however the stream is
cut into blocks and whatever room a read has.
-/

namespace ResumableCsv

namespace NulBytes

/-- The bytes of a stream that are not NUL. -/
def keptOf (content : Bytes) : Bytes := content.filter (· ≠ 0)

theorem keptOf_append (front back : Bytes) : keptOf (front ++ back) = keptOf front ++ keptOf back :=
  List.filter_append ..

theorem ne_zero_of_mem_keptOf {content : Bytes} {byte : UInt8} (member : byte ∈ keptOf content) :
    byte ≠ 0 := by
  simpa using (List.mem_filter.mp member).2

theorem flatten_putBack (left : Bytes) (blocks : List Bytes) :
    (putBack left blocks).flatten = left ++ blocks.flatten := by
  unfold putBack
  split
  next empty => rw [List.isEmpty_iff.mp empty, List.nil_append]
  next => rfl

theorem keptOf_take_drop (capacity : Nat) (block : Bytes) (blocks : List Bytes) :
    keptOf (block :: blocks).flatten =
      keptOf (block.take capacity) ++ keptOf (putBack (block.drop capacity) blocks).flatten := by
  rw [flatten_putBack, ← keptOf_append, ← List.append_assoc, List.take_append_drop,
    List.flatten_cons]

/-- A read hands out the next bytes that are not NUL and leaves the others to come. -/
theorem read_append {capacity : Nat} (room : capacity ≠ 0) (blocks : List Bytes) :
    (read capacity blocks).1 ++ keptOf (read capacity blocks).2.flatten = keptOf blocks.flatten := by
  fun_induction read capacity blocks with
  | case1 => rfl
  | case2 block rest zero => exact absurd zero room
  | case3 block rest positive kept none_kept ih =>
    have nothing : keptOf (block.take capacity) = [] := List.isEmpty_iff.mp none_kept
    rw [ih, keptOf_take_drop capacity block rest, nothing, List.nil_append]
  | case4 block rest positive kept some_kept => exact (keptOf_take_drop capacity block rest).symm

/-- An empty answer means the end of the stream. -/
theorem read_eq_nil {capacity : Nat} (room : capacity ≠ 0) {blocks : List Bytes}
    (ended : (read capacity blocks).1 = []) : (read capacity blocks).2 = [] := by
  fun_induction read capacity blocks with
  | case1 => rfl
  | case2 block rest zero => exact absurd zero room
  | case3 block rest positive kept none_kept ih => exact ih ended
  | case4 block rest positive kept some_kept => simp_all

theorem flatten_drain {capacity : Nat} (room : capacity ≠ 0) (blocks : List Bytes) :
    (drain capacity blocks).flatten = keptOf blocks.flatten := by
  have whole := read_append room
  fun_induction drain capacity blocks with
  | case1 blocks ended =>
    rw [← whole blocks, ended, read_eq_nil room ended]
    rfl
  | case2 blocks found ih => rw [List.flatten_cons, ih, whole]

end NulBytes

end ResumableCsv
