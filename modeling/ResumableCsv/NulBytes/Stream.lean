import ResumableCsv.Text.Utf8

/-!
Reading a byte stream with its NUL bytes taken out. The stream arrives in blocks, a read never
crosses a block, and a read that met nothing but NULs goes on to the next one, so that an empty
answer means the end.
-/

namespace ResumableCsv.NulBytes

/-- The blocks that remain when some bytes of the first one were taken. -/
def putBack (left : Bytes) (blocks : List Bytes) : List Bytes :=
  if left.isEmpty then blocks else left :: blocks

def weight : List Bytes → Nat
  | [] => 0
  | block :: rest => block.length + 1 + weight rest

theorem weight_putBack_drop {capacity : Nat} (positive : capacity ≠ 0) (block : Bytes)
    (blocks : List Bytes) :
    weight (putBack (block.drop capacity) blocks) < weight (block :: blocks) := by
  unfold putBack
  split
  · simp [weight]
  · next left =>
    have longer : 0 < block.length := by
      rcases block with _ | ⟨head, tail⟩
      · simp at left
      · simp
    simp only [weight, List.length_drop]
    omega

/-- One read into a buffer of `capacity` bytes. -/
def read (capacity : Nat) (blocks : List Bytes) : Bytes × List Bytes :=
  match blocks with
  | [] => ([], [])
  | block :: rest =>
    if _positive : capacity = 0 then ([], block :: rest)
    else
      let kept := (block.take capacity).filter (· ≠ 0)
      if kept.isEmpty then read capacity (putBack (block.drop capacity) rest)
      else (kept, putBack (block.drop capacity) rest)
termination_by weight blocks
decreasing_by exact weight_putBack_drop _positive block rest

theorem weight_read_lt {capacity : Nat} {blocks : List Bytes}
    (found : (read capacity blocks).1 ≠ []) :
    weight (read capacity blocks).2 < weight blocks := by
  fun_induction read capacity blocks with
  | case1 => exact absurd rfl found
  | case2 => exact absurd rfl found
  | case3 block rest positive kept _ ih =>
    have smaller := weight_putBack_drop positive block rest
    have inner := ih found
    omega
  | case4 block rest positive kept _ => exact weight_putBack_drop positive block rest

/-- Reads with the same capacity up to the end of the stream. -/
def drain (capacity : Nat) (blocks : List Bytes) : List Bytes :=
  if _found : (read capacity blocks).1 = [] then []
  else (read capacity blocks).1 :: drain capacity (read capacity blocks).2
termination_by weight blocks
decreasing_by exact weight_read_lt _found

end ResumableCsv.NulBytes
