import ResumableCsv.Record.Scan

/-!
Lines of a source from its end backward. Bytes are fetched in chunks from the end, and a line is
complete when a line feed or the start of the data shows before it. Nothing before the floor is
data.
-/

namespace ResumableCsv

/-- The data not handed out yet, last byte first: `held` is fetched, `unread` lies before it, and
all of it ends at the offset `stop`. -/
structure Tail where
  floor : Nat
  stop : Nat
  held : Bytes
  unread : Bytes
  stop_eq : stop = floor + held.length + unread.length
deriving DecidableEq, Repr

namespace Tail

/-- All bytes of `data` are still to come, the first of them at offset `floor`. -/
def ofData (floor : Nat) (data : Bytes) : Tail :=
  ⟨floor, floor + data.length, [], data.reverse, by simp⟩

def remaining (tail : Tail) : Nat := tail.held.length + tail.unread.length

/-- Takes the last byte that is fetched. -/
def pop? (tail : Tail) : Option (UInt8 × Tail) :=
  match tail with
  | ⟨_, _, [], _, _⟩ => none
  | ⟨floor, stop, byte :: held, unread, stop_eq⟩ =>
    some (byte, ⟨floor, stop - 1, held, unread, by
      simp only [List.length_cons] at stop_eq
      omega⟩)

/-- Fetches the chunk before what is held; a chunk has one byte at least. -/
def refill (chunk : Nat) (tail : Tail) : Tail :=
  { tail with
    held := tail.held ++ tail.unread.take (max 1 chunk)
    unread := tail.unread.drop (max 1 chunk)
    stop_eq := by
      have total := tail.stop_eq
      simp only [List.length_append, List.length_take, List.length_drop]
      omega }

theorem pop?_eq_some {tail shorter : Tail} {byte : UInt8}
    (popped : tail.pop? = some (byte, shorter)) :
    tail.held = byte :: shorter.held ∧ shorter.unread = tail.unread := by
  rcases tail with ⟨floor, stop, _ | ⟨first, held⟩, unread, stop_eq⟩
  · cases popped
  · cases popped
    exact ⟨rfl, rfl⟩

/-- Goes back over one line; `line` is the part of it already seen. The line comes with the offset
it starts at. -/
def lineBefore (chunk : Nat) (line : Bytes) (tail : Tail) : Option (Nat × Bytes) × Tail :=
  match _taken : tail.pop? with
  | some (byte, shorter) =>
    if byte = Record.lineFeed then (some (tail.stop, line), shorter)
    else lineBefore chunk (byte :: line) shorter
  | none =>
    if _end : tail.unread = [] then
      (if line.isEmpty then none else some (tail.stop, line), tail)
    else lineBefore chunk line (tail.refill chunk)
termination_by tail.held.length + 2 * tail.unread.length
decreasing_by
  · obtain ⟨longer, same⟩ := pop?_eq_some _taken
    rw [longer, same]
    simp only [List.length_cons]
    omega
  · have nonempty := List.length_pos_iff.mpr _end
    simp only [refill, List.length_append, List.length_take, List.length_drop]
    omega

/-- The last line not handed out yet. -/
def nextLine (chunk : Nat) (tail : Tail) : Option (Nat × Bytes) × Tail := lineBefore chunk [] tail

theorem remaining_refill (chunk : Nat) (tail : Tail) :
    (tail.refill chunk).remaining = tail.remaining := by
  simp only [refill, remaining, List.length_append, List.length_take, List.length_drop]
  omega

theorem remaining_pop {tail shorter : Tail} {byte : UInt8}
    (popped : tail.pop? = some (byte, shorter)) : shorter.remaining < tail.remaining := by
  obtain ⟨longer, same⟩ := pop?_eq_some popped
  simp only [remaining, longer, same, List.length_cons]
  omega

theorem remaining_lineBefore (chunk : Nat) (line : Bytes) (tail : Tail) :
    (lineBefore chunk line tail).2.remaining ≤ tail.remaining ∧
      ((lineBefore chunk line tail).1 ≠ none →
        (lineBefore chunk line tail).2.remaining < tail.remaining + line.length) := by
  fun_induction lineBefore chunk line tail with
  | case1 line tail shorter popped =>
    have fewer := remaining_pop popped
    exact ⟨Nat.le_of_lt fewer, fun _ => Nat.lt_of_lt_of_le fewer (Nat.le_add_right _ _)⟩
  | case2 line tail byte shorter popped _ ih =>
    have fewer := remaining_pop popped
    refine ⟨by omega, fun found => ?_⟩
    have inner := ih.2 found
    simp only [List.length_cons] at inner
    omega
  | case3 line tail _ _ =>
    refine ⟨Nat.le_refl _, fun found => ?_⟩
    rcases line with _ | ⟨byte, rest⟩
    · simp at found
    · simp
  | case4 line tail _ _ ih =>
    rw [remaining_refill] at ih
    exact ih

theorem remaining_nextLine (chunk : Nat) (tail : Tail) (found : (tail.nextLine chunk).1 ≠ none) :
    (tail.nextLine chunk).2.remaining < tail.remaining :=
  (remaining_lineBefore chunk [] tail).2 found

end Tail

end ResumableCsv
