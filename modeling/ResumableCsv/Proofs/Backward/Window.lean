import ResumableCsv.Proofs.Backward.Lines

/-!
Lines from the end of a source through a window on it: the bytes from a position on are held, and as
long as no line feed is among them the position moves back by one chunk, down to the floor. Taking
the bytes one by one comes to the same, no read goes beyond the source, and every look for a line
ends.
-/

namespace ResumableCsv

open Record

/-- The place of the last line feed. -/
def lastBreak? : Bytes → Option Nat
  | [] => none
  | byte :: rest =>
    match lastBreak? rest with
    | some place => some (place + 1)
    | none => if byte = lineFeed then some 0 else none

/-- A number of bytes of a source from an offset on, none if the source ends before them. -/
def readExact? (source : Bytes) (offset count : Nat) : Option Bytes :=
  if offset + count ≤ source.length then some ((source.drop offset).take count) else none

/-- The bytes of a source from a position on that are not handed out yet. Nothing before the floor
is data. -/
structure Window where
  floor : Nat
  position : Nat
  buffer : Bytes
deriving DecidableEq, Repr

namespace Window

/-- What one look at the window leads to. -/
inductive Turn
  | answered (line : Option (Nat × Bytes)) (rest : Window)
  | refilled (rest : Window)

/-- Nothing is held of a source yet, whose data lies between the floor and the stop. -/
def atEnd (floor stop : Nat) : Window := ⟨floor, stop, []⟩

/-- Hands out the line behind the last line feed that is held. Without one a chunk is put in front of
what is held, and at the floor all that is held is the last line. -/
def turn? (source : Bytes) (chunk : Nat) (window : Window) : Option Turn :=
  match lastBreak? window.buffer with
  | some place =>
    some (.answered (some (window.position + place + 1, window.buffer.drop (place + 1)))
      { window with buffer := window.buffer.take place })
  | none =>
    if window.floor < window.position then
      let start := max (window.position - chunk) window.floor
      (readExact? source start (window.position - start)).map fun fetched =>
        .refilled { window with position := start, buffer := fetched ++ window.buffer }
    else if window.buffer = [] then some (.answered none window)
    else some (.answered (some (window.position, window.buffer)) { window with buffer := [] })

/-- Turns until there is an answer; nothing comes of it if a read fails or the turns are used up. -/
def nextLine? (source : Bytes) (chunk : Nat) : Nat → Window → Option (Option (Nat × Bytes) × Window)
  | 0, _ => none
  | turns + 1, window =>
    match window.turn? source chunk with
    | none => none
    | some (.answered line rest) => some (line, rest)
    | some (.refilled rest) => nextLine? source chunk turns rest

/-- The answers to a number of calls, with the same number of turns for each of them. -/
def answers? (source : Bytes) (chunk turns : Nat) :
    Nat → Window → Option (List (Option (Nat × Bytes)))
  | 0, _ => some []
  | calls + 1, window => do
    let (line, rest) ← nextLine? source chunk turns window
    let later ← answers? source chunk turns calls rest
    some (line :: later)

end Window

theorem lastBreak?_of_no_lineFeed {text : Bytes} (inner : lineFeed ∉ text) :
    lastBreak? text = none := by
  induction text with
  | nil => rfl
  | cons byte rest ih =>
    have other : byte ≠ lineFeed := fun same => inner (by simp [same])
    have later : lineFeed ∉ rest := fun member => inner (by simp [member])
    rw [lastBreak?, ih later]
    exact if_neg other

theorem lastBreak?_append (before : Bytes) {line : Bytes} (inner : lineFeed ∉ line) :
    lastBreak? (before ++ lineFeed :: line) = some before.length := by
  induction before with
  | nil =>
    rw [List.nil_append, lastBreak?, lastBreak?_of_no_lineFeed inner]
    rfl
  | cons byte before ih => rw [List.cons_append, lastBreak?, ih, List.length_cons]

/-- What stands in a source behind an offset is read from there. -/
theorem readExact?_of_prefix {source front piece : Bytes} {floor : Nat} (filled : piece ≠ [])
    (there : front ++ piece <+: source.drop floor) :
    readExact? source (floor + front.length) piece.length = some piece := by
  obtain ⟨behind, split⟩ := there
  have positive := List.length_pos_iff.mpr filled
  have total := congrArg List.length split
  simp only [List.length_append, List.length_drop] at total
  rw [readExact?, if_pos (by omega), ← List.drop_drop, ← split, List.append_assoc, List.drop_left,
    List.take_left]

namespace Tail

/-- The window that holds what was fetched, `line` standing behind that. -/
def window (tail : Tail) (line : Bytes) : Window :=
  ⟨tail.floor, tail.floor + tail.unread.length, tail.held.reverse ++ line⟩

/-- What is not fetched yet stands in the source, from the floor on. -/
def LeftOf (tail : Tail) (source : Bytes) : Prop := tail.unread.reverse <+: source.drop tail.floor

variable {tail shorter : Tail} {byte : UInt8} {source line : Bytes} {chunk turns : Nat}

/-- A byte that is taken back is held in front of the line. -/
theorem window_pop (popped : tail.pop? = some (byte, shorter)) (line : Bytes) :
    tail.window line = shorter.window (byte :: line) := by
  obtain ⟨held, unread⟩ := pop?_eq_some popped
  simp [window, held, unread, (data_pop popped).2]

theorem leftOf_pop (popped : tail.pop? = some (byte, shorter)) :
    shorter.LeftOf source ↔ tail.LeftOf source := by
  rw [LeftOf, LeftOf, (pop?_eq_some popped).2, (data_pop popped).2]

theorem LeftOf.refill (left : tail.LeftOf source) (chunk : Nat) :
    (tail.refill chunk).LeftOf source :=
  (List.reverse_prefix.mpr (List.drop_suffix _ _)).trans left

theorem held_of_pop_none (empty : tail.pop? = none) : tail.held = [] := by
  rcases tail with ⟨floor, stop, _ | ⟨first, held⟩, unread, stop_eq⟩
  · rfl
  · cases empty

/-- A window without a line feed in it is moved back by one chunk, by less only at the floor. -/
theorem turn?_refill (left : tail.LeftOf source) (filled : 0 < chunk) (empty : tail.pop? = none)
    (more : tail.unread ≠ []) (inner : lineFeed ∉ line) :
    (tail.window line).turn? source chunk =
      some (.refilled ((tail.refill chunk).window line)) := by
  have held := held_of_pop_none empty
  have positive := List.length_pos_iff.mpr more
  have piece : (tail.unread.take chunk).reverse ≠ [] := by
    rw [Ne, List.reverse_eq_nil_iff, List.take_eq_nil_iff]
    exact fun nothing => nothing.elim (Nat.ne_of_gt filled) more
  have there : (tail.unread.drop chunk).reverse ++ (tail.unread.take chunk).reverse <+:
      source.drop tail.floor := by
    rw [← List.reverse_append, List.take_append_drop]
    exact left
  have fetched := readExact?_of_prefix piece there
  have start : max (tail.floor + tail.unread.length - chunk) tail.floor =
      tail.floor + (tail.unread.drop chunk).reverse.length := by
    rw [List.length_reverse, List.length_drop]
    omega
  have count : tail.floor + tail.unread.length -
      (tail.floor + (tail.unread.drop chunk).reverse.length) =
        (tail.unread.take chunk).reverse.length := by
    simp only [List.length_reverse, List.length_drop, List.length_take]
    omega
  have room : max 1 chunk = chunk := by omega
  simp only [Window.turn?, window, held, List.reverse_nil, List.nil_append,
    lastBreak?_of_no_lineFeed inner, if_pos (Nat.lt_add_of_pos_right positive), start, count,
    fetched, Option.map_some]
  simp [refill, held, room]

/-- The look for a line through the window ends, with the same line, and the same is held then. -/
theorem nextLine?_of_lineBefore (left : tail.LeftOf source) (filled : 0 < chunk)
    (inner : lineFeed ∉ line) (enough : tail.unread.length < turns) :
    Window.nextLine? source chunk turns (tail.window line) =
      some ((lineBefore chunk line tail).1, (lineBefore chunk line tail).2.window []) := by
  obtain ⟨turns, rfl⟩ : ∃ fewer, turns = fewer + 1 := ⟨turns - 1, by omega⟩
  fun_induction lineBefore chunk line tail generalizing turns with
  | case1 line tail shorter popped =>
    have found := lastBreak?_append shorter.held.reverse inner
    have behind : (shorter.held.reverse ++ lineFeed :: line).drop (shorter.held.reverse.length + 1) =
        line := by
      rw [List.append_cons, List.drop_left' (by simp)]
    have stop : shorter.floor + shorter.unread.length + shorter.held.reverse.length + 1 =
        tail.stop := by
      rw [tail.stop_eq, (pop?_eq_some popped).1, (pop?_eq_some popped).2, (data_pop popped).2,
        List.length_cons, List.length_reverse]
      omega
    rw [window_pop popped, Window.nextLine?, Window.turn?]
    simp only [window, found, behind, stop, List.take_left, List.append_nil]
  | case2 line tail byte shorter popped other ih =>
    rw [window_pop popped]
    exact ih ((leftOf_pop popped).mpr left) (by simp [Ne.symm other, inner]) turns
      (by rwa [(pop?_eq_some popped).2])
  | case3 line tail empty all =>
    have held := held_of_pop_none empty
    rw [Window.nextLine?, Window.turn?]
    simp only [window, held, all, List.reverse_nil, List.nil_append,
      lastBreak?_of_no_lineFeed inner, List.length_nil, Nat.add_zero, Nat.lt_irrefl, if_false]
    cases line with
    | nil => rfl
    | cons byte line => simp [stop_eq_floor tail, data_of_pop_none empty all]
  | case4 line tail empty more ih =>
    have positive := List.length_pos_iff.mpr more
    have fewer : (tail.refill chunk).unread.length < turns := by
      simp only [refill, List.length_drop]
      omega
    obtain ⟨turns, rfl⟩ : ∃ fewer, turns = fewer + 1 := ⟨turns - 1, by omega⟩
    rw [Window.nextLine?, turn?_refill left filled empty more inner]
    exact ih (left.refill chunk) inner turns fewer

theorem lineBefore_keeps (chunk : Nat) (line : Bytes) (tail : Tail) :
    (lineBefore chunk line tail).2.floor = tail.floor ∧
      (lineBefore chunk line tail).2.unread <:+ tail.unread := by
  fun_induction lineBefore chunk line tail with
  | case1 line tail shorter popped =>
    exact ⟨(data_pop popped).2, (pop?_eq_some popped).2 ▸ List.suffix_rfl⟩
  | case2 line tail byte shorter popped other ih =>
    exact ⟨ih.1.trans (data_pop popped).2, (pop?_eq_some popped).2 ▸ ih.2⟩
  | case3 line tail empty all => exact ⟨rfl, List.suffix_rfl⟩
  | case4 line tail empty more ih => exact ⟨ih.1, ih.2.trans (List.drop_suffix _ _)⟩

/-- The answers to a number of calls for a line. -/
def answers (chunk : Nat) : Nat → Tail → List (Option (Nat × Bytes))
  | 0, _ => []
  | calls + 1, tail => (tail.nextLine chunk).1 :: answers chunk calls (tail.nextLine chunk).2

/-- Call after call is answered through the window as it is by taking the bytes one by one. -/
theorem answers?_window (left : tail.LeftOf source) (filled : 0 < chunk)
    (enough : tail.unread.length < turns) (calls : Nat) :
    Window.answers? source chunk turns calls (tail.window []) =
      some (tail.answers chunk calls) := by
  induction calls generalizing tail with
  | zero => rfl
  | succ calls ih =>
    obtain ⟨floor, fewer⟩ := lineBefore_keeps chunk [] tail
    have behind : (lineBefore chunk [] tail).2.LeftOf source := by
      rw [LeftOf, floor]
      exact (List.reverse_prefix.mpr fewer).trans left
    have later := ih behind (Nat.lt_of_le_of_lt fewer.length_le enough)
    have step := nextLine?_of_lineBefore left filled List.not_mem_nil enough
    simp only [Window.answers?, step, later, Option.bind_eq_bind, Option.bind_some]
    rfl

end Tail

end ResumableCsv
