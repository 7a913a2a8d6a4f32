/-!
Text as lists of characters: blank characters, trimming, and the leftmost split on a separator.
The pieces of a split joined by the separator give the text back, whatever the separator.
-/

namespace ResumableCsv.Text

/-- The characters Unicode calls white space. -/
def isBlank (c : Char) : Bool :=
  let n := c.toNat
  (9 ≤ n && n ≤ 13) || n == 0x20 || n == 0x85 || n == 0xA0 || n == 0x1680 ||
    (0x2000 ≤ n && n ≤ 0x200A) || n == 0x2028 || n == 0x2029 || n == 0x202F || n == 0x205F ||
    n == 0x3000

def trimStart (text : List Char) : List Char := text.dropWhile isBlank

def trimEnd (text : List Char) : List Char := (text.reverse.dropWhile isBlank).reverse

def trim (text : List Char) : List Char := trimEnd (trimStart text)

theorem length_trimStart_le (text : List Char) : (trimStart text).length ≤ text.length :=
  (List.dropWhile_sublist isBlank).length_le

def isAsciiDigit (c : Char) : Bool := 0x30 ≤ c.toNat && c.toNat ≤ 0x39

def asciiLower (c : Char) : Char :=
  if 0x41 ≤ c.toNat && c.toNat ≤ 0x5A then Char.ofNat (c.toNat + 32) else c

/-- Puts a character in front of the first piece. -/
def consFirst (c : Char) : List (List Char) → List (List Char)
  | [] => [[c]]
  | piece :: pieces => (c :: piece) :: pieces

/-- Cuts the text at every leftmost, non-overlapping occurrence of the separator; an empty
separator cuts nothing. -/
def splitOn (separator text : List Char) : List (List Char) :=
  if separator ≠ [] ∧ separator.isPrefixOf text = true then
    [] :: splitOn separator (text.drop separator.length)
  else
    match text with
    | [] => [[]]
    | c :: rest => consFirst c (splitOn separator rest)
termination_by text.length
decreasing_by
  · rename_i found
    obtain ⟨nonempty, starts⟩ := found
    have leading := List.isPrefixOf_iff_prefix.mp starts
    have bound := leading.length_le
    have positive := List.length_pos_iff.mpr nonempty
    simp only [List.length_drop]
    omega
  · simp

def join (separator : List Char) : List (List Char) → List Char
  | [] => []
  | [piece] => piece
  | piece :: pieces => piece ++ separator ++ join separator pieces

theorem consFirst_ne_nil (c : Char) (pieces : List (List Char)) : consFirst c pieces ≠ [] := by
  cases pieces <;> simp [consFirst]

theorem splitOn_ne_nil (separator text : List Char) : splitOn separator text ≠ [] := by
  fun_cases splitOn separator text with
  | case1 => simp
  | case2 => simp
  | case3 c rest => exact consFirst_ne_nil c _

/-- A text without the separator is one piece. -/
theorem splitOn_of_not_mem {separator : Char} {text : List Char} (absent : separator ∉ text) :
    splitOn [separator] text = [text] := by
  induction text with
  | nil =>
    rw [splitOn]
    simp
  | cons c rest ih =>
    have other : separator ≠ c := fun same => absent (by simp [same])
    have later : separator ∉ rest := fun member => absent (by simp [member])
    rw [splitOn, if_neg (by simp [List.isPrefixOf, other])]
    simp only [ih later, consFirst]

theorem splitOn_append {separator : Char} {front : List Char} (absent : separator ∉ front)
    (back : List Char) :
    splitOn [separator] (front ++ separator :: back) = front :: splitOn [separator] back := by
  induction front with
  | nil =>
    rw [List.nil_append, splitOn, if_pos (by simp [List.isPrefixOf])]
    rfl
  | cons c rest ih =>
    have other : separator ≠ c := fun same => absent (by simp [same])
    have later : separator ∉ rest := fun member => absent (by simp [member])
    rw [List.cons_append, splitOn, if_neg (by simp [List.isPrefixOf, other])]
    simp only [ih later, consFirst]

theorem join_consFirst (separator : List Char) (c : Char) {pieces : List (List Char)}
    (nonempty : pieces ≠ []) : join separator (consFirst c pieces) = c :: join separator pieces := by
  rcases pieces with _ | ⟨piece, _ | ⟨next, rest⟩⟩
  · exact absurd rfl nonempty
  · rfl
  · simp [consFirst, join]

theorem join_splitOn (separator text : List Char) :
    join separator (splitOn separator text) = text := by
  fun_induction splitOn separator text with
  | case1 text found ih =>
    obtain ⟨rest, same⟩ := List.isPrefixOf_iff_prefix.mp found.2
    subst same
    have pieces := splitOn_ne_nil separator ((separator ++ rest).drop separator.length)
    revert ih pieces
    generalize splitOn separator ((separator ++ rest).drop separator.length) = others
    intro ih pieces
    rcases others with _ | ⟨piece, more⟩
    · exact absurd rfl pieces
    · simp [join, ih]
  | case2 => rfl
  | case3 c rest _ ih =>
    rw [join_consFirst separator c (splitOn_ne_nil separator rest), ih]

end ResumableCsv.Text
