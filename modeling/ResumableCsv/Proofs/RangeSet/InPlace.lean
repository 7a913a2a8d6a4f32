import ResumableCsv.Proofs.RangeSet

/-!
Range sets in place: the place of a value is found by halving, one or two ranges are changed there,
and every sum is taken in 64 bits or not at all. As long as the ranges are in order, this comes to
what going through the ranges one by one comes to, and no sum is too large.
-/

namespace ResumableCsv.RangeSet

/-- The first place between two where `below` fails, if it holds of no place behind one where it
fails; every look halves what is left. -/
def bisect (below : Nat → Bool) (low high : Nat) : Nat :=
  if low < high then
    if below (low + (high - low) / 2) then bisect below (low + (high - low) / 2 + 1) high
    else bisect below low (low + (high - low) / 2)
  else low
termination_by high - low

/-- The sum of two numbers, if it is a 64-bit number. -/
def plus? (one other : UInt64) : Option UInt64 :=
  if one.toNat + other.toNat < UInt64.size then some (one + other) else none

/-- The difference of two numbers, if it is a 64-bit number. -/
def minus? (one other : UInt64) : Option UInt64 := if other ≤ one then some (one - other) else none

/-- How many ranges start at a value or in front of it. -/
def locate (ranges : List (UInt64 × UInt64)) (value : UInt64) : Nat :=
  bisect (fun place => ranges[place]?.any (·.1 ≤ value)) 0 ranges.length

/-- The range in front of a place. -/
def inFront (ranges : List (UInt64 × UInt64)) (place : Nat) : Option (UInt64 × UInt64) :=
  if place = 0 then none else ranges[place - 1]?

def containsAt (set : RangeSet) (value : UInt64) : Bool :=
  (inFront set.ranges (locate set.ranges value)).any (value ≤ ·.2)

/-- Whether one number comes right behind another; both may be missing. -/
def touches? : Option UInt64 → Option UInt64 → Option Bool
  | some last, some first => (plus? last 1).map (· == first)
  | _, _ => some false

/-- Puts a value at a place: it may join the range in front of the place with the one there, grow
one of them, or stand alone. -/
def putAt (ranges : List (UInt64 × UInt64)) (place : Nat) (value : UInt64) :
    Bool → Bool → List (UInt64 × UInt64)
  | true, true =>
    (ranges.modify (place - 1) fun left =>
      (left.1, ranges[place]?.elim value (·.2))).eraseIdx place
  | true, false => ranges.modify (place - 1) fun left => (left.1, value)
  | false, true => ranges.modify place fun right => (value, right.2)
  | false, false => ranges.insertIdx place (value, value)

/-- Adds a value where it belongs; nothing comes of it if a sum is too large. -/
def addAt? (set : RangeSet) (value : UInt64) : Option (Bool × RangeSet) :=
  let place := locate set.ranges value
  let left := inFront set.ranges place
  if left.any (value ≤ ·.2) then some (false, set)
  else do
    let joinsLeft ← touches? (left.map (·.2)) (some value)
    let joinsRight ← touches? (some value) (set.ranges[place]?.map (·.1))
    some (true, ⟨putAt set.ranges place value joinsLeft joinsRight⟩)

/-- Adds to a sum how many numbers a range holds. -/
def addWidth? (sum : UInt64) (range : UInt64 × UInt64) : Option UInt64 := do
  let gap ← minus? range.2 range.1
  let width ← plus? gap 1
  plus? sum width

/-- How many numbers the set holds, if that is a 64-bit number. -/
def size? (set : RangeSet) : Option UInt64 := set.ranges.foldlM addWidth? 0

variable {ranges front back : List (UInt64 × UInt64)} {value : UInt64}

/-- Halving finds the place in front of which `below` holds and from which on it fails. -/
theorem bisect_spec {below : Nat → Bool} {low high : Nat} (ordered : low ≤ high)
    (closed : ∀ one other, one ≤ other → other < high → below other = true → below one = true) :
    low ≤ bisect below low high ∧ bisect below low high ≤ high ∧
      (∀ place, low ≤ place → place < bisect below low high → below place = true) ∧
      ∀ place, bisect below low high ≤ place → place < high → below place = false := by
  fun_induction bisect below low high with
  | case1 low high more inside ih =>
    obtain ⟨above, under, holds, fails⟩ := ih (by omega) closed
    refine ⟨by omega, under, fun place from_low before => ?_, fails⟩
    by_cases passed : place ≤ low + (high - low) / 2
    · exact closed place _ passed (by omega) inside
    · exact holds place (by omega) before
  | case2 low high more outside ih =>
    obtain ⟨above, under, holds, fails⟩ := ih (by omega)
      (fun one other le lt => closed one other le (by omega))
    refine ⟨above, by omega, holds, fun place behind before => ?_⟩
    by_cases passed : place < low + (high - low) / 2
    · exact fails place behind passed
    · refine Bool.eq_false_iff.mpr fun inside => outside ?_
      exact closed _ place (by omega) before inside
  | case3 low high done =>
    exact ⟨Nat.le_refl _, ordered, fun place from_low before => by omega,
      fun place behind before => by omega⟩

theorem starts_ascend (canonical : Canonical ranges) {one other : Nat} (le : one ≤ other)
    (before : one < ranges.length) (inside : other < ranges.length) :
    ranges[one].1.toNat ≤ ranges[other].1.toNat := by
  rcases Nat.lt_or_eq_of_le le with lt | rfl
  · have far := List.pairwise_iff_getElem.mp canonical.apart one other before inside lt
    have filled := canonical.filled _ (List.getElem_mem before)
    omega
  · exact Nat.le_refl _

/-- A value parts the ranges into those that start at it or in front of it and those behind it. -/
theorem locate_spec (canonical : Canonical ranges) (value : UInt64) :
    ∃ front back, ranges = front ++ back ∧ locate ranges value = front.length ∧
      (∀ range ∈ front, range.1.toNat ≤ value.toNat) ∧
      ∀ range ∈ back, value.toNat < range.1.toNat := by
  have looked : ∀ place (inside : place < ranges.length),
      (ranges[place]?.any (·.1 ≤ value)) = decide (ranges[place].1.toNat ≤ value.toNat) := by
    intro place inside
    simp [List.getElem?_eq_getElem inside, UInt64.le_iff_toNat_le]
  have closed : ∀ one other, one ≤ other → other < ranges.length →
      ranges[other]?.any (·.1 ≤ value) = true → ranges[one]?.any (·.1 ≤ value) = true := by
    intro one other le inside below
    rw [looked other inside, decide_eq_true_eq] at below
    rw [looked one (by omega), decide_eq_true_eq]
    exact Nat.le_trans (starts_ascend canonical le (by omega) inside) below
  obtain ⟨-, under, holds, fails⟩ := bisect_spec (Nat.zero_le ranges.length) closed
  change locate ranges value ≤ ranges.length at under
  refine ⟨ranges.take (locate ranges value), ranges.drop (locate ranges value),
    (List.take_append_drop _ _).symm, by rw [List.length_take, Nat.min_eq_left under], ?_, ?_⟩
  · intro range member
    obtain ⟨place, inside, rfl⟩ := List.mem_iff_getElem.mp member
    rw [List.length_take] at inside
    have below := holds place (Nat.zero_le _) (by rw [locate] at inside; omega)
    rw [looked place (by omega), decide_eq_true_eq] at below
    rwa [List.getElem_take]
  · intro range member
    obtain ⟨place, inside, rfl⟩ := List.mem_iff_getElem.mp member
    rw [List.length_drop] at inside
    have above := fails (locate ranges value + place) (Nat.le_add_right _ _) (by omega)
    rw [looked _ (by omega), decide_eq_false_iff_not, Nat.not_le] at above
    rwa [List.getElem_drop]

theorem inFront_append (front back : List (UInt64 × UInt64)) :
    inFront (front ++ back) front.length = front.getLast? := by
  rcases List.eq_nil_or_concat front with rfl | ⟨init, last, rfl⟩
  · rfl
  · simp [inFront]

/-- Ranges in front of a value are passed over. -/
theorem insertInto_append
    (far : ∀ range ∈ front, range.1.toNat ≤ range.2.toNat ∧ range.2.toNat + 1 < value.toNat) :
    insertInto value (front ++ back) = front ++ insertInto value back := by
  induction front with
  | nil => rfl
  | cons range front ih =>
    obtain ⟨first, last⟩ := range
    obtain ⟨⟨filled, gap⟩, later⟩ := List.forall_mem_cons.mp far
    simp only at filled gap
    have above : ¬value < first := by
      rw [UInt64.lt_iff_toNat_lt]
      omega
    have outside : ¬value ≤ last := by
      rw [UInt64.le_iff_toNat_le]
      omega
    have loose : ¬last + 1 = value := by
      rw [succ_eq_iff (UInt64.lt_iff_toNat_lt.mpr (by omega))]
      omega
    rw [List.cons_append, insertInto.eq_def]
    simp only [if_neg above, if_neg outside, if_neg loose, ih later, List.cons_append]

/-- A value in front of all ranges grows the first of them, or it stands alone. -/
theorem insertInto_of_behind (behind : ∀ range ∈ back, value.toNat < range.1.toNat) :
    insertInto value back =
      if back.head?.any (value + 1 == ·.1) then back.modifyHead fun right => (value, right.2)
      else (value, value) :: back := by
  cases back with
  | nil => rfl
  | cons range more =>
    obtain ⟨next, final⟩ := range
    have below : value < next := UInt64.lt_iff_toNat_lt.mpr (behind (next, final) (by simp))
    simp only [insertInto, if_pos below, List.head?_cons, Option.any_some, beq_iff_eq,
      List.modifyHead_cons]

/-- Where ranges part at a value: what is in front ends with a range that may hold it. -/
theorem covers_iff_of_parted (canonical : Canonical (front ++ back))
    (before : ∀ range ∈ front, range.1.toNat ≤ value.toNat)
    (behind : ∀ range ∈ back, value.toNat < range.1.toNat) :
    Covers (front ++ back) value.toNat ↔ ∃ range ∈ front.getLast?, value ≤ range.2 := by
  constructor
  · rintro ⟨range, member, starts, ends⟩
    rcases List.mem_append.mp member with there | there
    · rcases List.eq_nil_or_concat front with rfl | ⟨init, last, rfl⟩
      · cases there
      · rw [List.concat_eq_append] at canonical before there ⊢
        refine ⟨last, by simp, UInt64.le_iff_toNat_le.mpr ?_⟩
        rcases List.mem_append.mp there with earlier | here
        · have apart := (List.pairwise_append.mp (List.pairwise_append.mp canonical.apart).1).2.2
            range earlier last (by simp)
          have reached := before last (by simp)
          omega
        · rwa [← List.mem_singleton.mp here]
    · have beyond := behind range there
      omega
  · rintro ⟨range, last, ends⟩
    have member := List.mem_of_getLast? last
    exact ⟨range, List.mem_append_left _ member, before range member,
      UInt64.le_iff_toNat_le.mp ends⟩

/-- Looking at one range tells whether a value was added. -/
theorem containsAt_eq {set : RangeSet} (canonical : Canonical set.ranges) (value : UInt64) :
    set.containsAt value = set.contains value := by
  obtain ⟨front, back, parts, place, before, behind⟩ := locate_spec canonical value
  rw [Bool.eq_iff_iff, contains_iff, containsAt, place, parts, inFront_append,
    covers_iff_of_parted (parts ▸ canonical) before behind]
  simp [Option.any_eq_true]

theorem insertInto_of_inside {first last : UInt64} (starts : first.toNat ≤ value.toNat)
    (ends : value ≤ last) : insertInto value ((first, last) :: back) = (first, last) :: back := by
  have above : ¬value < first := by
    rw [UInt64.lt_iff_toNat_lt]
    omega
  rw [insertInto.eq_def]
  simp only [if_neg above, if_pos ends]

/-- A value right behind a range grows it, up to the next one if that starts right behind it. -/
theorem insertInto_of_touching {first last : UInt64} (starts : first.toNat ≤ value.toNat)
    (outside : ¬value ≤ last) (touching : last + 1 = value) :
    insertInto value ((first, last) :: back) =
      if back.head?.any (value + 1 == ·.1) then
        (first, back.head?.elim value (·.2)) :: back.tail
      else (first, value) :: back := by
  have above : ¬value < first := by
    rw [UInt64.lt_iff_toNat_lt]
    omega
  rw [insertInto.eq_def]
  simp only [if_neg above, if_neg outside, if_pos touching]
  cases back with
  | nil => rfl
  | cons range more => simp

theorem plus?_one_of_lt {next : UInt64} (below : value < next) :
    plus? value 1 = some (value + 1) := by
  have bound := next.toNat_lt
  rw [UInt64.lt_iff_toNat_lt] at below
  rw [plus?, if_pos]
  simp only [UInt64.toNat_one, UInt64.size]
  omega

/-- Ranges before the one in front of a place stay as they are. -/
theorem putAt_append (front : List (UInt64 × UInt64)) (left : UInt64 × UInt64)
    (back : List (UInt64 × UInt64)) (value : UInt64) (joinsLeft joinsRight : Bool) :
    putAt (front ++ left :: back) (front.length + 1) value joinsLeft joinsRight =
      front ++ putAt (left :: back) 1 value joinsLeft joinsRight := by
  have changed (change : UInt64 × UInt64 → UInt64 × UInt64) (place : Nat) :
      (front ++ left :: back).modify (front.length + place) change =
        front ++ (left :: back).modify place change := List.modifyTailIdx_add ..
  have shown : (front ++ left :: back)[front.length + 1]? = (left :: back)[1]? := by
    rw [List.getElem?_append_right (Nat.le_add_right _ _), Nat.add_sub_cancel_left]
  cases joinsLeft <;> cases joinsRight
  · exact List.modifyTailIdx_add ..
  · exact changed _ 1
  · exact changed _ 0
  · rw [putAt, shown, Nat.add_sub_cancel, ← Nat.add_zero front.length, changed _ 0,
      Nat.add_zero, List.eraseIdx_append_of_length_le (Nat.le_add_right _ _),
      Nat.add_sub_cancel_left]
    rfl

theorem touches?_of_behind (behind : ∀ range ∈ back, value.toNat < range.1.toNat) :
    touches? (some value) (back.head?.map (·.1)) = some (back.head?.any (value + 1 == ·.1)) := by
  cases back with
  | nil => rfl
  | cons range more =>
    have below : value < range.1 := UInt64.lt_iff_toNat_lt.mpr (behind range (by simp))
    simp [touches?, plus?_one_of_lt below]

/-- In place a value is added just as it is by going through the ranges, and no sum is too large. -/
theorem addAt?_eq {set : RangeSet} (canonical : Canonical set.ranges) (value : UInt64) :
    set.addAt? value = some (set.add value) := by
  have there := containsAt_eq canonical value
  obtain ⟨ranges⟩ := set
  obtain ⟨front, back, rfl, place, before, behind⟩ := locate_spec canonical value
  have right : (front ++ back)[front.length]? = back.head? := by
    rw [List.getElem?_append_right (Nat.le_refl _), Nat.sub_self, List.head?_eq_getElem?]
  simp only [containsAt, place, inFront_append] at there
  simp only [addAt?, place, inFront_append, right, touches?_of_behind behind, add, ← there]
  rcases List.eq_nil_or_concat front with rfl | ⟨init, ⟨first, last⟩, rfl⟩
  · rw [List.nil_append, insertInto_of_behind behind]
    cases joined : back.head?.any (value + 1 == ·.1) <;>
      simp [touches?, putAt, List.modifyHead_eq_modify_zero]
  · rw [List.concat_eq_append] at canonical before ⊢
    have starts := before (first, last) (by simp)
    have far : ∀ range ∈ init, range.1.toNat ≤ range.2.toNat ∧
        range.2.toNat + 1 < value.toNat := by
      intro range member
      have apart := (List.pairwise_append.mp (List.pairwise_append.mp canonical.apart).1).2.2
        range member (first, last) (by simp)
      simp only at apart starts
      exact ⟨canonical.filled range (by simp [member]), by omega⟩
    rw [List.append_assoc, List.singleton_append, insertInto_append far, List.length_append,
      List.length_singleton, List.getLast?_concat]
    by_cases ends : value ≤ last
    · rw [insertInto_of_inside starts ends]
      simp [ends]
    · have beyond : last < value := by
        rw [UInt64.le_iff_toNat_le] at ends
        exact UInt64.lt_iff_toNat_lt.mpr (by omega)
      have left : touches? (some last) (some value) = some (last + 1 == value) := by
        simp [touches?, plus?_one_of_lt beyond]
      simp only [Option.any_some, ends, decide_false, Option.map_some, left, putAt_append]
      by_cases touching : last + 1 = value
      · rw [insertInto_of_touching starts ends touching]
        cases back with
        | nil => simp [touching, putAt]
        | cons range more =>
          cases joined : value + 1 == range.1 <;> simp [touching, joined, putAt]
      · have loose : (last + 1 == value) = false := beq_eq_false_iff_ne.mpr touching
        have filled := canonical.filled (first, last) (by simp)
        have gap := mt (succ_eq_iff beyond).mpr touching
        rw [UInt64.lt_iff_toNat_lt] at beyond
        have passed : insertInto value ([(first, last)] ++ back) =
            [(first, last)] ++ insertInto value back :=
          insertInto_append (by simpa using ⟨filled, by omega⟩)
        rw [List.singleton_append] at passed
        rw [passed, insertInto_of_behind behind]
        cases joined : back.head?.any (value + 1 == ·.1) <;>
          simp [loose, putAt, List.modifyHead_eq_modify_zero]

theorem plus?_of_fits {one other : UInt64} (fits : one.toNat + other.toNat < UInt64.size) :
    plus? one other = some (UInt64.ofNat (one.toNat + other.toNat)) := by
  rw [plus?, if_pos fits, UInt64.ofNat_add, UInt64.ofNat_toNat, UInt64.ofNat_toNat]

theorem addWidth?_of_fits {sum first last : UInt64} (filled : first.toNat ≤ last.toNat)
    (fits : sum.toNat + (last.toNat - first.toNat + 1) < UInt64.size) :
    addWidth? sum (first, last) =
      some (UInt64.ofNat (sum.toNat + (last.toNat - first.toNat + 1))) := by
  have ordered : first ≤ last := UInt64.le_iff_toNat_le.mpr filled
  have gap : (last - first).toNat = last.toNat - first.toNat :=
    UInt64.toNat_sub_of_le _ _ ordered
  have width : plus? (last - first) 1 = some (UInt64.ofNat (last.toNat - first.toNat + 1)) := by
    rw [plus?_of_fits (by rw [gap, UInt64.toNat_one]; omega), gap, UInt64.toNat_one]
  have small : (UInt64.ofNat (last.toNat - first.toNat + 1)).toNat =
      last.toNat - first.toNat + 1 := UInt64.toNat_ofNat_of_lt' (by omega)
  have total : plus? sum (UInt64.ofNat (last.toNat - first.toNat + 1)) =
      some (UInt64.ofNat (sum.toNat + (last.toNat - first.toNat + 1))) := by
    rw [plus?_of_fits (by rwa [small]), small]
  simp only [addWidth?, minus?, if_pos ordered, Option.bind_eq_bind, Option.bind_some, width, total]

theorem foldlM_addWidth? (canonical : Canonical ranges) (sum : UInt64)
    (fits : sum.toNat + count ranges < UInt64.size) :
    ranges.foldlM addWidth? sum = some (UInt64.ofNat (sum.toNat + count ranges)) := by
  induction ranges generalizing sum with
  | nil => simp [count]
  | cons range rest ih =>
    obtain ⟨first, last⟩ := range
    obtain ⟨filled, -, later⟩ := canonical_cons.mp canonical
    rw [count] at fits ⊢
    have step : addWidth? sum (first, last) =
        some (UInt64.ofNat (sum.toNat + (last.toNat - first.toNat + 1))) :=
      addWidth?_of_fits filled (by omega)
    have total : (UInt64.ofNat (sum.toNat + (last.toNat - first.toNat + 1))).toNat =
        sum.toNat + (last.toNat - first.toNat + 1) := UInt64.toNat_ofNat_of_lt' (by omega)
    rw [List.foldlM_cons, step, Option.bind_eq_bind, Option.bind_some,
      ih later _ (by simp only [total]; omega)]
    simp only [total, Nat.add_assoc]

/-- The numbers of a set are counted in 64 bits as long as their count has so many. -/
theorem size?_eq {set : RangeSet} (canonical : Canonical set.ranges)
    (fits : set.size < UInt64.size) : set.size? = some (UInt64.ofNat set.size) := by
  have counted := foldlM_addWidth? canonical 0 (by rwa [UInt64.toNat_zero, Nat.zero_add])
  rwa [UInt64.toNat_zero, Nat.zero_add] at counted

end ResumableCsv.RangeSet
