import ResumableCsv.RangeSet

/-!
Range sets as sets: the ranges stay in order with a gap between any two, and adding a value adds
just that value.
-/

namespace ResumableCsv.RangeSet

/-- A number lies in one of the ranges. -/
def Covers (ranges : List (UInt64 × UInt64)) (n : Nat) : Prop :=
  ∃ range ∈ ranges, range.1.toNat ≤ n ∧ n ≤ range.2.toNat

/-- Ranges in ascending order, none empty, with a number missing between any two. -/
structure Canonical (ranges : List (UInt64 × UInt64)) : Prop where
  filled : ∀ range ∈ ranges, range.1.toNat ≤ range.2.toNat
  apart : ranges.Pairwise fun one other => one.2.toNat + 1 < other.1.toNat

theorem covers_cons {range : UInt64 × UInt64} {rest : List (UInt64 × UInt64)} {n : Nat} :
    Covers (range :: rest) n ↔ (range.1.toNat ≤ n ∧ n ≤ range.2.toNat) ∨ Covers rest n := by
  simp [Covers]

theorem canonical_cons {range : UInt64 × UInt64} {rest : List (UInt64 × UInt64)} :
    Canonical (range :: rest) ↔
      range.1.toNat ≤ range.2.toNat ∧ (∀ other ∈ rest, range.2.toNat + 1 < other.1.toNat) ∧
        Canonical rest := by
  constructor
  · rintro ⟨filled, apart⟩
    obtain ⟨first, later⟩ := List.pairwise_cons.mp apart
    exact ⟨filled range (by simp), first,
      fun other member => filled other (by simp [member]), later⟩
  · rintro ⟨filled, first, rest⟩
    refine ⟨?_, List.pairwise_cons.mpr ⟨first, rest.apart⟩⟩
    intro other member
    rcases List.mem_cons.mp member with rfl | there
    · exact filled
    · exact rest.filled other there

theorem succ_eq_iff {value next : UInt64} (below : value < next) :
    value + 1 = next ↔ value.toNat + 1 = next.toNat := by
  have bound := next.toNat_lt
  rw [UInt64.lt_iff_toNat_lt] at below
  rw [← UInt64.toNat_inj, UInt64.toNat_add, UInt64.toNat_one, Nat.mod_eq_of_lt (by omega)]

theorem lt_insertInto {value : UInt64} {ranges : List (UInt64 × UInt64)} {low : Nat}
    (below : low < value.toNat) (under : ∀ range ∈ ranges, low < range.1.toNat) :
    ∀ range ∈ insertInto value ranges, low < range.1.toNat := by
  fun_induction insertInto value ranges <;> simp_all <;> grind

/-- Adding a value keeps the ranges in order and adds just that value. -/
theorem insertInto_spec {value : UInt64} {ranges : List (UInt64 × UInt64)}
    (canonical : Canonical ranges) :
    Canonical (insertInto value ranges) ∧
      ∀ n, Covers (insertInto value ranges) n ↔ n = value.toNat ∨ Covers ranges n := by
  fun_induction insertInto value ranges with
  | case1 =>
    refine ⟨canonical_cons.mpr ⟨Nat.le_refl _, by simp, canonical⟩, fun n => ?_⟩
    simp only [covers_cons]
    grind
  | case2 last rest below =>
    obtain ⟨filled, gap, others⟩ := canonical_cons.mp canonical
    have next := (succ_eq_iff below).mp rfl
    simp only at filled gap
    refine ⟨canonical_cons.mpr ⟨by simp only; omega, gap, others⟩, fun n => ?_⟩
    simp only [covers_cons]
    grind
  | case3 first last rest below loose =>
    have gap := mt (succ_eq_iff below).mpr loose
    obtain ⟨filled, later, _⟩ := canonical_cons.mp canonical
    rw [UInt64.lt_iff_toNat_lt] at below
    simp only at filled later
    refine ⟨canonical_cons.mpr ⟨Nat.le_refl _, ?_, canonical⟩, fun n => ?_⟩
    · intro other member
      rcases List.mem_cons.mp member with rfl | there
      · simp only
        omega
      · have far := later other there
        simp only
        omega
    · simp only [covers_cons]
      grind
  | case4 first last rest above inside =>
    rw [UInt64.lt_iff_toNat_lt] at above
    rw [UInt64.le_iff_toNat_le] at inside
    refine ⟨canonical, fun n => ?_⟩
    simp only [covers_cons]
    grind
  | case5 first last above outside touching =>
    rw [UInt64.le_iff_toNat_le] at outside
    have next := (succ_eq_iff (UInt64.lt_iff_toNat_lt.mpr (by omega))).mp touching
    obtain ⟨filled, gap, others⟩ := canonical_cons.mp canonical
    simp only at filled
    refine ⟨canonical_cons.mpr ⟨by simp only; omega, by simp, others⟩, fun n => ?_⟩
    simp only [covers_cons]
    grind
  | case6 first last above outside touching final more =>
    rw [UInt64.le_iff_toNat_le] at outside
    have behind := (succ_eq_iff (UInt64.lt_iff_toNat_lt.mpr (by omega))).mp touching
    obtain ⟨filled, gap, others⟩ := canonical_cons.mp canonical
    obtain ⟨whole, far, rest⟩ := canonical_cons.mp others
    have beyond := gap (value + 1, final) (by simp)
    simp only at filled whole far beyond
    have ahead := (succ_eq_iff (UInt64.lt_iff_toNat_lt.mpr (by omega))).mp (rfl : value + 1 = _)
    refine ⟨canonical_cons.mpr ⟨by simp only; omega, far, rest⟩, fun n => ?_⟩
    simp only [covers_cons]
    grind
  | case7 first last above outside touching next final more loose =>
    rw [UInt64.le_iff_toNat_le] at outside
    have behind := (succ_eq_iff (UInt64.lt_iff_toNat_lt.mpr (by omega))).mp touching
    obtain ⟨filled, gap, others⟩ := canonical_cons.mp canonical
    have beyond := gap (next, final) (by simp)
    simp only at filled beyond
    have ahead := mt (succ_eq_iff (UInt64.lt_iff_toNat_lt.mpr (by omega))).mpr loose
    have far : ∀ other ∈ (next, final) :: more, value.toNat + 1 < other.1.toNat := by
      intro other member
      rcases List.mem_cons.mp member with rfl | there
      · simp only
        omega
      · have later := (canonical_cons.mp others).2.1 other there
        have whole := (canonical_cons.mp others).1
        simp only at later whole
        omega
    refine ⟨canonical_cons.mpr ⟨by simp only; omega, far, others⟩, fun n => ?_⟩
    simp only [covers_cons]
    grind
  | case8 first last rest above outside loose ih =>
    rw [UInt64.le_iff_toNat_le] at outside
    have gap := mt (succ_eq_iff (UInt64.lt_iff_toNat_lt.mpr (by omega))).mpr loose
    obtain ⟨filled, later, others⟩ := canonical_cons.mp canonical
    obtain ⟨still, members⟩ := ih others
    have low : last.toNat + 1 < value.toNat := by omega
    refine ⟨canonical_cons.mpr ⟨filled, lt_insertInto low later, still⟩, fun n => ?_⟩
    rw [covers_cons, covers_cons, members n]
    grind

theorem contains_iff {set : RangeSet} {value : UInt64} :
    set.contains value = true ↔ Covers set.ranges value.toNat := by
  simp [contains, Covers, UInt64.le_iff_toNat_le]

/-- What a set has after some values were added are these values and those it had. -/
theorem contains_foldl_add {values : List UInt64} {set : RangeSet}
    (canonical : Canonical set.ranges) (value : UInt64) :
    (values.foldl (fun set value => (set.add value).2) set).contains value = true ↔
      value ∈ values ∨ set.contains value = true := by
  induction values generalizing set with
  | nil => simp
  | cons first rest ih =>
    have step : Canonical (set.add first).2.ranges ∧
        ∀ n, Covers (set.add first).2.ranges n ↔ n = first.toNat ∨ Covers set.ranges n :=
      insertInto_spec canonical
    rw [List.foldl_cons, ih step.1, contains_iff, contains_iff, step.2, UInt64.toNat_inj,
      List.mem_cons]
    grind

theorem contains_ofList (values : List UInt64) (value : UInt64) :
    (ofList values).contains value = true ↔ value ∈ values := by
  rw [ofList, contains_foldl_add ⟨by simp [empty], by simp [empty]⟩]
  simp [empty, contains]

theorem contains_ofNat {indices : List Nat} (small : ∀ index ∈ indices, index < UInt64.size)
    {position : Nat} (fits : position < UInt64.size) :
    (ofList (indices.map UInt64.ofNat)).contains (UInt64.ofNat position) = true ↔
      position ∈ indices := by
  rw [contains_ofList, List.mem_map]
  constructor
  · rintro ⟨index, there, same⟩
    have numbers := congrArg UInt64.toNat same
    rw [UInt64.toNat_ofNat_of_lt' (small index there), UInt64.toNat_ofNat_of_lt' fits] at numbers
    exact numbers ▸ there
  · intro there
    exact ⟨position, there, rfl⟩

end ResumableCsv.RangeSet
