import Mathlib.Data.List.Dedup
import Mathlib.Data.List.Induction
import Mathlib.Data.List.Perm.Subperm
import ResumableCsv.Proofs.RangeSet.InPlace

/-!
Range sets are canonical: the ranges depend on nothing but which values were added, whatever the
order and however often, and they hold as many numbers as there were different values.
-/

namespace ResumableCsv.RangeSet

variable {ranges one other : List (UInt64 × UInt64)} {n : Nat}

theorem le_of_covers {range : UInt64 × UInt64} (canonical : Canonical (range :: ranges))
    (covers : Covers (range :: ranges) n) : range.1.toNat ≤ n := by
  obtain ⟨filled, gap, _⟩ := canonical_cons.mp canonical
  rcases covers_cons.mp covers with inside | ⟨later, member, starts, _⟩
  · exact inside.1
  · have beyond := gap later member
    omega

/-- The number behind the first range is missing, and so the first range ends where the first run of
numbers does. -/
theorem not_covers_behind {range : UInt64 × UInt64} (canonical : Canonical (range :: ranges)) :
    ¬Covers (range :: ranges) (range.2.toNat + 1) := by
  obtain ⟨_, gap, _⟩ := canonical_cons.mp canonical
  rw [covers_cons]
  rintro (inside | ⟨later, member, starts, _⟩)
  · omega
  · have beyond := gap later member
    omega

theorem first_le_of_covers {first second : UInt64 × UInt64}
    (canonical : Canonical (first :: one)) (others : Canonical (second :: other))
    (same : ∀ n, Covers (first :: one) n ↔ Covers (second :: other) n) :
    first.1.toNat ≤ second.1.toNat ∧
      (first.1.toNat = second.1.toNat → first.2.toNat ≤ second.2.toNat) := by
  have filled := (canonical_cons.mp canonical).1
  have filled' := (canonical_cons.mp others).1
  constructor
  · exact le_of_covers canonical ((same _).mpr (covers_cons.mpr (.inl ⟨Nat.le_refl _, filled'⟩)))
  · intro starts
    by_contra longer
    exact not_covers_behind others
      ((same _).mp (covers_cons.mpr (.inl ⟨by omega, by omega⟩)))

/-- Ranges in order are told by the numbers in them. -/
theorem canonical_ext (canonical : Canonical one) (others : Canonical other)
    (same : ∀ n, Covers one n ↔ Covers other n) : one = other := by
  induction one generalizing other with
  | nil =>
    cases other with
    | nil => rfl
    | cons second other =>
      have filled := (canonical_cons.mp others).1
      have nothing := (same second.1.toNat).mpr (covers_cons.mpr (.inl ⟨Nat.le_refl _, filled⟩))
      simp [Covers] at nothing
  | cons first one ih =>
    cases other with
    | nil =>
      have filled := (canonical_cons.mp canonical).1
      have nothing := (same first.1.toNat).mp (covers_cons.mpr (.inl ⟨Nat.le_refl _, filled⟩))
      simp [Covers] at nothing
    | cons second other =>
      have forth := first_le_of_covers canonical others same
      have back := first_le_of_covers others canonical fun n => (same n).symm
      have starts : first.1.toNat = second.1.toNat := Nat.le_antisymm forth.1 back.1
      have ends : first.2.toNat = second.2.toNat :=
        Nat.le_antisymm (forth.2 starts) (back.2 starts.symm)
      have equal : first = second :=
        Prod.ext (UInt64.toNat_inj.mp starts) (UInt64.toNat_inj.mp ends)
      subst equal
      obtain ⟨filled, gap, later⟩ := canonical_cons.mp canonical
      obtain ⟨_, gap', later'⟩ := canonical_cons.mp others
      have beyond : ∀ {ranges : List (UInt64 × UInt64)},
          (∀ range ∈ ranges, first.2.toNat + 1 < range.1.toNat) → ∀ n, Covers ranges n →
            ¬n ≤ first.2.toNat := by
        rintro ranges far n ⟨range, member, starts, _⟩
        have behind := far range member
        omega
      rw [ih later later' fun n => ?_]
      constructor
      · intro covers
        rcases covers_cons.mp ((same n).mp (covers_cons.mpr (.inr covers))) with inside | there
        · exact absurd inside.2 (beyond gap n covers)
        · exact there
      · intro covers
        rcases covers_cons.mp ((same n).mpr (covers_cons.mpr (.inr covers))) with inside | there
        · exact absurd inside.2 (beyond gap' n covers)
        · exact there

/-- The numbers in some ranges, one by one. -/
def numbers (ranges : List (UInt64 × UInt64)) : List Nat :=
  ranges.flatMap fun range => List.range' range.1.toNat (range.2.toNat - range.1.toNat + 1)

theorem length_numbers (ranges : List (UInt64 × UInt64)) :
    (numbers ranges).length = count ranges := by
  induction ranges with
  | nil => rfl
  | cons range rest ih =>
    rw [numbers, List.flatMap_cons, List.length_append, List.length_range', ← numbers, ih, count]

theorem mem_numbers (canonical : Canonical ranges) : n ∈ numbers ranges ↔ Covers ranges n := by
  simp only [numbers, List.mem_flatMap, List.mem_range'_1, Covers]
  constructor
  · rintro ⟨range, member, starts, ends⟩
    have filled := canonical.filled range member
    exact ⟨range, member, starts, by omega⟩
  · rintro ⟨range, member, starts, ends⟩
    exact ⟨range, member, starts, by omega⟩

theorem nodup_numbers (canonical : Canonical ranges) : (numbers ranges).Nodup := by
  rw [numbers, List.nodup_flatMap]
  refine ⟨fun range _ => List.nodup_range', ?_⟩
  apply (List.pairwise_iff_forall_sublist.mpr fun {one other} both => ?_)
  have apart := List.pairwise_iff_forall_sublist.mp canonical.apart both
  have filled := canonical.filled one (both.subset (by simp))
  intro n here there
  rw [List.mem_range'_1] at here there
  omega

theorem ofList_concat (values : List UInt64) (value : UInt64) :
    ofList (values ++ [value]) = ((ofList values).add value).2 := List.foldl_concat ..

/-- Whatever is added one after the other, the ranges stay in order and hold just that. -/
theorem ranges_ofList (values : List UInt64) :
    Canonical (ofList values).ranges ∧
      ∀ n, Covers (ofList values).ranges n ↔ n ∈ values.map UInt64.toNat := by
  induction values using List.reverseRecOn with
  | nil => exact ⟨⟨by simp [ofList, empty], by simp [ofList, empty]⟩, by simp [ofList, empty, Covers]⟩
  | append_singleton values value ih =>
    rw [ofList_concat]
    refine ⟨(insertInto_spec ih.1).1, fun n => ((insertInto_spec ih.1).2 n).trans ?_⟩
    rw [ih.2 n]
    simp [or_comm]

/-- As many numbers are held as there were different values. -/
theorem size_ofList (values : List UInt64) : (ofList values).size = values.dedup.length := by
  obtain ⟨canonical, members⟩ := ranges_ofList values
  have distinct : (values.dedup.map UInt64.toNat).Nodup :=
    values.nodup_dedup.map fun _ _ same => UInt64.toNat_inj.mp same
  have same : (numbers (ofList values).ranges).Perm (values.dedup.map UInt64.toNat) := by
    rw [List.perm_ext_iff_of_nodup (nodup_numbers canonical) distinct]
    intro n
    rw [mem_numbers canonical, members n]
    simp
  calc (ofList values).size
    _ = (numbers (ofList values).ranges).length := (length_numbers _).symm
    _ = (values.dedup.map UInt64.toNat).length := same.length_eq
    _ = values.dedup.length := List.length_map _

/-- Unless all numbers are there, their count is one of them. -/
theorem length_dedup_lt {values : List UInt64} {absent : UInt64} (missing : absent ∉ values) :
    values.dedup.length < UInt64.size := by
  have distinct : ((absent :: values.dedup).map UInt64.toNat).Nodup :=
    (List.nodup_cons.mpr ⟨by simpa using missing, values.nodup_dedup⟩).map
      fun _ _ same => UInt64.toNat_inj.mp same
  have within : (absent :: values.dedup).map UInt64.toNat ⊆ List.range UInt64.size := by
    intro n member
    obtain ⟨value, _, rfl⟩ := List.mem_map.mp member
    exact List.mem_range.mpr value.toNat_lt
  have bound := (distinct.subperm within).length_le
  rwa [List.length_map, List.length_cons, List.length_range] at bound

/-- Adding values one after the other, whichever they are, keeps ascending ranges with a number
missing between any two, tells each time whether the value was missing, and comes to the same by
halving and changing the ranges in place, where every sum is taken in 64 bits. The set has just the
values that were added; it counts them, in 64 bits too as long as one number is missing; and its
ranges depend on nothing else. -/
theorem ofList_canonical {values : List UInt64} {absent : UInt64} (missing : absent ∉ values) :
    (∀ before value,
      (ofList before).add value = (decide (value ∉ before), ofList (before ++ [value])) ∧
      (ofList before).addAt? value = some ((ofList before).add value) ∧
      Canonical (ofList (before ++ [value])).ranges) ∧
    (∀ value, (ofList values).contains value = decide (value ∈ values) ∧
      (ofList values).containsAt value = decide (value ∈ values)) ∧
    (ofList values).size = values.dedup.length ∧
    (ofList values).size? = some (UInt64.ofNat values.dedup.length) ∧
    ∀ others, (∀ value, value ∈ others ↔ value ∈ values) → ofList others = ofList values := by
  have member (list : List UInt64) (value : UInt64) :
      (ofList list).contains value = decide (value ∈ list) := by
    rw [Bool.eq_iff_iff, contains_ofList, decide_eq_true_eq]
  obtain ⟨canonical, members⟩ := ranges_ofList values
  refine ⟨fun before value => ⟨?_, addAt?_eq (ranges_ofList before).1 value,
    (ranges_ofList _).1⟩, fun value => ⟨member values value, ?_⟩, size_ofList values, ?_, ?_⟩
  · rw [ofList_concat, add, member]
    simp
  · rw [containsAt_eq canonical, member]
  · rw [size?_eq canonical (by rw [size_ofList]; exact length_dedup_lt missing), size_ofList]
  · intro others same
    obtain ⟨canonical', members'⟩ := ranges_ofList others
    have equal : (ofList others).ranges = (ofList values).ranges := by
      apply canonical_ext canonical' canonical
      intro n
      rw [members', members, List.mem_map, List.mem_map]
      simp only [same]
    exact congrArg RangeSet.mk equal

/-- At both ends of the numbers, with values that bridge ranges and one that comes twice. -/
theorem ofList_canonical_sample :
    let values : List UInt64 := [0xFFFFFFFFFFFFFFFF, 2, 0, 1, 0xFFFFFFFFFFFFFFFE, 0]
    3 ∉ values ∧
      (ofList values).ranges = [(0, 2), (0xFFFFFFFFFFFFFFFE, 0xFFFFFFFFFFFFFFFF)] ∧
      (ofList values).size? = some 5 ∧
      ofList [0, 1, 2, 0xFFFFFFFFFFFFFFFE, 0xFFFFFFFFFFFFFFFF] = ofList values := by
  intro values
  have missing : (3 : UInt64) ∉ values := by decide
  obtain ⟨-, -, -, counted, determined⟩ := ofList_canonical missing
  refine ⟨missing, by decide, ?_, determined _ (by simp [values]; grind)⟩
  rw [counted]
  decide

end ResumableCsv.RangeSet
