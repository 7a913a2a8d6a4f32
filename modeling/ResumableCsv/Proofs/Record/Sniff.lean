import Mathlib.Data.List.Basic
import ResumableCsv.Record.Sniff

/-!
What a delimiter is guessed from: of the candidates, the first that the first line of a sample shows
most often outside double quotes. A comma stands in when the line shows none of them, as it is the
first candidate. A sample that reaches the end of its first line is as good as any longer one.
-/

namespace ResumableCsv

namespace Sniff

/-- The first of some candidates that a line shows most often. -/
def FirstMost (line : Bytes) (among : List UInt8) (winner : UInt8) : Prop :=
  ∃ before after, among = before ++ winner :: after ∧
    (∀ other ∈ before, line.count other < line.count winner) ∧
    ∀ other ∈ after, line.count other ≤ line.count winner

/-- The first candidate that the first line of a sample shows most often outside double quotes. -/
def Leads (sample : Bytes) (candidate : UInt8) : Prop :=
  FirstMost (openLine false sample) candidates candidate

variable {line sample : Bytes} {among rest : List UInt8} {winner other held : UInt8}

theorem firstMost_cons_iff :
    FirstMost line (held :: rest) winner ↔
      (winner = held ∧ ∀ other ∈ rest, line.count other ≤ line.count held) ∨
        (line.count held < line.count winner ∧ FirstMost line rest winner) := by
  constructor
  · rintro ⟨before, after, split, earlier, later⟩
    cases before with
    | nil =>
      obtain ⟨rfl, rfl⟩ := List.cons.inj split
      exact .inl ⟨rfl, later⟩
    | cons _ before =>
      obtain ⟨rfl, rfl⟩ := List.cons.inj split
      obtain ⟨fewer, earlier⟩ := List.forall_mem_cons.mp earlier
      exact .inr ⟨fewer, before, after, rfl, earlier, later⟩
  · rintro (⟨rfl, later⟩ | ⟨fewer, before, after, rfl, earlier, later⟩)
    · exact ⟨[], rest, rfl, by simp, later⟩
    · exact ⟨held :: before, after, rfl, List.forall_mem_cons.mpr ⟨fewer, earlier⟩, later⟩

theorem FirstMost.mem (first : FirstMost line among winner) : winner ∈ among := by
  obtain ⟨before, after, rfl, _, _⟩ := first
  simp

theorem FirstMost.bound (first : FirstMost line among winner) (member : other ∈ among) :
    line.count other ≤ line.count winner := by
  obtain ⟨before, after, rfl, fewer, most⟩ := first
  rcases List.mem_append.mp member with member | member
  · exact Nat.le_of_lt (fewer other member)
  · rcases List.mem_cons.mp member with rfl | member
    · exact Nat.le_refl _
    · exact most other member

/-- A candidate that is no better than the one in front of it may be left out. -/
theorem FirstMost.insert (first : FirstMost line (held :: rest) winner)
    (worse : line.count other ≤ line.count held) :
    FirstMost line (held :: other :: rest) winner := by
  rw [firstMost_cons_iff, firstMost_cons_iff]
  rcases firstMost_cons_iff.mp first with ⟨rfl, later⟩ | ⟨fewer, later⟩
  · exact .inl ⟨rfl, List.forall_mem_cons.mpr ⟨worse, later⟩⟩
  · exact .inr ⟨fewer, .inr ⟨Nat.lt_of_le_of_lt worse fewer, later⟩⟩

theorem FirstMost.unique (first : FirstMost line among winner)
    (second : FirstMost line among other) : winner = other := by
  induction among with
  | nil => exact absurd first.mem List.not_mem_nil
  | cons held rest ih =>
    rcases firstMost_cons_iff.mp first with ⟨rfl, most⟩ | ⟨fewer, later⟩ <;>
      rcases firstMost_cons_iff.mp second with ⟨rfl, most'⟩ | ⟨fewer', later'⟩
    · rfl
    · exact absurd (most other later'.mem) (Nat.not_le_of_lt fewer')
    · exact absurd (most' winner later.mem) (Nat.not_le_of_lt fewer)
    · exact ih later later'

theorem foldl_better_some (line : Bytes) (held : UInt8) (among : List UInt8) :
    ∃ winner, among.foldl (better line) (some held) = some winner ∧
      FirstMost line (held :: among) winner := by
  induction among generalizing held with
  | nil => exact ⟨held, rfl, [], [], rfl, by simp, by simp⟩
  | cons next among ih =>
    by_cases more : line.count held < line.count next
    · obtain ⟨winner, found, first⟩ := ih next
      have most := Nat.lt_of_lt_of_le more (first.bound List.mem_cons_self)
      exact ⟨winner, by simpa [better, more] using found,
        firstMost_cons_iff.mpr (.inr ⟨most, first⟩)⟩
    · obtain ⟨winner, found, first⟩ := ih held
      exact ⟨winner, by simpa [better, more] using found, first.insert (Nat.le_of_not_lt more)⟩

/-- Going through candidates finds the first of those that the line shows most often, unless it
shows none. -/
theorem foldl_better_none (line : Bytes) (among : List UInt8) :
    (among.foldl (better line) none = none ∧ ∀ other ∈ among, line.count other = 0) ∨
      ∃ winner, among.foldl (better line) none = some winner ∧ 0 < line.count winner ∧
        FirstMost line among winner := by
  induction among with
  | nil => exact .inl ⟨rfl, by simp⟩
  | cons next among ih =>
    -- The first candidate that is shown at all is held from then on.
    by_cases shown : 0 < line.count next
    · obtain ⟨winner, found, first⟩ := foldl_better_some line next among
      have most := Nat.lt_of_lt_of_le shown (first.bound List.mem_cons_self)
      exact .inr ⟨winner, by simpa [better, shown] using found, most, first⟩
    · have absent : line.count next = 0 := Nat.eq_zero_of_not_pos shown
      have skip : better line none next = none := by simp [better, shown]
      rw [List.foldl_cons, skip]
      rcases ih with ⟨nothing, hidden⟩ | ⟨winner, found, most, first⟩
      · exact .inl ⟨nothing, List.forall_mem_cons.mpr ⟨absent, hidden⟩⟩
      · exact .inr ⟨winner, found, most,
          firstMost_cons_iff.mpr (.inr ⟨by rwa [absent], first⟩)⟩

/-- The delimiter guessed from a sample; a comma stands in when it shows no candidate. -/
def guess (sample : Bytes) : UInt8 := (delimiter? sample).getD Path.comma

theorem leads_guess (sample : Bytes) : Leads sample (guess sample) := by
  unfold guess delimiter?
  rcases foldl_better_none (openLine false sample) candidates with
    ⟨nothing, hidden⟩ | ⟨winner, found, _, first⟩
  · rw [nothing]
    obtain ⟨absent, hidden⟩ := List.forall_mem_cons.mp hidden
    refine firstMost_cons_iff.mpr (.inl ⟨rfl, fun other member => ?_⟩)
    rw [hidden other member]
    exact Nat.zero_le _
  · rwa [found]

theorem Leads.unique (first : Leads sample winner) (second : Leads sample other) :
    winner = other :=
  FirstMost.unique first second

theorem guess_eq_iff : guess sample = winner ↔ Leads sample winner :=
  ⟨fun same => same ▸ leads_guess sample, (leads_guess sample).unique⟩

theorem openLine_append {before : Bytes}
    (plain : ∀ byte ∈ before, byte ≠ doubleQuote ∧ byte ≠ Record.lineFeed) (after : Bytes) :
    openLine false (before ++ after) = before ++ openLine false after := by
  induction before with
  | nil => rfl
  | cons byte before ih =>
    obtain ⟨⟨unquoted, inner⟩, plain⟩ := List.forall_mem_cons.mp plain
    simp [openLine, unquoted, inner, ih plain]

/-- A line feed ends the line when the double quotes in front of it are even in number. -/
theorem openLine_append_lineFeed {inQuotes : Bool} {before : Bytes} (after : Bytes)
    (outside : before.count doubleQuote % 2 = inQuotes.toNat) :
    openLine inQuotes (before ++ Record.lineFeed :: after) = openLine inQuotes before := by
  induction before generalizing inQuotes with
  | nil =>
    cases inQuotes with
    | true => cases outside
    | false => rfl
  | cons byte before ih =>
    by_cases quote : byte = doubleQuote
    · have flipped : before.count doubleQuote % 2 = (!inQuotes).toNat := by
        rw [quote, List.count_cons_self] at outside
        cases inQuotes <;>
          simp only [Bool.toNat_true, Bool.toNat_false, Bool.not_true, Bool.not_false]
            at outside ⊢ <;> omega
      simp [openLine, quote, ih flipped]
    · rw [List.count_cons_of_ne quote] at outside
      simp only [List.cons_append, openLine, if_neg quote, ih outside]

end Sniff

end ResumableCsv
