import ResumableCsv.Enrich.Basic
import ResumableCsv.Proofs.Reader.Rows
import ResumableCsv.Proofs.Resume.Skips

/-!
What an enricher offers: the rows of its input that are not done, in order and each with its
position, and then nothing more.
-/

namespace ResumableCsv

/-- Rows numbered from `index` on, without those at done positions. -/
def offers (done : Nat → Bool) (index : Nat) : List Row → List Offer
  | [] => []
  | row :: rows =>
    if done index then offers done (index + 1) rows
    else ⟨index, row, none⟩ :: offers done (index + 1) rows

theorem mem_offers {done : Nat → Bool} {index : Nat} {rows : List Row} {offer : Offer} :
    offer ∈ offers done index rows ↔
      ∃ position row, rows[position]? = some row ∧ done (index + position) = false ∧
        offer = ⟨index + position, row, none⟩ := by
  induction rows generalizing index with
  | nil => simp [offers]
  | cons row rows ih =>
    have shifted : (∃ position other, rows[position]? = some other ∧
          done (index + 1 + position) = false ∧ offer = ⟨index + 1 + position, other, none⟩) ↔
        ∃ position other, (row :: rows)[position + 1]? = some other ∧
          done (index + (position + 1)) = false ∧
          offer = ⟨index + (position + 1), other, none⟩ := by
      simp only [List.getElem?_cons_succ, Nat.add_assoc, Nat.add_comm 1]
    have split (holds : Nat → Row → Prop) : (∃ position other, holds position other) ↔
        (∃ other, holds 0 other) ∨ ∃ position other, holds (position + 1) other := by
      constructor
      · rintro ⟨_ | position, other, found⟩
        · exact .inl ⟨other, found⟩
        · exact .inr ⟨position, other, found⟩
      · rintro (⟨other, found⟩ | ⟨position, other, found⟩)
        · exact ⟨0, other, found⟩
        · exact ⟨position + 1, other, found⟩
    rw [split, ← shifted, ← ih]
    cases here : done index <;> simp [offers, here]

/-- Offers come in strictly ascending order of their positions. -/
theorem pairwise_offers (done : Nat → Bool) (index : Nat) (rows : List Row) :
    (offers done index rows).Pairwise fun one other => one.index < other.index := by
  induction rows generalizing index with
  | nil => exact .nil
  | cons row rows ih =>
    unfold offers
    split
    · exact ih (index + 1)
    · refine .cons ?_ (ih (index + 1))
      intro other member
      obtain ⟨position, _, _, _, rfl⟩ := mem_offers.mp member
      simp only
      omega

theorem nodup_offers (done : Nat → Bool) (index : Nat) (rows : List Row) :
    (offers done index rows).Nodup := by
  refine (pairwise_offers done index rows).imp ?_
  rintro one other earlier rfl
  exact Nat.lt_irrefl _ earlier

theorem length_offers (index : Nat) (rows : List Row) :
    (offers (fun _ => false) index rows).length = rows.length := by
  induction rows generalizing index with
  | nil => rfl
  | cons row rows ih => simp [offers, ih]

/-- When the first rows are done, the others are offered. -/
theorem offers_lt (count index : Nat) (rows : List Row) :
    offers (fun position => decide (position < count)) index rows =
      ((rows.zipIdx index).drop (count - index)).map fun (row, position) =>
        ⟨position, row, none⟩ := by
  induction rows generalizing index with
  | nil => simp [offers]
  | cons row rows ih =>
    unfold offers
    by_cases behind : index < count
    · have one_more : count - index = count - (index + 1) + 1 := by omega
      simp [behind, ih, one_more]
    · have all : count - index = 0 ∧ count - (index + 1) = 0 := by omega
      simp [behind, ih, all]

theorem offers_lt_eq_drop (count : Nat) (rows : List Row) :
    offers (fun position => decide (position < count)) 0 rows =
      (offers (fun _ => false) 0 rows).drop count := by
  have none_done : (fun _ => false) = fun position : Nat => decide (position < 0) := by
    funext position
    simp
  rw [none_done, offers_lt, offers_lt, Nat.sub_zero, Nat.sub_zero, List.drop_zero, List.map_drop]

/-- Of all rows those are offered that are not done. -/
theorem offers_eq_filter (done : Nat → Bool) (index : Nat) (rows : List Row) :
    offers done index rows =
      (offers (fun _ => false) index rows).filter fun offer => !done offer.index := by
  induction rows generalizing index with
  | nil => rfl
  | cons row rows ih => cases here : done index <;> simp [offers, here, ih]

/-- When some rows are done the others are offered, in whatever order both were listed. -/
theorem perm_offers_of_done {kept rest : List Offer} {rows : List Row}
    (whole : (kept ++ rest).Perm (offers (fun _ => false) 0 rows)) :
    (offers (fun index => decide (index ∈ kept.map Offer.index)) 0 rows).Perm rest := by
  have distinct : ((kept ++ rest).map Offer.index).Nodup := by
    rw [(whole.map Offer.index).nodup_iff, List.Nodup, List.pairwise_map]
    exact (pairwise_offers _ 0 rows).imp fun earlier => Nat.ne_of_lt earlier
  rw [List.map_append, List.nodup_append] at distinct
  rw [offers_eq_filter]
  refine (whole.symm.filter _).trans (.of_eq ?_)
  rw [List.filter_append, List.filter_eq_nil_iff.mpr, List.nil_append, List.filter_eq_self]
  · intro offer member
    rw [Bool.not_eq_true', decide_eq_false_iff_not]
    exact fun there => distinct.2.2 _ there _ (List.mem_map_of_mem member) rfl
  · intro offer member
    rw [Bool.not_eq_true', decide_eq_false_iff_not]
    exact fun absent => absent (List.mem_map_of_mem member)

namespace Enricher

theorem next_of_end {enricher : Enricher} {rest : Reader}
    (ended : enricher.reader.next = (none, rest)) (work : Workspace) :
    enricher.next work =
      (enricher.objection, { enricher with reader := rest, finished := true }, work) := by
  rw [next]
  split <;> simp_all

theorem next_of_row {enricher : Enricher} {rest : Reader} {row : Row}
    (step : enricher.reader.next = (some (.ok row), rest)) (work : Workspace) :
    enricher.next work =
      let advanced := { enricher with reader := rest, nextIndex := enricher.nextIndex + 1 }
      match decide enricher.resumer enricher.nextIndex row work with
      | (.error error, resumer, work) =>
        (some (.error error), { advanced with resumer := resumer }, work)
      | (.ok (.offer resume), resumer, work) =>
        (some (.ok ⟨enricher.nextIndex, row, resume⟩), { advanced with resumer := resumer }, work)
      | (.ok .skip, resumer, work) => next { advanced with resumer := resumer } work := by
  rw [next]
  split
  next other => simp_all
  next other => simp_all
  next other =>
    rw [step] at other
    cases other
    rfl

theorem pull_of_next_none {enricher : Enricher} {work : Workspace}
    (ended : (enricher.next work).1 = none) : (enricher.pull none work).1 = [] := by
  rw [pull]
  simp only [reduceCtorEq, if_false]
  split
  next => rfl
  next step =>
    rw [step] at ended
    cases ended

theorem pull_of_next_some {enricher later : Enricher} {work rest : Workspace}
    {item : Except Error Offer} (step : enricher.next work = (some item, later, rest)) :
    (enricher.pull none work).1 = item :: (later.pull none rest).1 := by
  rw [pull]
  simp only [reduceCtorEq, if_false]
  split
  next other =>
    rw [step] at other
    cases other
  next other =>
    rw [step] at other
    cases other
    rfl

/-- Another enricher that writes as this one does. -/
structure Alike (enricher other : Enricher) : Prop where
  writer_eq : other.writer = enricher.writer
  plan_eq : other.plan = enricher.plan
  endSymbol_eq : other.endSymbol = enricher.endSymbol
  rowLength_eq : other.reader.rowLength = enricher.reader.rowLength

theorem rowLength_of_next {reader rest : Reader} {item : Option (Except Error Row)}
    (step : reader.next = (item, rest)) : rest.rowLength = reader.rowLength := by
  have shape := Reader.shape_next reader
  rw [step] at shape
  exact congrArg Reader.Shape.rowLength shape

/-- These rows are still to come, and the done ones of them will be skipped. -/
structure Awaits (enricher : Enricher) (done : Nat → Bool) (remaining : List Row) : Prop where
  rows_eq : enricher.reader.rows = remaining.map .ok
  skips : ∃ resumer, enricher.resumer = some resumer ∧
    resumer.Skips done enricher.nextIndex (enricher.nextIndex + remaining.length)

theorem Awaits.objection_eq {enricher : Enricher} {done : Nat → Bool}
    (awaits : enricher.Awaits done []) : enricher.objection = none := by
  obtain ⟨resumer, held, skips⟩ := awaits.skips
  unfold objection
  split
  · rfl
  · simp [held, Resumer.finish_of_skips skips]

theorem Alike.trans {enricher other last : Enricher} (first : enricher.Alike other)
    (second : other.Alike last) : enricher.Alike last :=
  ⟨second.writer_eq.trans first.writer_eq, second.plan_eq.trans first.plan_eq,
    second.endSymbol_eq.trans first.endSymbol_eq, second.rowLength_eq.trans first.rowLength_eq⟩

/-- The next row is passed over when it is done, and offered otherwise. -/
theorem Awaits.step {enricher : Enricher} {done : Nat → Bool} {row : Row} {remaining : List Row}
    (awaits : enricher.Awaits done (row :: remaining)) (work : Workspace) :
    ∃ later, enricher.next work =
        (if done enricher.nextIndex then later.next work
          else (some (.ok ⟨enricher.nextIndex, row, none⟩), later, work)) ∧
      later.nextIndex = enricher.nextIndex + 1 ∧ later.Awaits done remaining ∧
      enricher.Alike later := by
  obtain ⟨rest, step, after⟩ := Reader.next_of_rows_cons awaits.rows_eq
  obtain ⟨resumer, held, skips⟩ := awaits.skips
  obtain ⟨later, filtered, still⟩ :=
    Resumer.filter_of_skips skips (by simp only [List.length_cons]; omega) row work
  have total : enricher.nextIndex + (row :: remaining).length =
      enricher.nextIndex + 1 + remaining.length := by
    simp only [List.length_cons]
    omega
  rw [total] at still
  refine ⟨{ enricher with
      reader := rest
      nextIndex := enricher.nextIndex + 1
      resumer := some later },
    ?_, rfl, ⟨after, later, rfl, still⟩, ⟨rfl, rfl, rfl, rowLength_of_next step⟩⟩
  rw [next_of_row step, held]
  simp only [decide, filtered]
  cases done enricher.nextIndex <;> rfl

/-- The first of the rows to come that is not done is offered, and the others are still to come. -/
theorem Awaits.next {enricher : Enricher} {done : Nat → Bool} {remaining : List Row}
    (awaits : enricher.Awaits done remaining) (work : Workspace) :
    ∃ later left,
      enricher.next work =
        ((offers done enricher.nextIndex remaining).head?.map .ok, later, work) ∧
      later.Awaits done left ∧
      offers done later.nextIndex left = (offers done enricher.nextIndex remaining).tail ∧
      enricher.Alike later := by
  induction remaining generalizing enricher with
  | nil =>
    have ended := Reader.next_of_rows_nil awaits.rows_eq
    have after := Reader.rows_after_end ended
    match step : enricher.reader.next with
    | (some item, rest) =>
      rw [step] at ended
      cases ended
    | (none, rest) =>
      rw [step] at after
      refine ⟨{ enricher with reader := rest, finished := true }, [], ?_, ⟨after, awaits.skips⟩,
        rfl, ⟨rfl, rfl, rfl, rowLength_of_next step⟩⟩
      rw [next_of_end step, awaits.objection_eq]
      rfl
  | cons row remaining ih =>
    obtain ⟨advanced, step, counted, coming, same⟩ := awaits.step work
    rw [step, offers]
    cases done enricher.nextIndex with
    | true =>
      obtain ⟨last, left, taken, awaiting, offered, alike⟩ := ih coming
      rw [counted] at taken offered
      exact ⟨last, left, taken, awaiting, offered, same.trans alike⟩
    | false => exact ⟨advanced, remaining, rfl, coming, by rw [counted]; rfl, same⟩

end Enricher

end ResumableCsv
