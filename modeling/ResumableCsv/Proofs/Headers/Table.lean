import Mathlib.Data.List.Sort
import ResumableCsv.Proofs.Selection.Bounds

/-!
The table of a header row says just what its names say, also after columns were renamed: each name
stands in it once, with its places in ascending order, and these make up all places. So a column is
found where it stands, and what cannot be found is told with the number of its occurrences.
-/

namespace ResumableCsv

/-- What looking a column up among some names comes to. Occurrences of a name are told by the number
of others in front of them. -/
inductive ColumnKey.LeadsTo (names : List String) : ColumnKey → Except Error Nat → Prop
  | occurrence {before after : List String} {name : String}
      (split : names = before ++ name :: after) :
      LeadsTo names (.nth name (before.count name)) (.ok before.length)
  | tooFew {name : String} {occurrence : Nat} (known : name ∈ names)
      (few : names.count name ≤ occurrence) :
      LeadsTo names (.nth name occurrence)
        (.error (.occurrenceOutOfRange name occurrence (names.count name)))
  | unknown {name : String} {occurrence : Nat} (absent : name ∉ names) :
      LeadsTo names (.nth name occurrence) (.error (.unknownColumn name))
  | named {name : String} {outcome : Except Error Nat}
      (first : LeadsTo names (.nth name 0) outcome) : LeadsTo names (.named name) outcome
  | inside {index : Nat} (inside : index < names.length) :
      LeadsTo names (.position index) (.ok index)
  | outside {index : Nat} (outside : names.length ≤ index) :
      LeadsTo names (.position index) (.error (.columnOutOfRange index names.length))

namespace NameTable

/-- A table that holds every name once, with the places where it stands. -/
structure Tells (table : NameTable) (names : List String) : Prop where
  distinct : (table.map Prod.fst).Nodup
  known : ∀ name, name ∈ table.map Prod.fst ↔ name ∈ names
  nonempty : ∀ entry ∈ table, entry.2 ≠ []
  ascending : ∀ entry ∈ table, entry.2.Pairwise (· < ·)
  placed : ∀ entry ∈ table, ∀ index, index ∈ entry.2 ↔ names[index]? = some entry.1
  partition : (table.flatMap Prod.snd).Perm (List.range names.length)

variable {table : NameTable} {names : List String} {name : String}

theorem mem_idxsOf_iff {index : Nat} : index ∈ names.idxsOf name ↔ names[index]? = some name := by
  simp [List.getElem?_eq_some_iff]

theorem lookup_ofNames (names : List String) (name : String) :
    (ofNames names).lookup name = if name ∈ names then some (names.idxsOf name) else none := by
  induction names using List.reverseRecOn with
  | nil => rfl
  | append_singleton names last ih =>
    rw [ofNames_append, lookup_add, List.idxsOf_append]
    by_cases same : name = last
    · subst same
      by_cases known : name ∈ names
      · simp [ih, known]
      · have nowhere : names.idxsOf name = [] := by
          rw [← List.length_eq_zero_iff, List.length_idxsOf, List.count_eq_zero]
          exact known
        simp [ih, known, nowhere]
    · simp [ih, same, Ne.symm same]

/-- A name that is new to a table comes to stand at its end. -/
theorem names_add (table : NameTable) (name : String) (position : Nat) :
    (table.add name position).map Prod.fst =
      if name ∈ table.map Prod.fst then table.map Prod.fst else table.map Prod.fst ++ [name] := by
  induction table with
  | nil => rfl
  | cons entry rest ih =>
    obtain ⟨known, positions⟩ := entry
    by_cases here : known = name
    · simp [add, here]
    · rw [add, if_neg here, List.map_cons, ih, List.map_cons]
      by_cases later : name ∈ rest.map Prod.fst
      · rw [if_pos later, if_pos (List.mem_cons_of_mem _ later)]
      · rw [if_neg later, if_neg (by simpa [Ne.symm here] using later)]
        rfl

theorem distinct_add (distinct : (table.map Prod.fst).Nodup) (name : String) (position : Nat) :
    ((table.add name position).map Prod.fst).Nodup := by
  rw [names_add]
  split
  next => exact distinct
  next absent =>
    rw [← List.concat_eq_append]
    exact (List.nodup_concat _ _).mpr ⟨absent, distinct⟩

theorem perm_add (table : NameTable) (name : String) (position : Nat) :
    ((table.add name position).flatMap Prod.snd).Perm (position :: table.flatMap Prod.snd) := by
  induction table with
  | nil => exact .refl _
  | cons entry rest ih =>
    obtain ⟨known, positions⟩ := entry
    by_cases here : known = name
    · rw [add, if_pos here, List.flatMap_cons, List.flatMap_cons, List.append_assoc]
      exact List.perm_middle
    · rw [add, if_neg here, List.flatMap_cons, List.flatMap_cons]
      exact (ih.append_left positions).trans List.perm_middle

theorem lookup_of_mem (distinct : (table.map Prod.fst).Nodup) {entry : String × List Nat}
    (member : entry ∈ table) : table.lookup entry.1 = some entry.2 := by
  obtain ⟨before, after, rfl⟩ := List.append_of_mem member
  refine List.lookup_eq_some_iff.mpr ⟨before, after, rfl, fun other earlier => ?_⟩
  rw [List.map_append, List.nodup_append] at distinct
  have apart := distinct.2.2 other.1 (List.mem_map_of_mem earlier) entry.1 (by simp)
  simpa using apart.symm

theorem distinct_ofNames (names : List String) : ((ofNames names).map Prod.fst).Nodup := by
  induction names using List.reverseRecOn with
  | nil => exact .nil
  | append_singleton names last ih =>
    rw [ofNames_append]
    exact distinct_add ih last names.length

theorem partition_ofNames (names : List String) :
    ((ofNames names).flatMap Prod.snd).Perm (List.range names.length) := by
  induction names using List.reverseRecOn with
  | nil => exact .refl _
  | append_singleton names last ih =>
    rw [ofNames_append, List.length_append, List.length_singleton, List.range_succ]
    exact (perm_add _ last names.length).trans
      ((ih.cons names.length).trans (List.perm_append_singleton _ _).symm)

theorem mem_names_ofNames : name ∈ (ofNames names).map Prod.fst ↔ name ∈ names := by
  calc name ∈ (ofNames names).map Prod.fst
    _ ↔ ((ofNames names).lookup name).isSome = true := by
      simp only [List.lookup_isSome_iff, List.mem_map, beq_iff_eq, @eq_comm String name]
    _ ↔ name ∈ names := by
      rw [lookup_ofNames]
      split <;> simp_all

/-- An entry of a table holds the places of its name. -/
theorem entry_ofNames {entry : String × List Nat} (member : entry ∈ ofNames names) :
    entry.1 ∈ names ∧ entry.2 = names.idxsOf entry.1 := by
  have found := lookup_of_mem (distinct_ofNames names) member
  rw [lookup_ofNames] at found
  split at found
  next known => exact ⟨known, (Option.some.inj found).symm⟩
  next => cases found

theorem tells_ofNames (names : List String) : (ofNames names).Tells names where
  distinct := distinct_ofNames names
  known _ := mem_names_ofNames
  nonempty entry member := by
    obtain ⟨known, positions⟩ := entry_ofNames member
    rw [positions, ← List.length_pos_iff, List.length_idxsOf]
    exact List.count_pos_iff.mpr known
  ascending entry member := by
    rw [(entry_ofNames member).2]
    exact List.pairwise_idxsOf
  placed entry member index := by
    rw [(entry_ofNames member).2]
    exact mem_idxsOf_iff
  partition := partition_ofNames names

end NameTable

namespace Headers

variable {names : List String} {key : ColumnKey} {outcome : Except Error Nat}

theorem positions_ofNames (names : List String) (name : String) :
    (ofNames names).positions name = names.idxsOf name := by
  rw [positions, ofNames, NameTable.lookup_ofNames]
  split
  next => rfl
  next absent => exact (List.idxsOf_eq_nil_iff.mpr fun other member => by
    simpa using fun same : other = name => absent (same ▸ member)).symm

/-- There is only one thing that looking up a column can come to. -/
theorem resolve_of_leadsTo (leads : key.LeadsTo names outcome) :
    (ofNames names).resolve key = outcome := by
  induction leads with
  | @occurrence before after name split =>
    have here : names.idxsOf name =
        before.idxsOf name ++ before.length :: after.idxsOf name (before.length + 1) := by
      simp [split]
    have place : (names.idxsOf name)[before.count name]? = some before.length := by
      rw [here, List.getElem?_append_right (by simp)]
      simp
    have known : name ∈ names := by simp [split]
    simp [resolve, nthOccurrence, ofNames, NameTable.lookup_ofNames, known, place]
  | @tooFew name occurrence known few =>
    have nothing : (names.idxsOf name)[occurrence]? = none := by simpa using few
    simp [resolve, nthOccurrence, ofNames, NameTable.lookup_ofNames, known, nothing]
  | unknown absent => simp [resolve, nthOccurrence, ofNames, NameTable.lookup_ofNames, absent]
  | named _ ih => exact ih
  | inside inside => exact if_pos inside
  | outside outside => exact if_neg (Nat.not_lt.mpr outside)

/-- A name that stands often enough has an occurrence with so many in front of it. -/
theorem exists_occurrence {name : String} {occurrence : Nat}
    (enough : occurrence < names.count name) :
    ∃ before after, names = before ++ name :: after ∧ before.count name = occurrence := by
  induction names generalizing occurrence with
  | nil => cases enough
  | cons first names ih =>
    by_cases same : first = name
    · subst same
      cases occurrence with
      | zero => exact ⟨[], names, rfl, rfl⟩
      | succ occurrence =>
        rw [List.count_cons_self] at enough
        obtain ⟨before, after, split, count⟩ := ih (Nat.lt_of_succ_lt_succ enough)
        exact ⟨first :: before, after, by rw [split]; rfl, by rw [List.count_cons_self, count]⟩
    · rw [List.count_cons_of_ne same] at enough
      obtain ⟨before, after, split, count⟩ := ih enough
      exact ⟨first :: before, after, by rw [split]; rfl, by rw [List.count_cons_of_ne same, count]⟩

theorem exists_leadsTo (names : List String) (key : ColumnKey) :
    ∃ outcome, key.LeadsTo names outcome := by
  have occurrences (name : String) (occurrence : Nat) :
      ∃ outcome, (ColumnKey.nth name occurrence).LeadsTo names outcome := by
    by_cases known : name ∈ names
    · rcases Nat.lt_or_ge occurrence (names.count name) with enough | few
      · obtain ⟨before, after, split, rfl⟩ := exists_occurrence enough
        exact ⟨_, .occurrence split⟩
      · exact ⟨_, .tooFew known few⟩
    · exact ⟨_, .unknown known⟩
  cases key with
  | named name =>
    obtain ⟨outcome, first⟩ := occurrences name 0
    exact ⟨outcome, .named first⟩
  | nth name occurrence => exact occurrences name occurrence
  | position index =>
    rcases Nat.lt_or_ge index names.length with inside | outside
    · exact ⟨_, .inside inside⟩
    · exact ⟨_, .outside outside⟩

theorem resolve_eq_iff : (ofNames names).resolve key = outcome ↔ key.LeadsTo names outcome := by
  constructor
  · rintro rfl
    obtain ⟨outcome, leads⟩ := exists_leadsTo names key
    rwa [resolve_of_leadsTo leads]
  · exact resolve_of_leadsTo

theorem get?_eq_some_iff {index : Nat} :
    (ofNames names).get? key = some index ↔ key.LeadsTo names (.ok index) := by
  rw [← resolve_eq_iff, get?]
  cases (ofNames names).resolve key <;> simp [Except.toOption]

theorem contains_iff :
    (ofNames names).contains key = true ↔ ∃ index, key.LeadsTo names (.ok index) := by
  rw [contains, Option.isSome_iff_exists]
  simp only [get?_eq_some_iff]

/-- What a name has become after some renames, each of one name to another. -/
def nameAfter (renames : List (String × String)) (name : String) : String :=
  renames.foldl (fun name (old, new) => if name = old then new else name) name

/-- Makes renames one after another. -/
def renameAll (headers : Headers) (renames : List (String × String)) : Headers :=
  renames.foldl (fun headers (old, new) => headers.rename old new) headers

theorem renameAll_ofNames (names : List String) (renames : List (String × String)) :
    (ofNames names).renameAll renames = ofNames (names.map (nameAfter renames)) := by
  induction renames generalizing names with
  | nil => exact congrArg ofNames (List.map_id _).symm
  | cons rename renames ih =>
    obtain ⟨old, new⟩ := rename
    have later := ih (names.map fun name => if name = old then new else name)
    rw [List.map_map] at later
    exact later

variable {old new : String}

theorem mem_idxsOf_rename {other : String} {index : Nat} :
    index ∈ (names.map fun name => if name = old then new else name).idxsOf other ↔
      ∃ name, names[index]? = some name ∧ (if name = old then new else name) = other := by
  rw [NameTable.mem_idxsOf_iff, List.getElem?_map, Option.map_eq_some_iff]

/-- The places of a name that is given up are put among those of the name it is given up for. -/
theorem idxsOf_rename_new (apart : old ≠ new) :
    (names.map fun name => if name = old then new else name).idxsOf new =
      (names.idxsOf old).merge (names.idxsOf new) := by
  have places (name : String) : (names.idxsOf name).Pairwise (· ≤ ·) :=
    List.pairwise_idxsOf.imp Nat.le_of_lt
  have disjoint : (names.idxsOf old ++ names.idxsOf new).Nodup := by
    refine List.nodup_append.mpr ⟨List.nodup_idxsOf, List.nodup_idxsOf, ?_⟩
    rintro index here _ there rfl
    rw [NameTable.mem_idxsOf_iff] at here there
    exact apart (Option.some.inj (here.symm.trans there))
  have whole : ((names.map fun name => if name = old then new else name).idxsOf new).Perm
      (names.idxsOf old ++ names.idxsOf new) := by
    refine (List.perm_ext_iff_of_nodup List.nodup_idxsOf disjoint).mpr fun index => ?_
    rw [mem_idxsOf_rename, List.mem_append, NameTable.mem_idxsOf_iff, NameTable.mem_idxsOf_iff]
    constructor
    · rintro ⟨name, found, same⟩
      split at same
      next given => exact .inl (given ▸ found)
      next => exact .inr (same ▸ found)
    · rintro (found | found)
      · exact ⟨old, found, if_pos rfl⟩
      · exact ⟨new, found, if_neg apart.symm⟩
  exact (whole.trans (List.merge_perm_append _).symm).eq_of_pairwise'
    (List.pairwise_idxsOf.imp Nat.le_of_lt) ((places old).merge (places new))

theorem idxsOf_rename_old (apart : old ≠ new) :
    (names.map fun name => if name = old then new else name).idxsOf old = [] := by
  rw [List.eq_nil_iff_forall_not_mem]
  intro index member
  obtain ⟨name, _, same⟩ := mem_idxsOf_rename.mp member
  split at same
  next => exact apart same.symm
  next other => exact other same

theorem idxsOf_rename_other {other : String} (away : other ≠ old) (kept : other ≠ new) :
    (names.map fun name => if name = old then new else name).idxsOf other =
      names.idxsOf other := by
  refine List.pairwise_idxsOf.eq_of_mem_iff List.pairwise_idxsOf fun index => ?_
  rw [mem_idxsOf_rename, NameTable.mem_idxsOf_iff]
  constructor
  · rintro ⟨name, found, same⟩
    split at same
    · exact absurd same.symm kept
    · rw [found, same]
  · intro found
    exact ⟨other, found, if_neg away⟩

/-- Each name comes with the place that it is found at. -/
theorem mem_firstPositions_iff {name : String} {index : Nat} :
    (name, index) ∈ (ofNames names).firstPositions ↔
      (ColumnKey.named name).LeadsTo names (.ok index) := by
  rw [← resolve_eq_iff, firstPositions, List.mem_map]
  constructor
  · rintro ⟨⟨_, positions⟩, member, ⟨⟩⟩
    have found := NameTable.lookup_of_mem (NameTable.distinct_ofNames names) member
    cases positions with
    | nil => exact absurd rfl ((NameTable.tells_ofNames names).nonempty _ member)
    | cons first others => simp_all [resolve, nthOccurrence, ofNames]
  · intro found
    simp only [resolve, nthOccurrence] at found
    split at found
    next => cases found
    next positions known =>
      obtain ⟨before, after, table, _⟩ := List.lookup_eq_some_iff.mp known
      refine ⟨(name, positions), by simp [table], ?_⟩
      cases positions with
      | nil => cases found
      | cons first others => simpa using found

/-- However the columns of a header row were renamed, its table and its names say the same: each name
is what its renames made of it, stands in the table once and with its places in ascending order, and
the places of all names are all places there are. Every way of looking a column up comes to what the
names alone say. A name given up for another leaves its places to that one, merged in order, and no
other name is touched. -/
theorem lookups_of_renamed (names : List String) (renames : List (String × String)) :
    let headers := (ofNames names).renameAll renames
    headers.fieldnames = names.map (nameAfter renames) ∧
    headers.table.Tells headers.fieldnames ∧
    (∀ key outcome, headers.resolve key = outcome ↔ key.LeadsTo headers.fieldnames outcome) ∧
    (∀ key index,
      headers.get? key = some index ↔ key.LeadsTo headers.fieldnames (.ok index)) ∧
    (∀ key, headers.contains key = true ↔
      ∃ index, key.LeadsTo headers.fieldnames (.ok index)) ∧
    (∀ name index, (name, index) ∈ headers.firstPositions ↔
      (ColumnKey.named name).LeadsTo headers.fieldnames (.ok index)) ∧
    ∀ old new, old ≠ new →
      (headers.rename old new).positions old = [] ∧
      (headers.rename old new).positions new =
        (headers.positions old).merge (headers.positions new) ∧
      ∀ other, other ≠ old → other ≠ new →
        (headers.rename old new).positions other = headers.positions other := by
  intro headers
  have same : headers = ofNames (names.map (nameAfter renames)) := renameAll_ofNames names renames
  rw [same]
  refine ⟨rfl, NameTable.tells_ofNames _, fun _ _ => resolve_eq_iff, fun _ _ => get?_eq_some_iff,
    fun _ => contains_iff, fun _ _ => mem_firstPositions_iff, ?_⟩
  intro old new apart
  simp only [rename, positions_ofNames]
  exact ⟨idxsOf_rename_old apart, idxsOf_rename_new apart,
    fun _ away kept => idxsOf_rename_other away kept⟩

/-- Two names that stand twice each, one of them since a rename, and then one name for all. -/
theorem lookups_of_renamed_sample :
    let headers := (ofNames ["a", "b", "a", "c"]).renameAll [("c", "b")]
    headers.fieldnames = ["a", "b", "a", "b"] ∧
      headers.resolve (.nth "b" 1) = .ok 3 ∧
      headers.resolve (.nth "b" 2) = .error (.occurrenceOutOfRange "b" 2 2) ∧
      headers.resolve (.named "c") = .error (.unknownColumn "c") ∧
      "a" ≠ "b" ∧ (headers.rename "a" "b").positions "b" = [0, 1, 2, 3] := by
  intro headers
  have apart : "a" ≠ "b" := by decide
  obtain ⟨names, _, resolved, _, _, _, merged⟩ :=
    lookups_of_renamed ["a", "b", "a", "c"] [("c", "b")]
  obtain ⟨_, taken, _⟩ := merged "a" "b" apart
  have fieldnames : headers.fieldnames = ["a", "b", "a", "b"] := names
  refine ⟨fieldnames, (resolved _ _).mpr ?_, (resolved _ _).mpr ?_, (resolved _ _).mpr ?_, apart, ?_⟩
  · exact @ColumnKey.LeadsTo.occurrence _ ["a", "b", "a"] [] "b" fieldnames
  · exact .tooFew (by decide) (by decide)
  · exact .named (.unknown (by decide))
  · rw [taken, renameAll_ofNames, positions_ofNames, positions_ofNames]
    simp [List.idxsOf, nameAfter]

end Headers

end ResumableCsv
