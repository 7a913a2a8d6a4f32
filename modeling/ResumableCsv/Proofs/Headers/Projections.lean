import ResumableCsv.Headers.Projection
import ResumableCsv.Proofs.Selection.Resolved

/-!
Nested and flat projections. A template whose names are put between quotes has a flat projection just
when it has a nested one, and both pick the same cells in the same order: the nested value keeps the
shape of the template, the flat one has no tuple inside a tuple. No record may stand below a tuple in
a flat projection.
-/

namespace ResumableCsv

/-- What is left of a template or of a value without its columns or cells. -/
inductive Outline
  | leaf
  | tuple (items : List Outline)
  | record (fields : List (String × Outline))

namespace Outline

mutual

/-- An outline and all that stand in it. -/
def parts : Outline → List Outline
  | .leaf => [.leaf]
  | .tuple items => .tuple items :: partsOfItems items
  | .record fields => .record fields :: partsOfFields fields

def partsOfItems : List Outline → List Outline
  | [] => []
  | item :: rest => item.parts ++ partsOfItems rest

def partsOfFields : List (String × Outline) → List Outline
  | [] => []
  | (_, item) :: rest => item.parts ++ partsOfFields rest

end

def isTuple : Outline → Bool
  | .tuple _ => true
  | _ => false

def isRecord : Outline → Bool
  | .record _ => true
  | _ => false

/-- What stands directly in a tuple. -/
def tupleItems : Outline → List Outline
  | .tuple items => items
  | _ => []

/-- A part of this kind is there. -/
def holds (kind : Outline → Bool) (outline : Outline) : Bool := outline.parts.any kind

/-- A part of this kind stands below a tuple, at any depth. -/
def belowTuple (kind : Outline → Bool) (outline : Outline) : Bool :=
  outline.parts.any fun part => part.tupleItems.any (holds kind)

end Outline

mutual

def Template.outline : Template → Outline
  | .column _ => .leaf
  | .tuple items => .tuple (Template.outlineItems items)
  | .record fields => .record (Template.outlineFields fields)

def Template.outlineItems : List Template → List Outline
  | [] => []
  | item :: rest => item.outline :: Template.outlineItems rest

def Template.outlineFields : List (String × Template) → List (String × Outline)
  | [] => []
  | (name, item) :: rest => (name, item.outline) :: Template.outlineFields rest

end

mutual

def Projected.outline : Projected → Outline
  | .cell _ => .leaf
  | .tuple items => .tuple (Projected.outlineItems items)
  | .record fields => .record (Projected.outlineFields fields)

def Projected.outlineItems : List Projected → List Outline
  | [] => []
  | item :: rest => item.outline :: Projected.outlineItems rest

def Projected.outlineFields : List (String × Projected) → List (String × Outline)
  | [] => []
  | (name, item) :: rest => (name, item.outline) :: Projected.outlineFields rest

end

/-- A name as a selection expression that says just that name; other keys are left alone. -/
def ColumnKey.quoted : ColumnKey → ColumnKey
  | .named name => .named (String.ofList (Selection.quotedName name))
  | key => key

mutual

/-- A template with its names as selection expressions. -/
def Template.quoted : Template → Template
  | .column key => .column key.quoted
  | .tuple items => .tuple (Template.quotedItems items)
  | .record fields => .record (Template.quotedFields fields)

def Template.quotedItems : List Template → List Template
  | [] => []
  | item :: rest => item.quoted :: Template.quotedItems rest

def Template.quotedFields : List (String × Template) → List (String × Template)
  | [] => []
  | (name, item) :: rest => (name, item.quoted) :: Template.quotedFields rest

end

mutual

/-- The positions of the cells that a plan picks, in order. -/
def Plan.indices : Plan → List Nat
  | .cell index => [index]
  | .cells indices => indices
  | .tuple items => Plan.indicesOfItems items
  | .record fields => Plan.indicesOfFields fields

def Plan.indicesOfItems : List Plan → List Nat
  | [] => []
  | item :: rest => item.indices ++ Plan.indicesOfItems rest

def Plan.indicesOfFields : List (String × Plan) → List Nat
  | [] => []
  | (_, item) :: rest => item.indices ++ Plan.indicesOfFields rest

end

namespace Outline

variable {kind : Outline → Bool}

theorem any_partsOfItems (items : List Outline) :
    (partsOfItems items).any kind = items.any (·.parts.any kind) := by
  induction items with
  | nil => rfl
  | cons item rest ih => rw [partsOfItems, List.any_append, ih, List.any_cons]

theorem any_partsOfFields (fields : List (String × Outline)) :
    (partsOfFields fields).any kind = fields.any (·.2.parts.any kind) := by
  induction fields with
  | nil => rfl
  | cons field rest ih => rw [partsOfFields, List.any_append, ih, List.any_cons]

theorem holds_tuple (items : List Outline) :
    (Outline.tuple items).holds kind = (kind (.tuple items) || items.any (holds kind)) := by
  rw [holds, parts, List.any_cons, any_partsOfItems]
  rfl

theorem holds_record (fields : List (String × Outline)) :
    (Outline.record fields).holds kind =
      (kind (.record fields) || fields.any (·.2.holds kind)) := by
  rw [holds, parts, List.any_cons, any_partsOfFields]
  rfl

theorem belowTuple_record (fields : List (String × Outline)) :
    (Outline.record fields).belowTuple kind = fields.any (·.2.belowTuple kind) := by
  rw [belowTuple, parts, List.any_cons, any_partsOfFields]
  rfl

mutual

/-- What stands below a tuple is there. -/
theorem holds_of_belowTuple : ∀ {outline : Outline},
    outline.belowTuple kind = true → outline.holds kind = true
  | .leaf, below => by cases below
  | .tuple items, below => by
    rw [belowTuple, parts, List.any_cons, any_partsOfItems, Bool.or_eq_true] at below
    rw [holds_tuple, Bool.or_eq_true]
    exact .inr (below.elim id any_holds_of_belowTuple)
  | .record fields, below => by
    rw [belowTuple_record] at below
    rw [holds_record, Bool.or_eq_true]
    exact .inr (any_holds_of_belowTuple_fields below)

theorem any_holds_of_belowTuple : ∀ {items : List Outline},
    items.any (belowTuple kind) = true → items.any (holds kind) = true
  | [], below => below
  | item :: rest, below => by
    rw [List.any_cons, Bool.or_eq_true] at below ⊢
    exact below.imp holds_of_belowTuple any_holds_of_belowTuple

theorem any_holds_of_belowTuple_fields : ∀ {fields : List (String × Outline)},
    fields.any (·.2.belowTuple kind) = true → fields.any (·.2.holds kind) = true
  | [], below => below
  | (_, item) :: rest, below => by
    rw [List.any_cons, Bool.or_eq_true] at below ⊢
    exact below.imp holds_of_belowTuple any_holds_of_belowTuple_fields

end

/-- Below a tuple stands what its items hold. -/
theorem belowTuple_tuple (items : List Outline) :
    (Outline.tuple items).belowTuple kind = items.any (holds kind) := by
  have split : (Outline.tuple items).belowTuple kind =
      (items.any (holds kind) || items.any (belowTuple kind)) := by
    rw [belowTuple, parts, List.any_cons, any_partsOfItems]
    rfl
  rw [split, Bool.or_eq_left_iff_imp]
  exact any_holds_of_belowTuple

end Outline

variable {headers : Headers} {row : Row}

namespace Headers

mutual

/-- A nested projection fills the shape of its template. -/
theorem outline_of_project : ∀ {template : Template} {plan : Plan},
    headers.project template = .ok plan → (plan.apply row).outline = template.outline
  | .column key, plan, found => by
    obtain ⟨index, _, rfl⟩ := Outcome.map_eq_ok_iff.mp found
    rfl
  | .tuple items, plan, found => by
    obtain ⟨plans, inner, rfl⟩ := Outcome.map_eq_ok_iff.mp found
    exact congrArg Outline.tuple (outline_of_projectItems inner)
  | .record fields, plan, found => by
    obtain ⟨plans, inner, rfl⟩ := Outcome.map_eq_ok_iff.mp found
    exact congrArg Outline.record (outline_of_projectFields inner)

theorem outline_of_projectItems : ∀ {items : List Template} {plans : List Plan},
    projectItems headers items = .ok plans →
      Projected.outlineItems (Plan.applyItems row plans) = Template.outlineItems items
  | [], plans, found => by
    cases found
    rfl
  | item :: rest, plans, found => by
    obtain ⟨plan, first, found⟩ := Outcome.do_eq_ok_iff.mp found
    obtain ⟨others, later, joined⟩ := Outcome.do_eq_ok_iff.mp found
    cases joined
    rw [Plan.applyItems, Projected.outlineItems, Template.outlineItems, outline_of_project first,
      outline_of_projectItems later]

theorem outline_of_projectFields : ∀ {fields : List (String × Template)}
    {plans : List (String × Plan)}, projectFields headers fields = .ok plans →
      Projected.outlineFields (Plan.applyFields row plans) = Template.outlineFields fields
  | [], plans, found => by
    cases found
    rfl
  | (name, item) :: rest, plans, found => by
    obtain ⟨plan, first, found⟩ := Outcome.do_eq_ok_iff.mp found
    obtain ⟨others, later, joined⟩ := Outcome.do_eq_ok_iff.mp found
    cases joined
    rw [Plan.applyFields, Projected.outlineFields, Template.outlineFields,
      outline_of_project first, outline_of_projectFields later]

end

end Headers

namespace Plan

theorem flattenItems_pick (row : Row) (indices : List Nat) :
    Projected.flattenItems (indices.map (pick row)) = indices.map row.cell := by
  induction indices with
  | nil => rfl
  | cons index rest ih =>
    rw [List.map_cons, Projected.flattenItems, ih]
    rfl

mutual

/-- The leaf cells of a value are the cells its plan picks. -/
theorem flatten_apply : ∀ plan : Plan, (plan.apply row).flatten = plan.indices.map row.cell
  | .cell _ => rfl
  | .cells indices => flattenItems_pick row indices
  | .tuple items => flattenItems_applyItems items
  | .record fields => flattenFields_applyFields fields

theorem flattenItems_applyItems : ∀ items : List Plan,
    Projected.flattenItems (applyItems row items) = (indicesOfItems items).map row.cell
  | [] => rfl
  | item :: rest => by
    rw [applyItems, Projected.flattenItems, flatten_apply item, flattenItems_applyItems rest,
      indicesOfItems, List.map_append]

theorem flattenFields_applyFields : ∀ fields : List (String × Plan),
    Projected.flattenFields (applyFields row fields) = (indicesOfFields fields).map row.cell
  | [] => rfl
  | (_, item) :: rest => by
    rw [applyFields, Projected.flattenFields, flatten_apply item, flattenFields_applyFields rest,
      indicesOfFields, List.map_append]

end

end Plan

namespace Headers

/-- A quoted name picks the one column that the name stands for. -/
theorem leafIndices_quoted (headers : Headers) (key : ColumnKey) :
    headers.leafIndices key.quoted = (headers.resolve key).map fun index => [index] := by
  cases key with
  | named name => exact headers.select_quotedName name
  | nth | position => rfl

mutual

theorem flatIndices_quoted : ∀ {template : Template},
    template.outline.holds Outline.isRecord = false →
      headers.flatIndices template.quoted = (headers.project template).map Plan.indices
  | .column key, _ => by
    rw [Template.quoted, flatIndices, leafIndices_quoted, project]
    cases headers.resolve key <;> rfl
  | .tuple items, plain => by
    have inner : (Template.outlineItems items).any (Outline.holds Outline.isRecord) = false := by
      rw [Template.outline, Outline.holds_tuple, Bool.or_eq_false_iff] at plain
      exact plain.2
    rw [Template.quoted, flatIndices, flatItems_quoted inner, project]
    cases projectItems headers items <;> rfl
  | .record _, plain => by cases plain

theorem flatItems_quoted : ∀ {items : List Template},
    (Template.outlineItems items).any (Outline.holds Outline.isRecord) = false →
      headers.flatItems (Template.quotedItems items) =
        (projectItems headers items).map Plan.indicesOfItems
  | [], _ => rfl
  | item :: rest, plain => by
    rw [Template.outlineItems, List.any_cons, Bool.or_eq_false_iff] at plain
    have joined (plan : Plan) (plans : List Plan) :
        Plan.indicesOfItems (plan :: plans) = plan.indices ++ Plan.indicesOfItems plans := rfl
    rw [Template.quotedItems, flatItems, flatIndices_quoted plain.1, flatItems_quoted plain.2,
      projectItems, Outcome.map_join joined]

end

mutual

/-- A flat projection keeps records, and strings together the columns of each tuple. -/
theorem flatProject_quoted : ∀ {template : Template},
    template.outline.belowTuple Outline.isRecord = false →
      (headers.flatProject template.quoted).map Plan.indices =
        (headers.project template).map Plan.indices
  | .column key, _ => by
    rw [Template.quoted, flatProject, leafIndices_quoted, project]
    cases headers.resolve key <;> rfl
  | .tuple items, free => by
    rw [Template.outline, Outline.belowTuple_tuple] at free
    rw [Template.quoted, flatProject, flatItems_quoted free, project]
    cases projectItems headers items <;> rfl
  | .record fields, free => by
    rw [Template.outline, Outline.belowTuple_record] at free
    have inside (plans : Except Error (List (String × Plan))) :
        (plans.map Plan.record).map Plan.indices = plans.map Plan.indicesOfFields := by
      cases plans <;> rfl
    rw [Template.quoted, flatProject, project, inside, inside, flatProjectFields_quoted free]

theorem flatProjectFields_quoted : ∀ {fields : List (String × Template)},
    (Template.outlineFields fields).any (·.2.belowTuple Outline.isRecord) = false →
      (headers.flatProjectFields (Template.quotedFields fields)).map Plan.indicesOfFields =
        (projectFields headers fields).map Plan.indicesOfFields
  | [], _ => rfl
  | (name, item) :: rest, free => by
    rw [Template.outlineFields, List.any_cons, Bool.or_eq_false_iff] at free
    have joined (plan : Plan) (plans : List (String × Plan)) :
        Plan.indicesOfFields ((name, plan) :: plans) =
          plan.indices ++ Plan.indicesOfFields plans := rfl
    rw [Template.quotedFields, flatProjectFields, projectFields, Outcome.map_join joined,
      Outcome.map_join joined, flatProject_quoted free.1, flatProjectFields_quoted free.2]

end

mutual

/-- Records are refused among what is strung together. -/
theorem not_holds_record_of_flatIndices : ∀ {template : Template} {indices : List Nat},
    headers.flatIndices template = .ok indices →
      template.outline.holds Outline.isRecord = false
  | .column _, _, _ => rfl
  | .tuple items, indices, found => by
    rw [Template.outline, Outline.holds_tuple, Bool.or_eq_false_iff]
    exact ⟨rfl, not_holds_record_of_flatItems found⟩
  | .record _, _, found => by cases found

theorem not_holds_record_of_flatItems : ∀ {items : List Template} {indices : List Nat},
    headers.flatItems items = .ok indices →
      (Template.outlineItems items).any (Outline.holds Outline.isRecord) = false
  | [], _, _ => rfl
  | item :: rest, indices, found => by
    obtain ⟨these, first, found⟩ := Outcome.do_eq_ok_iff.mp found
    obtain ⟨others, later, _⟩ := Outcome.do_eq_ok_iff.mp found
    rw [Template.outlineItems, List.any_cons, Bool.or_eq_false_iff]
    exact ⟨not_holds_record_of_flatIndices first, not_holds_record_of_flatItems later⟩

end

mutual

theorem not_belowTuple_record_of_flatProject : ∀ {template : Template} {plan : Plan},
    headers.flatProject template = .ok plan →
      template.outline.belowTuple Outline.isRecord = false
  | .column _, _, _ => rfl
  | .tuple items, plan, found => by
    obtain ⟨indices, strung, _⟩ := Outcome.map_eq_ok_iff.mp found
    rw [Template.outline, Outline.belowTuple_tuple]
    exact not_holds_record_of_flatItems strung
  | .record fields, plan, found => by
    obtain ⟨plans, inner, _⟩ := Outcome.map_eq_ok_iff.mp found
    rw [Template.outline, Outline.belowTuple_record]
    exact not_belowTuple_record_of_flatProjectFields inner

theorem not_belowTuple_record_of_flatProjectFields : ∀ {fields : List (String × Template)}
    {plans : List (String × Plan)}, headers.flatProjectFields fields = .ok plans →
      (Template.outlineFields fields).any (·.2.belowTuple Outline.isRecord) = false
  | [], _, _ => rfl
  | (name, item) :: rest, plans, found => by
    obtain ⟨plan, first, found⟩ := Outcome.do_eq_ok_iff.mp found
    obtain ⟨others, later, _⟩ := Outcome.do_eq_ok_iff.mp found
    rw [Template.outlineFields, List.any_cons, Bool.or_eq_false_iff]
    exact ⟨not_belowTuple_record_of_flatProject first,
      not_belowTuple_record_of_flatProjectFields later⟩

end

end Headers

/-- A tuple of cells holds no tuple. -/
theorem Plan.not_belowTuple_tuple_cells (row : Row) (indices : List Nat) :
    ((Plan.cells indices).apply row).outline.belowTuple Outline.isTuple = false := by
  rw [Plan.apply, Projected.outline, Outline.belowTuple_tuple]
  induction indices with
  | nil => rfl
  | cons index rest ih =>
    rw [List.map_cons, Projected.outlineItems, List.any_cons, ih]
    rfl

namespace Headers

mutual

/-- The value of a flat projection holds no tuple inside a tuple. -/
theorem not_belowTuple_tuple_of_flatProject : ∀ {template : Template} {plan : Plan},
    headers.flatProject template = .ok plan →
      (plan.apply row).outline.belowTuple Outline.isTuple = false
  | .column key, plan, found => by
    obtain ⟨indices, _, rfl⟩ := Outcome.map_eq_ok_iff.mp found
    split
    · rfl
    · exact Plan.not_belowTuple_tuple_cells row _
  | .tuple items, plan, found => by
    obtain ⟨indices, _, rfl⟩ := Outcome.map_eq_ok_iff.mp found
    exact Plan.not_belowTuple_tuple_cells row indices
  | .record fields, plan, found => by
    obtain ⟨plans, inner, rfl⟩ := Outcome.map_eq_ok_iff.mp found
    rw [Plan.apply, Projected.outline, Outline.belowTuple_record]
    exact not_belowTuple_tuple_of_flatProjectFields inner

theorem not_belowTuple_tuple_of_flatProjectFields : ∀ {fields : List (String × Template)}
    {plans : List (String × Plan)}, headers.flatProjectFields fields = .ok plans →
      (Projected.outlineFields (Plan.applyFields row plans)).any
        (·.2.belowTuple Outline.isTuple) = false
  | [], plans, found => by
    cases found
    rfl
  | (name, item) :: rest, plans, found => by
    obtain ⟨plan, first, found⟩ := Outcome.do_eq_ok_iff.mp found
    obtain ⟨others, later, joined⟩ := Outcome.do_eq_ok_iff.mp found
    cases joined
    rw [Plan.applyFields, Projected.outlineFields, List.any_cons,
      not_belowTuple_tuple_of_flatProject first, not_belowTuple_tuple_of_flatProjectFields later]
    rfl

end

/-- A template without a record below a tuple has a nested projection just when, with its names
between quotes, it has a flat one, and the values of both have the same cells in the same order: the
nested value has the shape of the template, the flat one no tuple inside a tuple. With a record below
a tuple there is no flat projection. -/
theorem projections_agree (headers : Headers) (row : Row) (template : Template) :
    (template.outline.belowTuple Outline.isRecord = false →
      ((∃ nested, headers.project template = .ok nested) ↔
        ∃ flat, headers.flatProject template.quoted = .ok flat) ∧
      ∀ nested flat, headers.project template = .ok nested →
        headers.flatProject template.quoted = .ok flat →
          (nested.apply row).flatten = (flat.apply row).flatten ∧
          (nested.apply row).outline = template.outline ∧
          (flat.apply row).outline.belowTuple Outline.isTuple = false) ∧
    (template.outline.belowTuple Outline.isRecord = true →
      ∃ error, headers.flatProject template = .error error) := by
  constructor
  · intro free
    have same : (headers.flatProject template.quoted).map Plan.indices =
        (headers.project template).map Plan.indices := flatProject_quoted free
    constructor
    · exact (Outcome.succeeds_iff_of_map_eq same).symm
    · intro nested flat found found'
      rw [found, found'] at same
      have picked : flat.indices = nested.indices := Except.ok.inj same
      refine ⟨?_, outline_of_project found, not_belowTuple_tuple_of_flatProject found'⟩
      rw [Plan.flatten_apply, Plan.flatten_apply, picked]
  · intro below
    cases found : headers.flatProject template with
    | error error => exact ⟨error, rfl⟩
    | ok plan =>
      rw [not_belowTuple_record_of_flatProject found] at below
      cases below

/-- A name of marks, a name that stands twice, and tuples inside a tuple in a record; a record in a
tuple that stands in a record. -/
theorem projections_agree_sample :
    let headers := Headers.ofNames ["a\",\\", "b", "b"]
    let row : Row := ["1", "2", "3"]
    let template : Template := .record [("name", .column (.named "a\",\\")),
      ("both", .tuple [.column (.nth "b" 1), .tuple [.column (.position 0), .tuple []]])]
    let mixed : Template := .record [("r", .tuple [.record []])]
    template.outline.belowTuple Outline.isRecord = false ∧
      (∃ nested flat, headers.project template = .ok nested ∧
        headers.flatProject template.quoted = .ok flat ∧
        (nested.apply row).flatten = ["1", "3", "1"] ∧ (flat.apply row).flatten = ["1", "3", "1"] ∧
        (nested.apply row).outline = template.outline ∧
        (flat.apply row).outline.belowTuple Outline.isTuple = false) ∧
      mixed.outline.belowTuple Outline.isRecord = true ∧
      ∃ error, headers.flatProject mixed = .error error := by
  intro headers row template mixed
  have free : template.outline.belowTuple Outline.isRecord = false := rfl
  have below : mixed.outline.belowTuple Outline.isRecord = true := rfl
  obtain ⟨nested, found, picked⟩ : ∃ nested, headers.project template = .ok nested ∧
      (nested.apply row).flatten = ["1", "3", "1"] := ⟨_, rfl, rfl⟩
  obtain ⟨succeeds, values⟩ := (projections_agree headers row template).1 free
  obtain ⟨flat, found'⟩ := succeeds.mp ⟨nested, found⟩
  obtain ⟨same, shaped, flattened⟩ := values nested flat found found'
  exact ⟨free, ⟨nested, flat, found, found', picked, same ▸ picked, shaped, flattened⟩, below,
    (projections_agree headers row mixed).2 below⟩

end Headers

end ResumableCsv
