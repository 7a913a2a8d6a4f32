/-!
When a chain of steps that may fail succeeds: every step does, and the results are handed on. Of a
list of outcomes, what comes before the first failure, and that failure.
-/

namespace ResumableCsv.Outcome

variable {ε α β : Type}

theorem map_eq_ok_iff {f : α → β} {outcome : Except ε α} {result : β} :
    outcome.map f = .ok result ↔ ∃ value, outcome = .ok value ∧ f value = result := by
  cases outcome <;> simp [Except.map]

theorem bind_eq_ok_iff {outcome : Except ε α} {next : α → Except ε β} {result : β} :
    outcome.bind next = .ok result ↔ ∃ value, outcome = .ok value ∧ next value = .ok result := by
  cases outcome <;> simp [Except.bind]

theorem do_eq_ok_iff {outcome : Except ε α} {next : α → Except ε β} {result : β} :
    (outcome >>= next) = .ok result ↔ ∃ value, outcome = .ok value ∧ next value = .ok result :=
  bind_eq_ok_iff

theorem ok_bind {value : α} {next : α → Except ε β} :
    (Except.ok value >>= next) = next value := rfl

theorem mapError_ok {ε' : Type} {f : ε → ε'} {value : α} :
    (Except.ok value).mapError f = .ok value := rfl

theorem mapError_error {ε' : Type} {f : ε → ε'} {error : ε} :
    (Except.error error : Except ε α).mapError f = .error (f error) := rfl

theorem mapError_eq_ok_iff {ε' : Type} {f : ε → ε'} {outcome : Except ε α} {value : α} :
    outcome.mapError f = .ok value ↔ outcome = .ok value := by
  cases outcome <;> simp [mapError_ok, mapError_error]

theorem succeeds_iff_of_map_eq {γ : Type} {f : α → γ} {g : β → γ} {first : Except ε α}
    {second : Except ε β} (same : first.map f = second.map g) :
    (∃ value, first = .ok value) ↔ ∃ value, second = .ok value := by
  cases first <;> cases second <;> simp_all [Except.map]

/-- What is made of two results that were joined is joined from what is made of each. -/
theorem map_join {γ α' β' γ' : Type} {pair : α → β → γ} {whole : γ → γ'} {left : α → α'}
    {right : β → β'} {join : α' → β' → γ'}
    (joined : ∀ first second, whole (pair first second) = join (left first) (right second))
    (first : Except ε α) (second : Except ε β) :
    Except.map whole (do
      let a ← first
      let b ← second
      pure (pair a b)) = (do
      let a ← first.map left
      let b ← second.map right
      pure (join a b)) := by
  cases first with
  | error error => rfl
  | ok a =>
    cases second with
    | error error => rfl
    | ok b => exact congrArg Except.ok (joined a b)

/-- The results before the first failure, and the failure if there is one. -/
def untilFailure : List (Except ε α) → List α × Except ε Unit
  | [] => ([], .ok ())
  | .error error :: _ => ([], .error error)
  | .ok value :: rest => (value :: (untilFailure rest).1, (untilFailure rest).2)

end ResumableCsv.Outcome
