import Mathlib.Data.List.Basic

/-! Runs of a system one operation at a time, with the result of every operation on record.
What a run promises is stated about this record, so it can only use what a client saw.
-/

namespace Foundations.EventHistories

variable {σ ο ρ ε α : Type}

/-- The result of a stateful program as plain data. -/
def outcome : EStateM.Result ε σ α → Except ε α × σ
  | .ok result state => (.ok result, state)
  | .error error state => (.error error, state)

/-- The state after a sequence of operations. -/
def after (step : σ → ο → ρ × σ) : σ → List ο → σ
  | state, [] => state
  | state, operation :: rest => after step (step state operation).2 rest

/-- The operations of a run, each with its result. -/
def history (step : σ → ο → ρ × σ) : σ → List ο → List (ο × ρ)
  | _, [] => []
  | state, operation :: rest =>
      (operation, (step state operation).1) :: history step (step state operation).2 rest

variable {step : σ → ο → ρ × σ}

/-- A run of two parts reaches what its second part reaches, by induction on the first part. -/
theorem after_append (state : σ) (first second : List ο)
    : after step state (first ++ second) = after step (after step state first) second := by
  induction first generalizing state with
  | nil => rfl
  | cons operation rest ih => exact ih (step state operation).2

/-- Without their results, the events of a run are its operations, by induction on them. -/
theorem history_operations (state : σ) (operations : List ο)
    : (history step state operations).map Prod.fst = operations := by
  induction operations generalizing state with
  | nil => rfl
  | cons operation rest ih => exact congrArg _ (ih (step state operation).2)

/-- The history of a run of two parts, by induction on the first part. -/
theorem history_append (state : σ) (first second : List ο)
    : history step state (first ++ second)
      = history step state first ++ history step (after step state first) second := by
  induction first generalizing state with
  | nil => rfl
  | cons operation rest ih => exact congrArg _ (ih (step state operation).2)

/-- Every step of the run meets the condition on the state before it. -/
def AllSteps (step : σ → ο → ρ × σ) (condition : σ → ο → Prop) : σ → List ο → Prop
  | _, [] => True
  | state, operation :: rest =>
      condition state operation ∧ AllSteps step condition (step state operation).2 rest

/-- A condition on the operations alone may be added to one on the steps, by induction on the
operations.
-/
theorem AllSteps.and_forall {condition : σ → ο → Prop} {other : ο → Prop} {state : σ}
    {operations : List ο} (steps : AllSteps step condition state operations)
    (all : ∀ operation ∈ operations, other operation)
    : AllSteps step (fun state operation => condition state operation ∧ other operation) state
        operations := by
  induction operations generalizing state with
  | nil => trivial
  | cons operation rest ih =>
      obtain ⟨first, others⟩ := List.forall_mem_cons.mp all
      exact ⟨⟨steps.1, first⟩, ih steps.2 others⟩

/-- Conditions that agree on every step agree on every run, by induction on the operations. -/
theorem allSteps_congr {condition other : σ → ο → Prop}
    (same : ∀ state operation, condition state operation ↔ other state operation)
    (state : σ) (operations : List ο)
    : AllSteps step condition state operations ↔ AllSteps step other state operations := by
  induction operations generalizing state with
  | nil => exact Iff.rfl
  | cons operation rest ih => exact and_congr (same state operation) (ih _)

theorem allSteps_true (step : σ → ο → ρ × σ) (state : σ) (operations : List ο)
    : AllSteps step (fun _ _ => True) state operations := by
  induction operations generalizing state with
  | nil => trivial
  | cons operation rest ih => exact ⟨trivial, ih _⟩

/-- A condition that holds wherever a run can be cut in front of a step is met by all steps, by
induction on the operations.
-/
theorem allSteps_of_cuts {condition : σ → ο → Prop} {state : σ} {operations : List ο}
    (cuts
      : ∀ before operation rest,
          operations = before ++ operation :: rest
          → condition (after step state before) operation)
    : AllSteps step condition state operations := by
  induction operations generalizing state with
  | nil => trivial
  | cons operation rest ih =>
      refine ⟨cuts [] operation rest rfl, ih fun before later rest same => ?_⟩
      exact cuts (operation :: before) later rest (congrArg (List.cons operation) same)

/-- The property holds in every state that the run reaches, the first one included. -/
def AllReached (step : σ → ο → ρ × σ) (property : σ → Prop) (state : σ) (operations : List ο)
    : Prop :=
  ∀ reached, reached <+: operations → property (after step state reached)

theorem allReached_cons {property : σ → Prop} {state : σ} {operation : ο} {rest : List ο}
    : AllReached step property state (operation :: rest)
      ↔ property state ∧ AllReached step property (step state operation).2 rest := by
  constructor
  · intro all
    refine ⟨all [] List.nil_prefix, ?_⟩
    intro reached before
    exact all (operation :: reached) ((List.prefix_cons_inj operation).mpr before)
  · intro all reached before
    cases reached with
    | nil => exact all.1
    | cons first others =>
        obtain ⟨rfl, later⟩ := List.cons_prefix_cons.mp before
        exact all.2 others later

/-- Where a step keeps the property exactly under a condition, a run keeps it exactly if all of
its steps meet the condition, by induction on the operations.
-/
theorem allReached_iff_allSteps {condition : σ → ο → Prop} {invariant property : σ → Prop}
    {sound : ο → Prop}
    (stepped
      : ∀ {state},
          invariant state
          → property state
          → ∀ operation,
              sound operation
              → invariant (step state operation).2
                ∧ (property (step state operation).2 ↔ condition state operation))
    {state : σ} (initially : invariant state) {operations : List ο}
    (all : ∀ operation ∈ operations, sound operation)
    : AllReached step property state operations
      ↔ property state ∧ AllSteps step condition state operations := by
  induction operations generalizing state with
  | nil =>
      constructor
      · intro reached
        exact ⟨reached [] List.nil_prefix, trivial⟩
      · intro met reached before
        rw [List.prefix_nil.mp before]
        exact met.1
  | cons operation rest ih =>
      obtain ⟨first, others⟩ := List.forall_mem_cons.mp all
      rw [allReached_cons]
      refine and_congr_right fun met => ?_
      obtain ⟨kept, agrees⟩ := stepped initially met operation first
      rw [ih kept others, agrees, AllSteps]

/-- A relation between history and state that every step under the condition preserves holds
at the end of every run of such steps that starts in it, by induction on the operations.
-/
theorem run_invariant_of_steps (condition : σ → ο → Prop)
    (invariant : List (ο × ρ) → σ → Prop)
    (preserved
      : ∀ {events state},
          invariant events state
          → ∀ operation,
              condition state operation
              → invariant (events ++ [(operation, (step state operation).1)])
                  (step state operation).2)
    {events : List (ο × ρ)} {state : σ} (initially : invariant events state)
    {operations : List ο} (allowed : AllSteps step condition state operations)
    : invariant (events ++ history step state operations) (after step state operations) := by
  induction operations generalizing events state with
  | nil => simpa [history, after] using initially
  | cons operation rest ih =>
      have whole := ih (preserved initially operation allowed.1) allowed.2
      rwa [List.append_assoc] at whole

/-- A relation that every operation preserves holds at the end of every run. -/
theorem run_invariant (invariant : List (ο × ρ) → σ → Prop)
    (preserved
      : ∀ {events state},
          invariant events state
          → ∀ operation,
              invariant (events ++ [(operation, (step state operation).1)])
                (step state operation).2)
    {events : List (ο × ρ)} {state : σ} (initially : invariant events state)
    (operations : List ο)
    : invariant (events ++ history step state operations) (after step state operations) :=
  run_invariant_of_steps (fun _ _ => True) invariant
    (fun holds operation _ => preserved holds operation) initially
    (allSteps_true step state operations)

/-- A step that also returns what an observer notes of the operation and the state before it. -/
def annotated {ν : Type} (step : σ → ο → ρ × σ) (note : σ → ο → ν) (state : σ) (operation : ο)
    : (ρ × ν) × σ :=
  (((step state operation).1, note state operation), (step state operation).2)

/-- An observer does not disturb the run, by induction on the operations. -/
theorem after_annotated {ν : Type} (note : σ → ο → ν) (state : σ) (operations : List ο)
    : after (annotated step note) state operations = after step state operations := by
  induction operations generalizing state with
  | nil => rfl
  | cons operation rest ih => exact ih (step state operation).2

/-- Without the notes, an observed history is the history, by induction on the operations. -/
theorem history_annotated {ν : Type} (note : σ → ο → ν) (state : σ) (operations : List ο)
    : (history (annotated step note) state operations).map (Prod.map id Prod.fst)
      = history step state operations := by
  induction operations generalizing state with
  | nil => rfl
  | cons operation rest ih => exact congrArg _ (ih (step state operation).2)

/-- A property of the notes holds at every step exactly if it holds of every noted event, by
induction on the operations.
-/
theorem allSteps_iff_annotated {ν : Type} (step : σ → ο → ρ × σ) (note : σ → ο → ν)
    (property : ν → Prop) (state : σ) (operations : List ο)
    : AllSteps step (fun state operation => property (note state operation)) state operations
      ↔ ∀ event ∈ history (annotated step note) state operations, property event.2.2 := by
  induction operations generalizing state with
  | nil => exact iff_of_true trivial (List.forall_mem_nil _)
  | cons operation rest ih =>
      rw [history, List.forall_mem_cons]
      exact and_congr Iff.rfl (ih (step state operation).2)

end Foundations.EventHistories
