import GorillaTsdb.Foundations.EventHistories
import Mathlib.Logic.Relation

/-! Simulations between two systems that answer operations.
A simulation relates their states so that every operation keeps the relation and is answered
alike. Then no run can tell the systems apart by its answers.
-/

namespace Foundations.Simulations

open Foundations.EventHistories

variable {σ τ υ ο π χ ρ θ ζ : Type}

/-- The answers of a run, in order. -/
def results (step : σ → ο → ρ × σ) (state : σ) (operations : List ο) : List ρ :=
  (history step state operations).map Prod.snd

/-- Each operation and its translation, from related states, are answered alike and lead to
related states.
-/
structure Simulates (concrete : σ → ο → ρ × σ) (abstract : τ → π → θ × τ)
    (translate : ο → π) (agree : ρ → θ → Prop) (related : σ → τ → Prop)
    : Prop where
  stepped
    : ∀ {state abstracted},
        related state abstracted
        → ∀ operation,
            agree (concrete state operation).1 (abstract abstracted (translate operation)).1
            ∧ related (concrete state operation).2
                (abstract abstracted (translate operation)).2

variable {concrete : σ → ο → ρ × σ} {abstract : τ → π → θ × τ} {translate : ο → π}
  {agree : ρ → θ → Prop} {related : σ → τ → Prop}

/-- Related states answer a whole run alike and lead to related states, by induction on the
operations.
-/
theorem Simulates.run (simulates : Simulates concrete abstract translate agree related)
    {state : σ} {abstracted : τ} (start : related state abstracted) (operations : List ο)
    : List.Forall₂ agree (results concrete state operations)
        (results abstract abstracted (operations.map translate))
      ∧ related (after concrete state operations)
          (after abstract abstracted (operations.map translate)) := by
  induction operations generalizing state abstracted with
  | nil => exact ⟨.nil, start⟩
  | cons operation rest ih =>
      obtain ⟨alike, next⟩ := simulates.stepped start operation
      obtain ⟨answers, reached⟩ := ih next
      exact ⟨.cons alike answers, reached⟩

/-- Where agreeing answers are the same, related states have the same history, by induction on the
operations.
-/
theorem Simulates.history_eq {abstract : τ → π → ρ × τ} {agree : ρ → ρ → Prop}
    (simulates : Simulates concrete abstract translate agree related)
    (same : ∀ {answer other}, agree answer other → answer = other) {state : σ} {abstracted : τ}
    (start : related state abstracted) (operations : List ο)
    : (history concrete state operations).map (Prod.map translate id)
      = history abstract abstracted (operations.map translate) := by
  induction operations generalizing state abstracted with
  | nil => rfl
  | cons operation rest ih =>
      obtain ⟨alike, next⟩ := simulates.stepped start operation
      exact congrArg₂ List.cons (Prod.ext rfl (same alike)) (ih next)

/-- Simulations compose: what stands between the two systems is forgotten. -/
theorem Simulates.trans {last : υ → χ → ζ × υ} {translateNext : π → χ}
    {agreeNext : θ → ζ → Prop} {relatedNext : τ → υ → Prop}
    (first : Simulates concrete abstract translate agree related)
    (second : Simulates abstract last translateNext agreeNext relatedNext)
    : Simulates concrete last (translateNext ∘ translate)
        (Relation.Comp agree agreeNext) (Relation.Comp related relatedNext) where
  stepped := by
    intro state final both operation
    obtain ⟨middle, left, right⟩ := both
    obtain ⟨alike, next⟩ := first.stepped left operation
    obtain ⟨alikeNext, further⟩ := second.stepped right (translate operation)
    exact ⟨⟨_, alike, alikeNext⟩, ⟨_, next, further⟩⟩

end Foundations.Simulations
