import GorillaTsdb.Foundations.EventHistories

/-! Systems of components that do not interact.
Every operation belongs to one component. A run does to a component what the operations of this
component do to it on their own, so only their order matters, not how they are interleaved with
the operations of others.
-/

namespace Foundations.Interleavings

open Foundations.EventHistories

variable {σ ο ρ κ γ : Type}

/-- Every operation acts on the component of its owner as a step of that component alone, and
leaves all other components as they are.
-/
structure Separates (step : σ → ο → ρ × σ) (owner : ο → κ) (component : σ → κ → γ)
    (own : γ → ο → ρ × γ)
    : Prop where
  acts
    : ∀ state operation,
        ((step state operation).1, component (step state operation).2 (owner operation))
        = own (component state (owner operation)) operation
  frame
    : ∀ state operation key,
        owner operation ≠ key
        → component (step state operation).2 key = component state key

variable [DecidableEq κ]

/-- The operations of one component, in their order. -/
def project (owner : ο → κ) (key : κ) (operations : List ο) : List ο :=
  operations.filter fun operation => owner operation = key

/-- The events of one component. -/
def projectEvents (owner : ο → κ) (key : κ) (events : List (ο × ρ)) : List (ο × ρ) :=
  events.filter fun event => owner event.1 = key

section Projection

variable {owner : ο → κ} {key : κ}

@[simp]
theorem project_nil : project owner key [] = [] := rfl

theorem project_cons (operation : ο) (rest : List ο)
    : project owner key (operation :: rest)
      = if owner operation = key then operation :: project owner key rest
        else project owner key rest := by
  simp only [project, List.filter_cons, decide_eq_true_eq]

@[simp]
theorem project_append (first second : List ο)
    : project owner key (first ++ second) = project owner key first ++ project owner key second :=
  List.filter_append first second

theorem project_eq_nil {operations : List ο}
    (others : ∀ operation ∈ operations, owner operation ≠ key)
    : project owner key operations = [] := by
  rw [project, List.filter_eq_nil_iff]
  intro operation member
  simpa using others operation member

/-- Where every component owns at most one operation, it is the only one of its owner, by
induction on the operations.
-/
theorem project_single {operations : List ο} (once : (operations.map owner).Nodup)
    {operation : ο} (member : operation ∈ operations)
    : project owner (owner operation) operations = [operation] := by
  induction operations with
  | nil => exact absurd member List.not_mem_nil
  | cons first rest ih =>
      obtain ⟨fresh, others⟩ := List.nodup_cons.mp once
      have different : ∀ other ∈ rest, owner other ≠ owner first := fun other inside same =>
        fresh (List.mem_map.mpr ⟨other, inside, same⟩)
      rcases List.mem_cons.mp member with rfl | later
      · rw [project_cons, if_pos rfl, project_eq_nil different]
      · rw [project_cons, if_neg (Ne.symm (different operation later)), ih others later]

end Projection

section Runs

variable {step : σ → ο → ρ × σ} {owner : ο → κ} {component : σ → κ → γ} {own : γ → ο → ρ × γ}

/-- A run leads each component to where its own operations lead it, with the same results, by
induction on the operations.
-/
theorem Separates.project_run (separates : Separates step owner component own) (state : σ)
    (operations : List ο) (key : κ)
    : component (after step state operations) key
        = after own (component state key) (project owner key operations)
      ∧ projectEvents owner key (history step state operations)
        = history own (component state key) (project owner key operations) := by
  induction operations generalizing state with
  | nil => exact ⟨rfl, rfl⟩
  | cons operation rest ih =>
      obtain ⟨reached, events⟩ := ih (step state operation).2
      rw [project_cons, history, projectEvents, List.filter_cons]
      by_cases owned : owner operation = key
      · subst owned
        obtain ⟨result, moved⟩ := Prod.mk.inj (separates.acts state operation)
        rw [moved] at reached events
        rw [if_pos rfl, if_pos (by simp)]
        refine ⟨reached, ?_⟩
        rw [history, ← result]
        exact congrArg _ events
      · have stays := separates.frame state operation key owned
        rw [stays] at reached events
        rw [if_neg owned, if_neg (by simpa using owned)]
        exact ⟨reached, events⟩

/-- Runs from states with equal components that give every component the same operations in the
same order agree on every component and on the result of every operation.
-/
theorem Separates.interleavings_agree (separates : Separates step owner component own)
    {state other : σ} (alike : ∀ key, component state key = component other key)
    {first second : List ο} {key : κ}
    (same : project owner key first = project owner key second)
    : component (after step state first) key = component (after step other second) key
      ∧ projectEvents owner key (history step state first)
        = projectEvents owner key (history step other second) := by
  obtain ⟨reached, events⟩ := separates.project_run state first key
  obtain ⟨otherReached, otherEvents⟩ := separates.project_run other second key
  rw [reached, events, otherReached, otherEvents, same, alike key]
  exact ⟨rfl, rfl⟩

end Runs

-----------------------------------------------------------------------------------------
-- One marked operation in each component
-----------------------------------------------------------------------------------------

section Marks

variable (owner : ο → κ) (marked : ο → Bool)

/-- The unmarked operations whose component has not been marked yet. -/
def early : List κ → List ο → List ο
  | _, [] => []
  | passed, operation :: rest =>
      if marked operation then early (owner operation :: passed) rest
      else if owner operation ∈ passed then early passed rest
      else operation :: early passed rest

/-- The unmarked operations whose component has been marked. -/
def late : List κ → List ο → List ο
  | _, [] => []
  | passed, operation :: rest =>
      if marked operation then late (owner operation :: passed) rest
      else if owner operation ∈ passed then operation :: late passed rest
      else late passed rest

variable {owner marked}

/-- Behind its mark a component has late operations only, by induction on the operations. -/
theorem project_passed {passed : List κ} {key : κ} (behind : key ∈ passed)
    {operations : List ο}
    (unmarked : ∀ operation ∈ operations, marked operation → owner operation ≠ key)
    : project owner key (early owner marked passed operations) = []
      ∧ project owner key (late owner marked passed operations)
        = project owner key operations := by
  induction operations generalizing passed with
  | nil => exact ⟨rfl, rfl⟩
  | cons operation rest ih =>
      obtain ⟨first, others⟩ := List.forall_mem_cons.mp unmarked
      rw [early, late]
      split
      case isTrue isMark =>
        have other := first isMark
        obtain ⟨none, all⟩ := ih (List.mem_cons_of_mem _ behind) others
        exact ⟨none, all.trans (by rw [project_cons, if_neg other])⟩
      case isFalse =>
        obtain ⟨none, all⟩ := ih behind others
        split
        case isTrue => exact ⟨none, by rw [project_cons, project_cons, all]⟩
        case isFalse ahead =>
          have other : owner operation ≠ key := fun same => ahead (same ▸ behind)
          exact ⟨by rw [project_cons, if_neg other, none],
            by rw [project_cons, if_neg other, all]⟩

/-- If no component is marked twice, all early operations, then all marks and then all late
operations are an interleaving of the same operations of every component, by induction on the
operations.
-/
theorem project_marks {passed : List κ} {operations : List ο}
    (once : ((operations.filter marked).map owner).Nodup)
    {key : κ} (ahead : key ∉ passed)
    : project owner key
          (early owner marked passed operations
            ++ operations.filter marked
            ++ late owner marked passed operations)
      = project owner key operations := by
  induction operations generalizing passed with
  | nil => rfl
  | cons operation rest ih =>
      rw [early, late, List.filter_cons]
      rw [List.filter_cons] at once
      cases isMark : marked operation with
      | true =>
          simp only [isMark, if_true, List.map_cons, List.nodup_cons] at once ⊢
          by_cases owned : owner operation = key
          · subst owned
            have unmarked : ∀ other ∈ rest, marked other → owner other ≠ owner operation := by
              intro other member otherMark same
              refine once.1 (List.mem_map.mpr ⟨other, ?_, same⟩)
              exact List.mem_filter.mpr ⟨member, otherMark⟩
            have behind : owner operation ∈ owner operation :: passed := List.mem_cons_self
            obtain ⟨none, all⟩ := project_passed behind unmarked
            have marks : project owner (owner operation) (rest.filter marked) = [] := by
              refine project_eq_nil fun other member => ?_
              obtain ⟨inside, otherMark⟩ := List.mem_filter.mp member
              exact unmarked other inside otherMark
            simp only [project_append, project_cons, if_true, none, marks, all,
              List.nil_append, List.cons_append]
          · have still : key ∉ owner operation :: passed := by simp [ahead, Ne.symm owned]
            have later := ih once.2 still
            simp only [project_append, project_cons, if_neg owned] at later ⊢
            exact later
      | false =>
          simp only [isMark, Bool.false_eq_true, if_false] at once ⊢
          have later := ih once ahead
          by_cases owned : owner operation = key
          · subst owned
            simp only [project_append, project_cons, ahead, if_true, if_false,
              List.cons_append] at later ⊢
            rw [later]
          · split
            case isTrue =>
              simp only [project_append, project_cons, if_neg owned] at later ⊢
              exact later
            case isFalse =>
              simp only [project_append, project_cons, if_neg owned] at later ⊢
              exact later

/-- The early and the late operations are the unmarked ones, by induction on the operations. -/
theorem perm_unmarked (passed : List κ) (operations : List ο)
    : (early owner marked passed operations ++ late owner marked passed operations).Perm
        (operations.filter fun operation => !marked operation) := by
  induction operations generalizing passed with
  | nil => exact .refl []
  | cons operation rest ih =>
      rw [early, late, List.filter_cons]
      cases isMark : marked operation with
      | true => simpa [isMark] using ih (owner operation :: passed)
      | false =>
          simp only [Bool.false_eq_true, if_false, Bool.not_false, if_true]
          split
          case isTrue => exact List.perm_middle.trans ((ih passed).cons operation)
          case isFalse => exact (ih passed).cons operation

/-- The early and the late operations hold the unmarked ones of every component in their order. -/
theorem project_unmarked {passed : List κ} {operations : List ο}
    (once : ((operations.filter marked).map owner).Nodup)
    {key : κ} (ahead : key ∉ passed)
    : project owner key
          (early owner marked passed operations ++ late owner marked passed operations)
      = project owner key (operations.filter fun operation => !marked operation) := by
  let unmarked := fun operation => !marked operation
  have perm : (early owner marked passed operations ++ late owner marked passed operations).Perm
      (operations.filter unmarked) := perm_unmarked passed operations
  have kept {part : List ο} (within : ∀ operation ∈ part, operation ∈ operations.filter unmarked)
      : (project owner key part).filter unmarked = project owner key part := by
    rw [List.filter_eq_self]
    intro operation member
    exact (List.mem_filter.mp (within operation (List.mem_filter.mp member).1)).2
  have dropped : (project owner key (operations.filter marked)).filter unmarked = [] := by
    rw [List.filter_eq_nil_iff]
    intro operation member
    have isMark := (List.mem_filter.mp (List.mem_filter.mp member).1).2
    simp [unmarked, isMark]
  have whole := congrArg (List.filter unmarked) (project_marks once ahead)
  rw [project_append, project_append, List.filter_append, List.filter_append, dropped,
    kept fun operation member => perm.mem_iff.mp (List.mem_append_left _ member),
    kept fun operation member => perm.mem_iff.mp (List.mem_append_right _ member),
    List.append_nil] at whole
  rw [project_append, whole, project, project]
  exact List.filter_comm ..

end Marks

end Foundations.Interleavings
