import Mathlib.Data.List.Forall2

/-! Programs with a bound on their rounds, which answer or are still running.
A larger bound never changes an answer, so a program has at most one or hangs. Programs that run
one after the other come as far as the first one that fails or hangs.
-/

namespace Foundations.FueledPrograms

variable {α β ε ι : Type}

/-- A larger bound does not change an answer. -/
def Stable (program : Nat → Option α) : Prop :=
  ∀ {fuel more answer}, fuel ≤ more → program fuel = some answer → program more = some answer

def Returns (program : Nat → Option α) (answer : α) : Prop := ∃ fuel, program fuel = some answer

def Hangs (program : Nat → Option α) : Prop := ∀ fuel, program fuel = none

theorem hangs_or_returns (program : Nat → Option α)
    : Hangs program ∨ ∃ answer, Returns program answer := by
  by_cases hangs : Hangs program
  · exact .inl hangs
  · obtain ⟨fuel, ran⟩ := not_forall.mp hangs
    obtain ⟨answer, found⟩ := Option.ne_none_iff_exists'.mp ran
    exact .inr ⟨answer, fuel, found⟩

theorem Returns.unique {program : Nat → Option α} (stable : Stable program) {answer other : α}
    (returns : Returns program answer) (again : Returns program other)
    : answer = other := by
  obtain ⟨fuel, ran⟩ := returns
  obtain ⟨more, reran⟩ := again
  have first := stable (Nat.le_max_left fuel more) ran
  have second := stable (Nat.le_max_right fuel more) reran
  exact Option.some.inj (first.symm.trans second)

/-- A program whose results are changed by a function. -/
def mapped (change : α → β) (program : Nat → Option (Except ε α)) (fuel : Nat)
    : Option (Except ε β) :=
  (program fuel).map (Except.map change)

section Mapped

variable {change : α → β} {program : Nat → Option (Except ε α)}

theorem stable_mapped (stable : Stable program) : Stable (mapped change program) := by
  intro fuel more answer enough ran
  obtain ⟨first, found, rfl⟩ := Option.map_eq_some_iff.mp ran
  exact Option.map_eq_some_iff.mpr ⟨first, stable enough found, rfl⟩

theorem returns_mapped_ok {result : β}
    : Returns (mapped change program) (.ok result)
      ↔ ∃ first, Returns program (.ok first) ∧ change first = result := by
  constructor
  · rintro ⟨fuel, ran⟩
    obtain ⟨_ | first, found, made⟩ := Option.map_eq_some_iff.mp ran
    · cases made
    · cases made
      exact ⟨first, ⟨fuel, found⟩, rfl⟩
  · rintro ⟨first, ⟨fuel, found⟩, rfl⟩
    exact ⟨fuel, Option.map_eq_some_iff.mpr ⟨_, found, rfl⟩⟩

theorem returns_mapped_error {error : ε}
    : Returns (mapped change program) (.error error) ↔ Returns program (.error error) := by
  refine exists_congr fun fuel => Option.map_eq_some_iff.trans ?_
  constructor
  · rintro ⟨_ | first, found, made⟩
    · cases made
      exact found
    · cases made
  · exact fun found => ⟨_, found, rfl⟩

theorem hangs_mapped : Hangs (mapped change program) ↔ Hangs program :=
  forall_congr' fun _ => Option.map_eq_none_iff

end Mapped

/-- What ends a run over items at one that stops it, behind items that pass, by induction on the
items.
-/
theorem ends_iff_first {ends : List ι → Prop} {passes stops : ι → Prop} (nil : ¬ ends [])
    (cons : ∀ item rest, ends (item :: rest) ↔ stops item ∨ passes item ∧ ends rest)
    (items : List ι)
    : ends items
      ↔ ∃ earlier item later,
          items = earlier ++ item :: later ∧ (∀ other ∈ earlier, passes other) ∧ stops item := by
  induction items with
  | nil =>
      refine iff_of_false nil ?_
      rintro ⟨earlier, item, later, split, -⟩
      simp at split
  | cons first rest ih =>
      rw [cons, ih]
      constructor
      · rintro (stop | ⟨passed, earlier, item, later, rfl, before, stop⟩)
        · exact ⟨[], first, rest, rfl, List.forall_mem_nil _, stop⟩
        · exact ⟨first :: earlier, item, later, rfl,
            List.forall_mem_cons.mpr ⟨passed, before⟩, stop⟩
      · rintro ⟨earlier, item, later, split, before, stop⟩
        cases earlier with
        | nil =>
            obtain ⟨rfl, -⟩ := List.cons.inj split
            exact .inl stop
        | cons other earlier =>
            obtain ⟨rfl, rfl⟩ := List.cons.inj split
            obtain ⟨passed, others⟩ := List.forall_mem_cons.mp before
            exact .inr ⟨passed, earlier, item, later, rfl, others, stop⟩

/-- The programs of some items, one after the other; the first error ends the run. -/
def sequence (run : ι → Nat → Option (Except ε β))
    : List ι → Nat → Option (Except ε (List β))
  | [], _ => some (.ok [])
  | item :: rest, fuel =>
      match run item fuel with
      | none => none
      | some (.error error) => some (.error error)
      | some (.ok result) => (sequence run rest fuel).map (Except.map (result :: ·))

section Sequences

variable {run : ι → Nat → Option (Except ε β)} {item : ι} {rest items : List ι}

theorem sequence_none {fuel : Nat} (running : run item fuel = none)
    : sequence run (item :: rest) fuel = none := by
  simp only [sequence, running]

theorem sequence_error {fuel : Nat} {error : ε} (failed : run item fuel = some (.error error))
    : sequence run (item :: rest) fuel = some (.error error) := by
  simp only [sequence, failed]

theorem sequence_ok {fuel : Nat} {result : β} (passed : run item fuel = some (.ok result))
    : sequence run (item :: rest) fuel
      = (sequence run rest fuel).map (Except.map (result :: ·)) := by
  simp only [sequence, passed]

/-- What a sequence answers: its first program fails, or answers and the others go on. -/
theorem sequence_eq_some {fuel : Nat} {answer : Except ε (List β)}
    (ran : sequence run (item :: rest) fuel = some answer)
    : (∃ error, run item fuel = some (.error error) ∧ answer = .error error)
      ∨ ∃ result others,
          run item fuel = some (.ok result)
          ∧ sequence run rest fuel = some others
          ∧ answer = others.map (result :: ·) := by
  rcases first : run item fuel with _ | ⟨error | result⟩
  · cases (sequence_none first).symm.trans ran
  · exact .inl ⟨error, rfl, Option.some.inj (ran.symm.trans (sequence_error first))⟩
  · obtain ⟨others, later, made⟩ := Option.map_eq_some_iff.mp ((sequence_ok first).symm.trans ran)
    exact .inr ⟨result, others, rfl, later, made.symm⟩

/-- A sequence is stable, by induction on the items. -/
theorem stable_sequence (stable : ∀ item, Stable (run item)) (items : List ι)
    : Stable (sequence run items) := by
  intro fuel more answer enough ran
  induction items generalizing answer with
  | nil => exact ran
  | cons item rest ih =>
      rcases sequence_eq_some ran with ⟨error, failed, rfl⟩ | ⟨result, others, passed, later, rfl⟩
      · exact sequence_error (stable item enough failed)
      · rw [sequence_ok (stable item enough passed), ih later]
        rfl

/-- A sequence fails with its first program, or behind it. -/
theorem sequence_cons_error (stable : ∀ item, Stable (run item)) {error : ε}
    : Returns (sequence run (item :: rest)) (.error error)
      ↔ Returns (run item) (.error error)
        ∨ ∃ result,
            Returns (run item) (.ok result) ∧ Returns (sequence run rest) (.error error) := by
  constructor
  · rintro ⟨fuel, ran⟩
    rcases sequence_eq_some ran with ⟨other, failed, same⟩ | ⟨result, others, passed, later, same⟩
    · cases same
      exact .inl ⟨fuel, failed⟩
    · cases others with
      | error other =>
          cases same
          exact .inr ⟨result, ⟨fuel, passed⟩, fuel, later⟩
      | ok results => cases same
  · rintro (⟨fuel, failed⟩ | ⟨result, ⟨fuel, passed⟩, more, later⟩)
    · exact ⟨fuel, sequence_error failed⟩
    · refine ⟨max fuel more, ?_⟩
      rw [sequence_ok (stable item (Nat.le_max_left fuel more) passed),
        stable_sequence stable rest (Nat.le_max_right fuel more) later]
      rfl

/-- A sequence hangs in its first program, or behind it. -/
theorem sequence_cons_hangs (stable : ∀ item, Stable (run item))
    : Hangs (sequence run (item :: rest))
      ↔ Hangs (run item)
        ∨ ∃ result, Returns (run item) (.ok result) ∧ Hangs (sequence run rest) := by
  constructor
  · intro hangs
    rcases hangs_or_returns (run item) with first | ⟨error | result, fuel, ran⟩
    · exact .inl first
    · cases (hangs fuel).symm.trans (sequence_error ran)
    · refine .inr ⟨result, ⟨fuel, ran⟩, fun more => ?_⟩
      rcases later : sequence run rest more with _ | others
      · rfl
      · have reached := hangs (max fuel more)
        rw [sequence_ok (stable item (Nat.le_max_left fuel more) ran),
          stable_sequence stable rest (Nat.le_max_right fuel more) later] at reached
        cases reached
  · rintro (first | ⟨result, ⟨fuel, ran⟩, later⟩) more
    · exact sequence_none (first more)
    · rcases again : run item more with _ | ⟨error | other⟩
      · exact sequence_none again
      · cases Returns.unique (stable item) ⟨fuel, ran⟩ ⟨more, again⟩
      · rw [sequence_ok again, later more]
        rfl

/-- A sequence answers with the results of all its programs, by induction on the items. -/
theorem sequence_returns_iff (stable : ∀ item, Stable (run item)) (items : List ι)
    (results : List β)
    : Returns (sequence run items) (.ok results)
      ↔ List.Forall₂ (fun item result => Returns (run item) (.ok result)) items results := by
  induction items generalizing results with
  | nil =>
      constructor
      · rintro ⟨_, ran⟩
        cases ran
        exact .nil
      · intro each
        cases each
        exact ⟨0, rfl⟩
  | cons item rest ih =>
      constructor
      · rintro ⟨fuel, ran⟩
        rcases sequence_eq_some ran with ⟨_, _, same⟩ | ⟨result, others, passed, later, same⟩
        · cases same
        · cases others with
          | error error => cases same
          | ok others =>
              cases same
              exact .cons ⟨fuel, passed⟩ ((ih others).mp ⟨fuel, later⟩)
      · intro each
        cases each with
        | cons first others =>
            obtain ⟨fuel, passed⟩ := first
            obtain ⟨more, later⟩ := (ih _).mpr others
            refine ⟨max fuel more, ?_⟩
            rw [sequence_ok (stable item (Nat.le_max_left fuel more) passed),
              stable_sequence stable rest (Nat.le_max_right fuel more) later]
            rfl

/-- A sequence answers exactly if every program does, by induction on the items. -/
theorem exists_sequence_returns_iff (stable : ∀ item, Stable (run item)) (items : List ι)
    : (∃ results, Returns (sequence run items) (.ok results))
      ↔ ∀ item ∈ items, ∃ result, Returns (run item) (.ok result) := by
  simp only [sequence_returns_iff stable]
  induction items with
  | nil => exact iff_of_true ⟨[], .nil⟩ (List.forall_mem_nil _)
  | cons item rest ih =>
      rw [List.forall_mem_cons, ← ih]
      constructor
      · rintro ⟨_, _ | ⟨first, others⟩⟩
        exact ⟨⟨_, first⟩, _, others⟩
      · rintro ⟨⟨result, first⟩, results, others⟩
        exact ⟨result :: results, .cons first others⟩

/-- A sequence fails with the first program that does not answer, if that one fails. -/
theorem sequence_fails_iff (stable : ∀ item, Stable (run item)) (items : List ι) (error : ε)
    : Returns (sequence run items) (.error error)
      ↔ ∃ earlier item later,
          items = earlier ++ item :: later
          ∧ (∀ other ∈ earlier, ∃ result, Returns (run other) (.ok result))
          ∧ Returns (run item) (.error error) := by
  let fails (items : List ι) : Prop := Returns (sequence run items) (.error error)
  have nil : ¬ fails [] := by
    rintro ⟨_, ran⟩
    cases ran
  refine ends_iff_first nil (fun item rest => ?_) items
  exact (sequence_cons_error stable).trans (or_congr_right exists_and_right)

/-- A sequence hangs in the first program that does not answer, if that one hangs. -/
theorem sequence_hangs_iff (stable : ∀ item, Stable (run item)) (items : List ι)
    : Hangs (sequence run items)
      ↔ ∃ earlier item later,
          items = earlier ++ item :: later
          ∧ (∀ other ∈ earlier, ∃ result, Returns (run other) (.ok result))
          ∧ Hangs (run item) := by
  let stuck (items : List ι) : Prop := Hangs (sequence run items)
  have nil : ¬ stuck [] := by
    intro hangs
    cases hangs 0
  refine ends_iff_first nil (fun item rest => ?_) items
  exact (sequence_cons_hangs stable).trans (or_congr_right exists_and_right)

end Sequences

end Foundations.FueledPrograms
