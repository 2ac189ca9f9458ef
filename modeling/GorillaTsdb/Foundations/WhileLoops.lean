import Mathlib.Logic.Function.Iterate

/-! While loops with a bound on the number of rounds.
Whether some bound suffices only depends on the states that the body passes through.
-/

namespace Foundations.WhileLoops

variable {σ : Type} (guard : σ → Bool) (body : σ → σ)

/-- The state a loop ends in, or none if it is still running after `fuel` rounds. -/
def whileLoop : Nat → σ → Option σ
  | 0, state => if guard state then none else some state
  | fuel + 1, state => if guard state then whileLoop fuel (body state) else some state

variable {guard} {state : σ}

theorem whileLoop_refused (refused : guard state = false) (fuel : Nat)
    : whileLoop guard body fuel state = some state := by
  cases fuel <;> rw [whileLoop, if_neg (by simp [refused])]

theorem whileLoop_succ (running : guard state = true) (fuel : Nat)
    : whileLoop guard body (fuel + 1) state = whileLoop guard body fuel (body state) := by
  rw [whileLoop, if_pos running]

/-- A loop that ends does so because the guard refuses a state, by induction on the bound. -/
theorem refused_of_whileLoop {fuel : Nat} (ended : (whileLoop guard body fuel state).isSome)
    : ∃ rounds, guard (body^[rounds] state) = false := by
  induction fuel generalizing state with
  | zero =>
      cases running : guard state with
      | false => exact ⟨0, running⟩
      | true =>
          rw [whileLoop, if_pos running] at ended
          cases ended
  | succ fuel ih =>
      cases running : guard state with
      | false => exact ⟨0, running⟩
      | true =>
          rw [whileLoop_succ body running] at ended
          obtain ⟨rounds, refused⟩ := ih ended
          exact ⟨rounds + 1, refused⟩

/-- A loop that runs and ends has a last round, by induction on the bound. -/
theorem whileLoop_last_round {fuel : Nat} {ended : σ}
    (ran : whileLoop guard body fuel state = some ended) (running : guard state = true)
    : ∃ last, guard last = true ∧ ended = body last ∧ guard ended = false := by
  induction fuel generalizing state with
  | zero =>
      rw [whileLoop, if_pos running] at ran
      cases ran
  | succ fuel ih =>
      rw [whileLoop_succ body running] at ran
      cases next : guard (body state) with
      | true => exact ih ran next
      | false =>
          rw [whileLoop_refused body next, Option.some.injEq] at ran
          exact ⟨state, running, ran.symm, ran ▸ next⟩

/-- A loop ends if the guard refuses a state on its way, by induction on the rounds. -/
theorem whileLoop_of_refused {rounds : Nat} (refused : guard (body^[rounds] state) = false)
    : ∃ fuel, (whileLoop guard body fuel state).isSome := by
  induction rounds generalizing state with
  | zero => exact ⟨0, Option.isSome_iff_exists.mpr ⟨state, whileLoop_refused body refused 0⟩⟩
  | succ rounds ih =>
      cases running : guard state with
      | false =>
          exact ⟨0, Option.isSome_iff_exists.mpr ⟨state, whileLoop_refused body running 0⟩⟩
      | true =>
          obtain ⟨fuel, ended⟩ := ih refused
          exact ⟨fuel + 1, by rwa [whileLoop_succ body running]⟩

/-- A larger bound does not change what a loop ends in, by induction on the smaller one. -/
theorem whileLoop_mono {fuel more : Nat} (enough : fuel ≤ more) {ended : σ}
    (ran : whileLoop guard body fuel state = some ended)
    : whileLoop guard body more state = some ended := by
  induction fuel generalizing state more with
  | zero =>
      cases running : guard state with
      | false => rwa [whileLoop_refused body running] at ran ⊢
      | true =>
          rw [whileLoop, if_pos running] at ran
          cases ran
  | succ fuel ih =>
      cases running : guard state with
      | false => rwa [whileLoop_refused body running] at ran ⊢
      | true =>
          cases more with
          | zero => exact absurd enough (Nat.not_succ_le_zero fuel)
          | succ more =>
              rw [whileLoop_succ body running] at ran ⊢
              exact ih (Nat.le_of_succ_le_succ enough) ran

/-- A loop terminates exactly if the guard refuses one of the states that the body passes
through.
-/
theorem whileLoop_terminates_iff (guard : σ → Bool) (state : σ)
    : (∃ fuel, (whileLoop guard body fuel state).isSome)
      ↔ ∃ rounds, guard (body^[rounds] state) = false := by
  constructor
  · intro ⟨fuel, ended⟩
    exact refused_of_whileLoop body ended
  · intro ⟨rounds, refused⟩
    exact whileLoop_of_refused body refused

/-- A loop whose guard first refuses the state after some rounds ends in that state, with any
bound that allows the rounds, by induction on them.
-/
theorem whileLoop_of_rounds {rounds fuel : Nat} (enough : rounds ≤ fuel)
    (running : ∀ earlier < rounds, guard (body^[earlier] state) = true)
    (refused : guard (body^[rounds] state) = false)
    : whileLoop guard body fuel state = some (body^[rounds] state) := by
  induction rounds generalizing state fuel with
  | zero => exact whileLoop_refused body refused fuel
  | succ rounds ih =>
      have runs : guard state = true := running 0 rounds.succ_pos
      cases fuel with
      | zero => exact absurd enough (Nat.not_succ_le_zero rounds)
      | succ fuel =>
          rw [whileLoop_succ body runs]
          refine ih (Nat.le_of_succ_le_succ enough) ?_ refused
          intro earlier before
          exact running (earlier + 1) (Nat.succ_lt_succ before)

/-- Loops on related states run side by side as far as an invariant holds, by induction on the
bound.
-/
theorem whileLoop_map {τ : Type} {guard' : τ → Bool} {body' : τ → τ} (image : σ → τ)
    (invariant : σ → Prop) (guards : ∀ state, guard' (image state) = guard state)
    (bodies
      : ∀ {state},
          invariant state
          → guard state = true
          → body' (image state) = image (body state) ∧ invariant (body state))
    (inside : invariant state) (fuel : Nat)
    : whileLoop guard' body' fuel (image state)
      = (whileLoop guard body fuel state).map image := by
  induction fuel generalizing state with
  | zero =>
      rw [whileLoop, whileLoop, guards]
      cases guard state <;> rfl
  | succ fuel ih =>
      cases running : guard state with
      | false =>
          have running' := (guards state).trans running
          rw [whileLoop_refused body running, whileLoop_refused body' running']
          rfl
      | true =>
          have running' := (guards state).trans running
          obtain ⟨same, stays⟩ := bodies inside running
          rw [whileLoop_succ body running, whileLoop_succ body' running', same]
          exact ih stays

end Foundations.WhileLoops
