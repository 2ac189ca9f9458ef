import GorillaTsdb.Foundations.TokenStreams

/-! Readers over a stream that lost its end.
A program that looks at its tokens one after the other cannot tell a cut stream from the full
one until it asks for a token that is missing. Up to that point both runs agree, and there it
stops with one known error.
-/

namespace Foundations.TokenStreams

variable {ε ρ τ κ κ' α β ο : Type} {source : Source ρ τ} {error : ε}

/-- What the first reader has not read yet is the beginning of what the second one has not. -/
def Source.Cut (source : Source ρ τ) (cut full : ρ) : Prop :=
  source.unread cut <+: source.unread full

/-- Reading the same tokens of both streams leaves the one a beginning of the other. -/
theorem Source.Cut.advance {cut full : ρ} (readers : source.Cut cut full) {count : Nat}
    (within : count ≤ (source.unread cut).length)
    : source.Cut (source.advance cut count) (source.advance full count) := by
  obtain ⟨missing, unread⟩ := readers
  refine ⟨missing, ?_⟩
  rw [source.unread_advance, source.unread_advance, ← unread, List.drop_append_of_le_length within]

/-- On a cut stream the program does the same as on the full one, or stops with `error`. -/
def Source.Starves (source : Source ρ τ) (error : ε) (program : EStateM ε ρ α) : Prop :=
  ∀ cut full,
    source.Cut cut full
    → (∃ result count,
          count ≤ (source.unread cut).length
          ∧ program cut = .ok result (source.advance cut count)
          ∧ program full = .ok result (source.advance full count))
      ∨ ∃ stopped, program cut = .error error stopped

/-- Returning a value needs no token. -/
theorem Source.Starves.pure (source : Source ρ τ) (error : ε) (result : α)
    : source.Starves error (Pure.pure result) := by
  intro cut full _
  refine Or.inl ⟨result, 0, Nat.zero_le _, ?_, ?_⟩
  · exact congrArg (EStateM.Result.ok result) (source.advance_zero cut).symm
  · exact congrArg (EStateM.Result.ok result) (source.advance_zero full).symm

/-- The second program runs on the readers that the first one leaves, one still a cut of the
other.
-/
theorem Source.Starves.bind {program : EStateM ε ρ α} {next : α → EStateM ε ρ β}
    (first : source.Starves error program)
    (second : ∀ result, source.Starves error (next result))
    : source.Starves error (program >>= next) := by
  intro cut full readers
  rcases first cut full readers with ⟨middle, count, within, ranCut, ranFull⟩
    | ⟨stopped, ranCut⟩
  · rw [bind_ok ranCut, bind_ok ranFull]
    rcases second middle _ _ (readers.advance within) with
      ⟨result, more, withinMore, lastCut, lastFull⟩ | stopped
    · rw [source.unread_advance, List.length_drop] at withinMore
      rw [source.advance_advance] at lastCut lastFull
      exact Or.inl ⟨result, count + more, by omega, lastCut, lastFull⟩
    · exact Or.inr stopped
  · exact Or.inr ⟨stopped, bind_error ranCut⟩

/-- `Starves` for a program with private fields, which it leaves as they were if it stops. -/
def Source.StarvesWith (source : Source ρ τ) (error : ε) (program : EStateM ε (κ × ρ) α)
    : Prop :=
  ∀ fields cut full,
    source.Cut cut full
    → (∃ result after count,
          count ≤ (source.unread cut).length
          ∧ program (fields, cut) = .ok result (after, source.advance cut count)
          ∧ program (fields, full) = .ok result (after, source.advance full count))
      ∨ ∃ stopped, program (fields, cut) = .error error (fields, stopped)

/-- A program that computes on its fields and touches no token. -/
def Silent (program : EStateM ε (κ × ρ) α) : Prop :=
  ∀ fields, ∃ result after, ∀ stream, program (fields, stream) = .ok result (after, stream)

theorem Silent.pure (result : α) : Silent (ε := ε) (κ := κ) (ρ := ρ) (Pure.pure result) :=
  fun fields => ⟨result, fields, fun _ => rfl⟩

theorem Silent.setFields (fields : κ) (result : α)
    : Silent (ε := ε) (ρ := ρ) (do TokenStreams.setFields fields; Pure.pure result) :=
  fun _ => ⟨result, fields, fun _ => rfl⟩

theorem Silent.fields {next : κ → EStateM ε (κ × ρ) α} (silent : ∀ fields, Silent (next fields))
    : Silent (getFields >>= next) :=
  fun fields => silent fields fields

theorem Silent.starves {program : EStateM ε (κ × ρ) α} (silent : Silent program)
    : source.StarvesWith error program := by
  intro fields cut full _
  obtain ⟨result, after, ran⟩ := silent fields
  refine Or.inl ⟨result, after, 0, Nat.zero_le _, ?_, ?_⟩
  · rw [ran, source.advance_zero]
  · rw [ran, source.advance_zero]

/-- Looking at the fields needs no token. -/
theorem Source.StarvesWith.fields {next : κ → EStateM ε (κ × ρ) α}
    (starves : ∀ fields, source.StarvesWith error (next fields))
    : source.StarvesWith error (getFields >>= next) :=
  fun fields => starves fields fields

/-- A reader in front does not touch the fields, so they are kept wherever the run stops. -/
theorem Source.Starves.onStream_bind {program : EStateM ε ρ α}
    {next : α → EStateM ε (κ × ρ) β}
    (first : source.Starves error program)
    (second : ∀ result, source.StarvesWith error (next result))
    : source.StarvesWith error (onStream program >>= next) := by
  intro fields cut full readers
  rcases first cut full readers with ⟨middle, count, within, ranCut, ranFull⟩
    | ⟨stopped, ranCut⟩
  · rw [bind_ok (onStream_ok ranCut fields), bind_ok (onStream_ok ranFull fields)]
    rcases second middle fields _ _ (readers.advance within) with
      ⟨result, after, more, withinMore, lastCut, lastFull⟩ | stopped
    · rw [source.unread_advance, List.length_drop] at withinMore
      rw [source.advance_advance] at lastCut lastFull
      exact Or.inl ⟨result, after, count + more, by omega, lastCut, lastFull⟩
    · exact Or.inr stopped
  · refine Or.inr ⟨stopped, bind_error ?_⟩
    simp only [onStream, ranCut]

/-- What comes after the last token cannot stop. -/
theorem Source.StarvesWith.silent_bind {program : EStateM ε (κ × ρ) α}
    {next : α → EStateM ε (κ × ρ) β}
    (first : source.StarvesWith error program) (second : ∀ result, Silent (next result))
    : source.StarvesWith error (program >>= next) := by
  intro fields cut full readers
  rcases first fields cut full readers with ⟨middle, between, count, within, ranCut, ranFull⟩
    | ⟨stopped, ranCut⟩
  · obtain ⟨result, after, ran⟩ := second middle between
    rw [bind_ok ranCut, bind_ok ranFull]
    exact Or.inl ⟨result, after, count, within, ran _, ran _⟩
  · exact Or.inr ⟨stopped, bind_error ranCut⟩

theorem Source.StarvesWith.onFirst {program : EStateM ε (κ × ρ) α}
    (starves : source.StarvesWith error program)
    : source.StarvesWith (κ := κ × κ') error (TokenStreams.onFirst program) := by
  rintro ⟨first, second⟩ cut full readers
  rcases starves first cut full readers with ⟨result, after, count, within, ranCut, ranFull⟩
    | ⟨stopped, ranCut⟩
  · simp only [TokenStreams.onFirst, ranCut, ranFull]
    exact Or.inl ⟨result, (after, second), count, within, rfl, rfl⟩
  · exact Or.inr ⟨stopped, by simp only [TokenStreams.onFirst, ranCut]⟩

theorem Source.StarvesWith.onSecond {program : EStateM ε (κ' × ρ) α}
    (starves : source.StarvesWith error program)
    : source.StarvesWith (κ := κ × κ') error (TokenStreams.onSecond program) := by
  rintro ⟨first, second⟩ cut full readers
  rcases starves second cut full readers with ⟨result, after, count, within, ranCut, ranFull⟩
    | ⟨stopped, ranCut⟩
  · simp only [TokenStreams.onSecond, ranCut, ranFull]
    exact Or.inl ⟨result, (first, after), count, within, rfl, rfl⟩
  · exact Or.inr ⟨stopped, by simp only [TokenStreams.onSecond, ranCut]⟩

/-- A run of calls begins with its first call. -/
theorem mapM_cons_ok {σ : Type} {program : ο → EStateM ε σ α} {call : ο} {rest : List ο}
    {state between after : σ} {result : α} {results : List α}
    (first : program call state = .ok result between)
    (others : rest.mapM program between = .ok results after)
    : (call :: rest).mapM program state = .ok (result :: results) after := by
  rw [List.mapM_cons, bind_ok first, bind_ok others]
  rfl

/-- A run of calls on a cut stream completes like the one on the full stream, or some call
stops: the calls before it return the same results and leave the same fields on both streams,
and the call keeps these fields. By induction on the calls.
-/
theorem Source.StarvesWith.mapM {program : ο → EStateM ε (κ × ρ) α}
    (starves : ∀ call, source.StarvesWith error (program call)) (calls : List ο) (fields : κ)
    {cut full : ρ} (readers : source.Cut cut full)
    : (∃ results after count,
          count ≤ (source.unread cut).length
          ∧ calls.mapM program (fields, cut) = .ok results (after, source.advance cut count)
          ∧ calls.mapM program (fields, full) = .ok results (after, source.advance full count))
      ∨ ∃ before call later results kept stoppedAt fullAt after,
          calls = before ++ call :: later
          ∧ before.mapM program (fields, cut) = .ok results (kept, stoppedAt)
          ∧ before.mapM program (fields, full) = .ok results (kept, fullAt)
          ∧ program call (kept, stoppedAt) = .error error (kept, after) := by
  induction calls generalizing fields cut full with
  | nil =>
      refine Or.inl ⟨[], fields, 0, Nat.zero_le _, ?_, ?_⟩
      · rw [source.advance_zero]
        rfl
      · rw [source.advance_zero]
        rfl
  | cons call rest ih =>
      rcases starves call fields cut full readers with
        ⟨result, between, count, within, ranCut, ranFull⟩ | ⟨stopped, ranCut⟩
      · rcases ih between (readers.advance within) with
          ⟨results, after, more, withinMore, restCut, restFull⟩
          | ⟨before, stopping, later, results, kept, stoppedAt, fullAt, after, rfl, restCut,
            restFull, stops⟩
        · rw [source.unread_advance, List.length_drop] at withinMore
          rw [source.advance_advance] at restCut restFull
          exact Or.inl ⟨result :: results, after, count + more, by omega,
            mapM_cons_ok ranCut restCut, mapM_cons_ok ranFull restFull⟩
        · exact Or.inr ⟨call :: before, stopping, later, result :: results, kept, stoppedAt,
            fullAt, after, rfl, mapM_cons_ok ranCut restCut, mapM_cons_ok ranFull restFull,
            stops⟩
      · exact Or.inr ⟨[], call, rest, [], fields, cut, full, stopped, rfl, rfl, rfl, ranCut⟩

/-- A run of calls stops where one of them does. -/
theorem mapM_stops {σ : Type} {program : ο → EStateM ε σ α} {before later : List ο} {call : ο}
    {state between after : σ} {results : List α}
    (ran : before.mapM program state = .ok results between)
    (stops : program call between = .error error after)
    : (before ++ call :: later).mapM program state = .error error after := by
  rw [List.mapM_append, bind_ok ran, List.mapM_cons]
  exact bind_error (bind_error stops)

end Foundations.TokenStreams
