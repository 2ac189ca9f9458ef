import GorillaTsdb.Foundations.EventHistories
import GorillaTsdb.Foundations.ExactReaders

/-! Programs with overflow checks, next to the same programs without them.
A failed check is a panic. Wherever no check fails, both programs do the same, so a condition
for being safe can be computed along the program without checks.
-/

namespace Foundations.CheckedPrograms

open Foundations.EventHistories
open Foundations.TokenStreams

/-- How a program with checks fails: with an error that it returns, or with a panic. -/
inductive Fault (ε : Type) where
  | returned (error : ε)
  | panicked
  deriving DecidableEq, Repr

variable {ε σ α β κ κ' ρ τ ι : Type}

/-- A result that may only be used if its check holds. -/
def checked (check : Prop) [Decidable check] (result : α) : EStateM (Fault ε) σ α :=
  fun state => if check then .ok result state else .error .panicked state

/-- A program without checks. -/
def unchecked (program : EStateM ε σ α) : EStateM (Fault ε) σ α := fun state =>
  match program state with
  | .ok result state => .ok result state
  | .error error state => .error (.returned error) state

def Panics (program : EStateM (Fault ε) σ α) (state : σ) : Prop :=
  ∃ after, program state = .error .panicked after

/-- The state that a program leaves behind, also if it fails. -/
def finalState : EStateM.Result ε σ α → σ
  | .ok _ state => state
  | .error _ state => state

theorem get_bind {next : σ → EStateM ε σ β} (state : σ)
    : (get >>= next) state = next state state :=
  rfl

theorem bind_eq_match (program : EStateM ε σ α) (next : α → EStateM ε σ β) (state : σ)
    : (program >>= next) state
      = match program state with
        | .error error after => .error error after
        | .ok result after => next result after := by
  cases ran : program state with
  | ok result after => exact bind_ok ran
  | error error after => exact bind_error ran

theorem unchecked_ok {plain : EStateM ε σ α} {state after : σ} {result : α}
    (ran : plain state = .ok result after)
    : unchecked plain state = .ok result after := by
  simp only [unchecked, ran]

theorem unchecked_error {plain : EStateM ε σ α} {state after : σ} {error : ε}
    (ran : plain state = .error error after)
    : unchecked plain state = .error (.returned error) after := by
  simp only [unchecked, ran]

theorem checked_bind {check : Prop} [Decidable check] (holds : check) {value : α}
    {next : α → EStateM (Fault ε) σ β}
    : checked check value >>= next = next value := by
  funext state
  exact bind_ok (if_pos holds)

/-- From states inside `invariant`, the program panics exactly where `safe` fails. Elsewhere it
does what the plain program does, and stays inside.
-/
structure Checks (invariant safe : σ → Prop) (program : EStateM (Fault ε) σ α)
    (plain : EStateM ε σ α)
    : Prop where
  agrees
    : ∀ {state}, invariant state → safe state → program state = unchecked plain state
  panics : ∀ {state}, invariant state → ¬ safe state → Panics program state
  keeps
    : ∀ {state}, invariant state → safe state → invariant (finalState (plain state))

/-- The checks of a program in one state, wherever it leads. -/
structure ChecksIn (state : σ) (safe : Prop) (program : EStateM (Fault ε) σ α)
    (plain : EStateM ε σ α)
    : Prop where
  agrees : safe → program state = unchecked plain state
  panics : ¬ safe → Panics program state

-----------------------------------------------------------------------------------------
-- Rules for the parts of a program
-----------------------------------------------------------------------------------------

section Rules

variable {invariant safe : σ → Prop}

theorem Checks.of_iff (safe : σ → Prop) {other : σ → Prop}
    {program : EStateM (Fault ε) σ α} {plain : EStateM ε σ α}
    (checks : Checks invariant safe program plain)
    (same : ∀ state, invariant state → (other state ↔ safe state))
    : Checks invariant other program plain where
  agrees := fun inside holds => checks.agrees inside ((same _ inside).mp holds)
  panics := fun inside fails => checks.panics inside (mt (same _ inside).mpr fails)
  keeps := fun inside holds => checks.keeps inside ((same _ inside).mp holds)

theorem Checks.pure (result : α)
    : Checks (ε := ε) invariant (fun _ => True) (Pure.pure result) (Pure.pure result) where
  agrees := fun _ _ => rfl
  panics := fun _ fails => absurd trivial fails
  keeps := fun inside _ => inside

theorem Panics.bind {program : EStateM (Fault ε) σ α} {next : α → EStateM (Fault ε) σ β}
    {state : σ} (panics : Panics program state)
    : Panics (program >>= next) state := by
  obtain ⟨after, panicked⟩ := panics
  exact ⟨after, bind_error panicked⟩

/-- After a first program that returns, only the second one can panic. -/
theorem panics_bind_iff {program : EStateM (Fault ε) σ α} {next : α → EStateM (Fault ε) σ β}
    {state after : σ} {result : α} (ran : program state = .ok result after)
    : Panics (program >>= next) state ↔ Panics (next result) after := by
  simp only [Panics, bind_ok ran]

/-- The second program has to be safe wherever the first one leads without checks. -/
theorem Checks.bind {program : EStateM (Fault ε) σ α} {plain : EStateM ε σ α}
    {next : α → EStateM (Fault ε) σ β} {plainNext : α → EStateM ε σ β}
    {safeNext : α → σ → Prop}
    (first : Checks invariant safe program plain)
    (second : ∀ result, Checks invariant (safeNext result) (next result) (plainNext result))
    : Checks invariant
        (fun state =>
          safe state
          ∧ ∀ result after, plain state = .ok result after → safeNext result after)
        (program >>= next) (plain >>= plainNext) where
  agrees := by
    intro state inside holds
    have same := first.agrees inside holds.1
    have stays := first.keeps inside holds.1
    cases ran : plain state with
    | ok result after =>
        rw [ran] at stays
        have later := (second result).agrees stays (holds.2 result after ran)
        rw [bind_ok (same.trans (unchecked_ok ran)), unchecked, bind_ok ran]
        exact later
    | error error after =>
        rw [bind_error (same.trans (unchecked_error ran)), unchecked_error (bind_error ran)]
  panics := by
    intro state inside fails
    by_cases holds : safe state
    · simp only [holds, true_and, not_forall] at fails
      obtain ⟨result, after, ran, fails⟩ := fails
      have same := first.agrees inside holds
      have stays := first.keeps inside holds
      rw [ran] at stays
      obtain ⟨last, panicked⟩ := (second result).panics stays fails
      exact ⟨last, (bind_ok (same.trans (unchecked_ok ran))).trans panicked⟩
    · exact (first.panics inside holds).bind
  keeps := by
    intro state inside holds
    have stays := first.keeps inside holds.1
    cases ran : plain state with
    | ok result after =>
        rw [ran] at stays
        rw [bind_ok ran]
        exact (second result).keeps stays (holds.2 result after ran)
    | error error after =>
        rw [ran] at stays
        rw [bind_error ran]
        exact stays

/-- A second program without failing checks adds no condition. -/
theorem Checks.bind_total {program : EStateM (Fault ε) σ α} {plain : EStateM ε σ α}
    {next : α → EStateM (Fault ε) σ β} {plainNext : α → EStateM ε σ β}
    (first : Checks invariant safe program plain)
    (second : ∀ result, Checks invariant (fun _ => True) (next result) (plainNext result))
    : Checks invariant safe (program >>= next) (plain >>= plainNext) :=
  (first.bind second).of_iff _ fun _ _ => by simp

/-- What follows a check may rely on it. -/
theorem Checks.check {check : Prop} [Decidable check] {value : α}
    {next : α → EStateM (Fault ε) σ β} {plain : EStateM ε σ β}
    (rest : check → Checks invariant safe (next value) plain)
    : Checks invariant (fun state => check ∧ safe state) (checked check value >>= next)
        plain := by
  by_cases holds : check
  · rw [checked_bind holds]
    exact (rest holds).of_iff _ fun _ _ => and_iff_right holds
  · have panics : ∀ state, Panics (checked check value : EStateM (Fault ε) σ α) state :=
      fun state => ⟨state, if_neg holds⟩
    exact {
      agrees := fun _ both => absurd both.1 holds
      panics := fun {state} _ _ => (panics state).bind
      keeps := fun _ both => absurd both.1 holds
    }

/-- A check that always holds leaves no condition. -/
theorem Checks.check_passed {check : Prop} [Decidable check] (holds : check) {value : α}
    {next : α → EStateM (Fault ε) σ β} {plain : EStateM ε σ β}
    (rest : Checks invariant safe (next value) plain)
    : Checks invariant safe (checked check value >>= next) plain := by
  rwa [checked_bind holds]

theorem Checks.check_last {check : Prop} [Decidable check] {value : α}
    : Checks (ε := ε) invariant (fun _ => check) (checked check value) (Pure.pure value) where
  agrees := fun _ holds => if_pos holds
  panics := fun {state} _ fails => ⟨state, if_neg fails⟩
  keeps := fun inside _ => inside

theorem Checks.check_last_passed {check : Prop} [Decidable check] (holds : check) {value : α}
    : Checks (ε := ε) invariant (fun _ => True) (checked check value) (Pure.pure value) :=
  Checks.check_last.of_iff _ fun _ _ => iff_of_true trivial holds

/-- A program that runs on a part of the state. -/
def zoom {ω : Type} (part : ω → σ) (update : ω → σ → ω) (program : EStateM ε σ α)
    : EStateM ε ω α :=
  fun whole =>
    match program (part whole) with
    | .ok result state => .ok result (update whole state)
    | .error error state => .error error (update whole state)

theorem Panics.zoom {ω : Type} {program : EStateM (Fault ε) σ α} {part : ω → σ}
    {update : ω → σ → ω} {whole : ω} (panics : Panics program (part whole))
    : Panics (CheckedPrograms.zoom part update program) whole := by
  obtain ⟨after, panicked⟩ := panics
  exact ⟨update whole after, by simp only [CheckedPrograms.zoom, panicked]⟩

/-- A program that runs on a part is safe where it is safe on that part. -/
theorem Checks.zoom {ω : Type} {whole : ω → Prop} {program : EStateM (Fault ε) σ α}
    {plain : EStateM ε σ α} (checks : Checks invariant safe program plain)
    (part : ω → σ) (update : ω → σ → ω)
    (enters : ∀ {state}, whole state → invariant (part state))
    (returns
      : ∀ {state inner}, whole state → invariant inner → whole (update state inner))
    : Checks whole (fun state => safe (part state))
        (CheckedPrograms.zoom part update program) (CheckedPrograms.zoom part update plain) where
  agrees := by
    intro state inside holds
    have same := checks.agrees (enters inside) holds
    cases ran : plain (part state) with
    | ok result after =>
        simp only [CheckedPrograms.zoom, unchecked, same.trans (unchecked_ok ran), ran]
    | error error after =>
        simp only [CheckedPrograms.zoom, unchecked, same.trans (unchecked_error ran), ran]
  panics := fun inside fails => (checks.panics (enters inside) fails).zoom
  keeps := by
    intro state inside holds
    have stays := returns inside (checks.keeps (enters inside) holds)
    cases ran : plain (part state) <;>
      simpa only [CheckedPrograms.zoom, ran, finalState] using stays

theorem Checks.ite {choice : Prop} [Decidable choice] {other : σ → Prop}
    {program program' : EStateM (Fault ε) σ α} {plain plain' : EStateM ε σ α}
    (yes : choice → Checks invariant safe program plain)
    (no : ¬ choice → Checks invariant other program' plain')
    : Checks invariant (fun state => if choice then safe state else other state)
        (if choice then program else program') (if choice then plain else plain') := by
  split
  · next holds => exact yes holds
  · next fails => exact no fails

end Rules

-----------------------------------------------------------------------------------------
-- Rules for one state
-----------------------------------------------------------------------------------------

theorem Checks.of_states {invariant safe : σ → Prop} {program : EStateM (Fault ε) σ α}
    {plain : EStateM ε σ α}
    (checks : ∀ {state}, invariant state → ChecksIn state (safe state) program plain)
    (keeps : ∀ {state}, invariant state → invariant (finalState (plain state)))
    : Checks invariant safe program plain where
  agrees := fun inside holds => (checks inside).agrees holds
  panics := fun inside fails => (checks inside).panics fails
  keeps := fun inside _ => keeps inside

theorem ChecksIn.of_iff {state : σ} {safe other : Prop} {program : EStateM (Fault ε) σ α}
    {plain : EStateM ε σ α} (checks : ChecksIn state safe program plain) (same : other ↔ safe)
    : ChecksIn state other program plain :=
  ⟨fun holds => checks.agrees (same.mp holds), fun fails => checks.panics (mt same.mpr fails)⟩

theorem ChecksIn.unchecked (state : σ) (plain : EStateM ε σ α)
    : ChecksIn state True (CheckedPrograms.unchecked plain) plain :=
  ⟨fun _ => rfl, fun fails => absurd trivial fails⟩

/-- Programs are checked in a state as those are that do the same there. -/
theorem ChecksIn.congr {state : σ} {safe : Prop} {program program' : EStateM (Fault ε) σ α}
    {plain plain' : EStateM ε σ α} (checks : ChecksIn state safe program' plain')
    (same : program state = program' state) (plainSame : plain state = plain' state)
    : ChecksIn state safe program plain where
  agrees := by
    intro holds
    rw [same, checks.agrees holds, CheckedPrograms.unchecked, CheckedPrograms.unchecked, plainSame]
  panics := by
    intro fails
    obtain ⟨after, panicked⟩ := checks.panics fails
    exact ⟨after, same.trans panicked⟩

theorem ChecksIn.check {check : Prop} [Decidable check] {value : α} {state : σ}
    (plain : α → EStateM ε σ β)
    : ChecksIn state check (checked check value >>= fun result => CheckedPrograms.unchecked
        (plain result)) (plain value) where
  agrees := fun holds => by rw [checked_bind holds]
  panics := fun fails =>
    ⟨state, bind_error (if_neg fails)⟩

/-- A program that returns without checks, before another one. -/
theorem ChecksIn.bind {state after : σ} {safe safeNext : Prop} {result : α}
    {program : EStateM (Fault ε) σ α} {plain : EStateM ε σ α}
    {next : α → EStateM (Fault ε) σ β} {plainNext : α → EStateM ε σ β}
    (first : ChecksIn state safe program plain) (returns : plain state = .ok result after)
    (second : ChecksIn after safeNext (next result) (plainNext result))
    : ChecksIn state (safe ∧ safeNext) (program >>= next) (plain >>= plainNext) where
  agrees := by
    rintro ⟨holds, holdsNext⟩
    have ran := (first.agrees holds).trans (unchecked_ok returns)
    rw [bind_ok ran, second.agrees holdsNext, CheckedPrograms.unchecked, CheckedPrograms.unchecked,
      bind_ok returns]
  panics := by
    intro fails
    by_cases holds : safe
    · have ran := (first.agrees holds).trans (unchecked_ok returns)
      exact (panics_bind_iff ran).mpr (second.panics fun later => fails ⟨holds, later⟩)
    · exact (first.panics holds).bind

theorem ChecksIn.zoom {ω : Type} (part : ω → σ) (update : ω → σ → ω) {whole : ω} {safe : Prop}
    {program : EStateM (Fault ε) σ α} {plain : EStateM ε σ α}
    (checks : ChecksIn (part whole) safe program plain)
    : ChecksIn whole safe (CheckedPrograms.zoom part update program)
        (CheckedPrograms.zoom part update plain) where
  agrees := by
    intro holds
    have same := checks.agrees holds
    cases ran : plain (part whole) with
    | ok result after =>
        simp only [CheckedPrograms.zoom, CheckedPrograms.unchecked, same.trans (unchecked_ok ran),
          ran]
    | error error after =>
        simp only [CheckedPrograms.zoom, CheckedPrograms.unchecked,
          same.trans (unchecked_error ran), ran]
  panics := fun fails => (checks.panics fails).zoom

-----------------------------------------------------------------------------------------
-- Rules for programs with private fields
-----------------------------------------------------------------------------------------

section Fields

/-- An invariant of the private fields next to one of the stream. -/
def Within (inside : κ → Prop) (intact : ρ → Prop) (state : κ × ρ) : Prop :=
  inside state.1 ∧ intact state.2

/-- A condition on the private fields and the unread tokens. -/
def OnUnread (source : Source ρ τ) (condition : κ → List τ → Prop) (state : κ × ρ) : Prop :=
  condition state.1 (source.unread state.2)

variable {inside : κ → Prop} {intact : ρ → Prop} {source : Source ρ τ}

theorem Panics.fields {next : κ → EStateM (Fault ε) (κ × ρ) α} {state : κ × ρ}
    (panics : Panics (next state.1) state)
    : Panics (getFields >>= next) state :=
  panics

theorem Panics.onStream {program : EStateM (Fault ε) ρ α} {state : κ × ρ}
    (panics : Panics program state.2)
    : Panics (TokenStreams.onStream program) state := by
  obtain ⟨after, panicked⟩ := panics
  exact ⟨(state.1, after), by simp only [TokenStreams.onStream, panicked]⟩

theorem Panics.onFirst {program : EStateM (Fault ε) (κ × ρ) α} {first : κ} {stream : ρ}
    (panics : Panics program (first, stream)) (second : κ')
    : Panics (TokenStreams.onFirst program) ((first, second), stream) := by
  obtain ⟨after, panicked⟩ := panics
  exact ⟨((after.1, second), after.2), by simp only [TokenStreams.onFirst, panicked]⟩

theorem Checks.onStream {safe : ρ → Prop} {program : EStateM (Fault ε) ρ α}
    {plain : EStateM ε ρ α} (checks : Checks intact safe program plain)
    : Checks (Within inside intact) (fun state => safe state.2)
        (TokenStreams.onStream program) (TokenStreams.onStream plain) :=
  checks.zoom Prod.snd (fun state stream => (state.1, stream)) And.right
    fun both stays => ⟨both.1, stays⟩

/-- After a reader without failing checks, the rest has to be safe for every item that the
unread tokens may begin with.
-/
theorem Checks.parse {program : EStateM (Fault ε) ρ α} {plain : EStateM ε ρ α}
    {next : α → EStateM (Fault ε) (κ × ρ) β} {plainNext : α → EStateM ε (κ × ρ) β}
    {code : ι → List τ} {value : ι → α} (safe : α → κ → List τ → Prop)
    (first : Checks intact (fun _ => True) program plain)
    (parses : source.Parses plain code value)
    (second
      : ∀ result,
          Checks (Within inside intact) (OnUnread source (safe result)) (next result)
            (plainNext result))
    : Checks (Within inside intact)
        (OnUnread source fun fields tokens =>
          ∀ item rest, tokens = code item ++ rest → safe (value item) fields rest)
        (TokenStreams.onStream program >>= next)
        (TokenStreams.onStream plain >>= plainNext) := by
  refine (first.onStream.bind second).of_iff _ fun state _ => ?_
  have items := parses.forall_ok_iff state.2 fun result after =>
    safe result state.1 (source.unread after)
  have results
      : (∀ result after,
            TokenStreams.onStream plain state = .ok result after
            → OnUnread source (safe result) after)
        ↔ ∀ result after,
            plain state.2 = .ok result after → safe result state.1 (source.unread after) := by
    simp only [TokenStreams.onStream]
    cases ran : plain state.2 <;> simp [OnUnread]
  simp only [true_and, results, items, source.unread_advance]
  refine forall_congr' fun item => forall_congr' fun rest => forall_congr' fun unread => ?_
  rw [unread, List.drop_left]

/-- What follows may use that the fields are inside their invariant. -/
theorem Checks.fields {condition : κ → List τ → Prop}
    {next : κ → EStateM (Fault ε) (κ × ρ) α} {plain : κ → EStateM ε (κ × ρ) α}
    (rest
      : ∀ {fields},
          inside fields
          → Checks (Within inside intact) (OnUnread source fun _ tokens => condition fields tokens)
              (next fields) (plain fields))
    : Checks (Within inside intact) (OnUnread source condition) (getFields >>= next)
        (getFields >>= plain) where
  agrees := fun both holds => (rest both.1).agrees both holds
  panics := fun both fails => (rest both.1).panics both fails
  keeps := fun both holds => (rest both.1).keeps both holds

theorem Checks.setFields {fields : κ} (holds : inside fields)
    : Checks (ε := ε) (Within inside intact) (fun _ => True)
        (TokenStreams.setFields fields) (TokenStreams.setFields fields) where
  agrees := fun _ _ => rfl
  panics := fun _ fails => absurd trivial fails
  keeps := fun both _ => ⟨holds, both.2⟩

/-- An assignment before the check that makes it admissible. -/
theorem Checks.setFields_check {fields : κ} {check : Prop} [Decidable check] {value : α}
    (holds : check → inside fields)
    : Checks (ε := ε) (Within inside intact) (fun _ => check)
        (TokenStreams.setFields fields >>= fun _ => checked check value)
        (TokenStreams.setFields fields >>= fun _ => Pure.pure value) where
  agrees := by
    intro state _ passes
    exact (bind_ok rfl).trans (if_pos passes)
  panics := by
    intro state _ fails
    exact ⟨(fields, state.2), (bind_ok rfl).trans (if_neg fails)⟩
  keeps := fun both passes => ⟨holds passes, both.2⟩

theorem onFirst_eq_zoom {φ : Type} (program : EStateM φ (κ × ρ) α)
    : TokenStreams.onFirst program
      = zoom (fun state : (κ × κ') × ρ => (state.1.1, state.2))
          (fun state inner => ((inner.1, state.1.2), inner.2)) program := by
  funext ⟨⟨first, second⟩, stream⟩
  simp only [TokenStreams.onFirst, zoom]
  cases program (first, stream) <;> rfl

theorem onSecond_eq_zoom {φ : Type} (program : EStateM φ (κ × ρ) α)
    : TokenStreams.onSecond program
      = zoom (fun state : (κ' × κ) × ρ => (state.1.2, state.2))
          (fun state inner => ((state.1.1, inner.1), inner.2)) program := by
  funext ⟨⟨first, second⟩, stream⟩
  simp only [TokenStreams.onSecond, zoom]
  cases program (second, stream) <;> rfl

/-- The first of two programs with private fields leaves those of the second one alone. -/
theorem Checks.onFirst (others : κ' → Prop) {safe : κ × ρ → Prop}
    {program : EStateM (Fault ε) (κ × ρ) α} {plain : EStateM ε (κ × ρ) α}
    (checks : Checks (Within inside intact) safe program plain)
    : Checks (Within (fun fields : κ × κ' => inside fields.1 ∧ others fields.2) intact)
        (fun state => safe (state.1.1, state.2))
        (TokenStreams.onFirst program) (TokenStreams.onFirst plain) := by
  rw [onFirst_eq_zoom, onFirst_eq_zoom]
  refine checks.zoom _ _ ?_ ?_
  · exact fun all => ⟨all.1.1, all.2⟩
  · exact fun all stays => ⟨⟨stays.1, all.1.2⟩, stays.2⟩

theorem Checks.onSecond (others : κ' → Prop) {safe : κ × ρ → Prop}
    {program : EStateM (Fault ε) (κ × ρ) α} {plain : EStateM ε (κ × ρ) α}
    (checks : Checks (Within inside intact) safe program plain)
    : Checks (Within (fun fields : κ' × κ => others fields.1 ∧ inside fields.2) intact)
        (fun state => safe (state.1.2, state.2))
        (TokenStreams.onSecond program) (TokenStreams.onSecond plain) := by
  rw [onSecond_eq_zoom, onSecond_eq_zoom]
  refine checks.zoom _ _ ?_ ?_
  · exact fun all => ⟨all.1.2, all.2⟩
  · exact fun all stays => ⟨⟨all.1.1, stays.1⟩, stays.2⟩

end Fields

-----------------------------------------------------------------------------------------
-- Runs of calls
-----------------------------------------------------------------------------------------

section Runs

variable {ο : Type} {invariant : σ → Prop} {safe : ο → σ → Prop}
  {program : ο → EStateM (Fault ε) σ α} {plain : ο → EStateM ε σ α}

/-- One call, as a step of a run. -/
def callStep {φ : Type} (program : ο → EStateM φ σ α) (state : σ) (operation : ο)
    : Except φ α × σ :=
  outcome (program operation state)

/-- A safe call does what the plain one does. -/
theorem callStep_of_safe {operation : ο}
    (checks : Checks invariant (safe operation) (program operation) (plain operation))
    {state : σ} (inside : invariant state) (holds : safe operation state)
    : callStep program state operation
      = ((callStep plain state operation).1.mapError Fault.returned,
          (callStep plain state operation).2) := by
  rw [callStep, checks.agrees inside holds, callStep, unchecked]
  cases plain operation state <;> rfl

theorem callStep_keeps {operation : ο}
    (checks : Checks invariant (safe operation) (program operation) (plain operation))
    {state : σ} (inside : invariant state) (holds : safe operation state)
    : invariant (callStep program state operation).2 := by
  have stays := checks.keeps inside holds
  rw [callStep_of_safe checks inside holds, callStep]
  cases ran : plain operation state <;> rwa [ran] at stays

/-- No call of a run panics exactly if every call is safe in the state before it, by induction
on the calls.
-/
theorem panic_free_iff
    (checks : ∀ operation,
      Checks invariant (safe operation) (program operation) (plain operation))
    {state : σ} (inside : invariant state) (operations : List ο)
    : (∀ event ∈ history (callStep program) state operations, event.2 ≠ .error .panicked)
      ↔ AllSteps (callStep program) (fun state operation => safe operation state) state
          operations := by
  induction operations generalizing state with
  | nil => exact iff_of_true (List.forall_mem_nil _) trivial
  | cons operation rest ih =>
      rw [history, List.forall_mem_cons, AllSteps]
      by_cases holds : safe operation state
      · have returned : (callStep program state operation).1 ≠ .error .panicked := by
          rw [callStep_of_safe (checks operation) inside holds]
          cases (callStep plain state operation).1 <;> simp [Except.mapError]
        rw [ih (callStep_keeps (checks operation) inside holds)]
        exact and_congr_left fun _ => iff_of_true returned holds
      · obtain ⟨after, panicked⟩ := (checks operation).panics inside holds
        refine iff_of_false (fun both => both.1 ?_) fun both => holds both.1
        rw [callStep, panicked, outcome]

/-- The calls of a run are safe with checks exactly if they are without, by induction on them:
up to the first unsafe call both runs are the same.
-/
theorem allSteps_unchecked_iff
    (checks : ∀ operation,
      Checks invariant (safe operation) (program operation) (plain operation))
    {state : σ} (inside : invariant state) (operations : List ο)
    : AllSteps (callStep program) (fun state operation => safe operation state) state operations
      ↔ AllSteps (callStep plain) (fun state operation => safe operation state) state
          operations := by
  induction operations generalizing state with
  | nil => exact Iff.rfl
  | cons operation rest ih =>
      refine and_congr_right fun holds => ?_
      rw [ih (callStep_keeps (checks operation) inside holds),
        callStep_of_safe (checks operation) inside holds]

/-- A run of safe calls is the run without checks, by induction on the calls. -/
theorem history_of_safe
    (checks : ∀ operation,
      Checks invariant (safe operation) (program operation) (plain operation))
    {state : σ} (inside : invariant state) {operations : List ο}
    (steps
      : AllSteps (callStep program) (fun state operation => safe operation state) state
          operations)
    : history (callStep program) state operations
        = (history (callStep plain) state operations).map
            (Prod.map id (Except.mapError Fault.returned))
      ∧ after (callStep program) state operations = after (callStep plain) state operations := by
  induction operations generalizing state with
  | nil => exact ⟨rfl, rfl⟩
  | cons operation rest ih =>
      have same := callStep_of_safe (checks operation) inside steps.1
      obtain ⟨events, ends⟩ := ih (callStep_keeps (checks operation) inside steps.1) steps.2
      rw [same] at events ends
      rw [history, history, after, after, same, events]
      exact ⟨rfl, ends⟩

end Runs

end Foundations.CheckedPrograms
