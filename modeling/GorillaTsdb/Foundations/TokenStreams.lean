import Mathlib.Data.List.Basic

/-! Rules for programs that read tokens from a stream or append tokens to one.
A reader is any state with a view of its unread tokens; a writer is any state that can
append tokens. Programs keep their state when they fail, so they are `EStateM` actions.
A codec pairs its private fields with the stream it works on.
-/

namespace Foundations.TokenStreams

/-- A reader state seen through the tokens it has not read yet. -/
structure Source (ρ τ : Type) where
  unread : ρ → List τ
  advance : ρ → Nat → ρ
  unread_advance : ∀ reader count, unread (advance reader count) = (unread reader).drop count
  advance_zero : ∀ reader, advance reader 0 = reader
  advance_advance
    : ∀ reader first second,
        advance (advance reader first) second = advance reader (first + second)

/-- A writer state that can append tokens. -/
structure Sink (ω τ : Type) where
  push : ω → List τ → ω
  push_nil : ∀ writer, push writer [] = writer
  push_append : ∀ writer left right, push (push writer left) right = push writer (left ++ right)

/-- A program on the stream, run next to private fields that it does not touch. -/
def onStream {ε σ κ α : Type} (program : EStateM ε σ α) : EStateM ε (κ × σ) α :=
  fun (fields, stream) =>
    match program stream with
    | .ok result stream => .ok result (fields, stream)
    | .error error stream => .error error (fields, stream)

/-- The private fields. -/
def getFields {ε σ κ : Type} : EStateM ε (κ × σ) κ :=
  fun (fields, stream) => .ok fields (fields, stream)

/-- An assignment to the private fields. -/
def setFields {ε σ κ : Type} (fields : κ) : EStateM ε (κ × σ) Unit :=
  fun (_, stream) => .ok () (fields, stream)

section Sequencing

variable {ε σ α β : Type} {program : EStateM ε σ α} {next : α → EStateM ε σ β}
  {state after : σ}

/-- A sequence goes on where its first program returned. -/
theorem bind_ok {result : α} (ran : program state = .ok result after)
    : (program >>= next) state = next result after := by
  change EStateM.bind program next state = _
  simp only [EStateM.bind, ran]

theorem bind_error {error : ε} (ran : program state = .error error after)
    : (program >>= next) state = .error error after := by
  change EStateM.bind program next state = _
  simp only [EStateM.bind, ran]

/-- A sequence returns exactly if both of its programs do. -/
theorem bind_eq_ok {result : β}
    : (program >>= next) state = .ok result after
      ↔ ∃ middle between,
          program state = .ok middle between ∧ next middle between = .ok result after := by
  cases ran : program state with
  | ok middle between =>
      rw [bind_ok ran]
      exact ⟨fun last => ⟨middle, between, rfl, last⟩, fun both => by
        obtain ⟨_, _, same, last⟩ := both
        cases same
        exact last⟩
  | error error between => simp [bind_error ran]

end Sequencing

section Reading

variable {ε ρ τ κ α β : Type} {source : Source ρ τ}

/-- From any reader whose unread tokens begin with `tokens`, the program succeeds with
`result` and consumes exactly `tokens`.
-/
def Source.Reads (source : Source ρ τ) (program : EStateM ε ρ α) (tokens : List τ)
    (result : α)
    : Prop :=
  ∀ reader rest,
    source.unread reader = tokens ++ rest
    → program reader = .ok result (source.advance reader tokens.length)

/-- Behind the tokens at its front a reader sees the others. -/
theorem Source.unread_behind {reader : ρ} {tokens rest : List τ}
    (unread : source.unread reader = tokens ++ rest)
    : source.unread (source.advance reader tokens.length) = rest := by
  rw [source.unread_advance, unread, List.drop_left]

/-- Returning a value reads nothing. -/
theorem Source.Reads.pure (source : Source ρ τ) (result : α)
    : source.Reads (ε := ε) (Pure.pure result) [] result := by
  intro reader rest _
  exact congrArg (EStateM.Result.ok result) (source.advance_zero reader).symm

/-- Sequenced readers consume the concatenation of their tokens. -/
theorem Source.Reads.bind {program : EStateM ε ρ α} {next : α → EStateM ε ρ β}
    {left right : List τ} {middle : α} {result : β}
    (first : source.Reads program left middle)
    (second : source.Reads (next middle) right result)
    : source.Reads (program >>= next) (left ++ right) result := by
  intro reader rest unread
  rw [List.append_assoc] at unread
  have ran := first reader (right ++ rest) unread
  have remaining := source.unread_behind unread
  rw [bind_ok ran, second _ rest remaining, source.advance_advance, List.length_append]

/-- A program that only computes its result from what it read consumes no more tokens. -/
theorem Source.Reads.returns {program : EStateM ε ρ α} {next : α → EStateM ε ρ β}
    {tokens : List τ} {middle : α} {result : β}
    (first : source.Reads program tokens middle)
    (last : next middle = Pure.pure result)
    : source.Reads (program >>= next) tokens result := by
  have whole := first.bind (last ▸ Source.Reads.pure source result)
  rwa [List.append_nil] at whole

/-- A run of readers consumes all of their tokens, by induction on the calls. -/
theorem Source.Reads.mapM {ο : Type} {program : ο → EStateM ε ρ α} {code : ο → List τ}
    {value : ο → α} {calls : List ο}
    (reads : ∀ call ∈ calls, source.Reads (program call) (code call) (value call))
    : source.Reads (calls.mapM program) (calls.flatMap code) (calls.map value) := by
  induction calls with
  | nil => exact .pure source []
  | cons call rest ih =>
      obtain ⟨first, others⟩ := List.forall_mem_cons.mp reads
      rw [List.mapM_cons]
      exact first.bind ((ih others).returns rfl)

/-- `Reads` for a program with private fields, which it takes from `before` to `after`. -/
def Source.ReadsWith (source : Source ρ τ) (program : EStateM ε (κ × ρ) α) (before : κ)
    (tokens : List τ) (result : α) (after : κ)
    : Prop :=
  ∀ reader rest,
    source.unread reader = tokens ++ rest
    → program (before, reader) = .ok result (after, source.advance reader tokens.length)

theorem onStream_ok {program : EStateM ε ρ α} {reader after : ρ} {result : α}
    (ran : program reader = .ok result after) (fields : κ)
    : onStream program (fields, reader) = .ok result (fields, after) := by
  simp only [onStream, ran]

theorem Source.Reads.onStream {program : EStateM ε ρ α} {tokens : List τ} {result : α}
    (reads : source.Reads program tokens result) (fields : κ)
    : source.ReadsWith (TokenStreams.onStream program) fields tokens result fields := by
  intro reader rest unread
  simp only [TokenStreams.onStream, reads reader rest unread]

/-- Looking at the private fields reads nothing. -/
theorem Source.ReadsWith.fields {next : κ → EStateM ε (κ × ρ) β} {tokens : List τ}
    {result : β} {before after : κ}
    (reads : source.ReadsWith (next before) before tokens result after)
    : source.ReadsWith (getFields >>= next) before tokens result after :=
  reads

theorem Source.readsWith_setFields (source : Source ρ τ) (before after : κ)
    : source.ReadsWith (ε := ε) (setFields after) before [] () after := by
  intro reader rest _
  simp only [setFields, List.length_nil, source.advance_zero]

theorem Source.ReadsWith.pure (source : Source ρ τ) (fields : κ) (result : α)
    : source.ReadsWith (ε := ε) (Pure.pure result) fields [] result fields := by
  intro reader rest _
  exact congrArg (fun reader => EStateM.Result.ok result (fields, reader))
    (source.advance_zero reader).symm

/-- Sequenced programs consume the concatenation of their tokens and pass their fields on. -/
theorem Source.ReadsWith.bind {program : EStateM ε (κ × ρ) α}
    {next : α → EStateM ε (κ × ρ) β} {left right : List τ} {middle : α} {result : β}
    {before between after : κ}
    (first : source.ReadsWith program before left middle between)
    (second : source.ReadsWith (next middle) between right result after)
    : source.ReadsWith (program >>= next) before (left ++ right) result after := by
  intro reader rest unread
  rw [List.append_assoc] at unread
  have ran := first reader (right ++ rest) unread
  have remaining := source.unread_behind unread
  rw [bind_ok ran, second _ rest remaining, source.advance_advance, List.length_append]

/-- A last program that reads nothing leaves the tokens of the first one. -/
theorem Source.ReadsWith.silent {program : EStateM ε (κ × ρ) α}
    {next : α → EStateM ε (κ × ρ) β} {tokens : List τ} {middle : α} {result : β}
    {before between after : κ}
    (first : source.ReadsWith program before tokens middle between)
    (second : source.ReadsWith (next middle) between [] result after)
    : source.ReadsWith (program >>= next) before tokens result after := by
  have whole := first.bind second
  rwa [List.append_nil] at whole

end Reading

section Writing

variable {ε ω τ κ α β : Type} {sink : Sink ω τ}

/-- From any writer, the program succeeds and appends exactly `tokens`. -/
def Sink.Emits (sink : Sink ω τ) (program : EStateM ε ω Unit) (tokens : List τ) : Prop :=
  ∀ writer, program writer = .ok () (sink.push writer tokens)

/-- Doing nothing appends nothing. -/
theorem Sink.Emits.pure (sink : Sink ω τ) : sink.Emits (ε := ε) (Pure.pure ()) [] := by
  intro writer
  exact congrArg (EStateM.Result.ok ()) (sink.push_nil writer).symm

/-- Sequenced writers append the concatenation of their tokens. -/
theorem Sink.Emits.bind {program : EStateM ε ω Unit} {next : Unit → EStateM ε ω Unit}
    {left right : List τ}
    (first : sink.Emits program left) (second : sink.Emits (next ()) right)
    : sink.Emits (program >>= next) (left ++ right) := by
  intro writer
  rw [bind_ok (first writer), second, sink.push_append]

/-- A run of writers appends all of their tokens, by induction on the calls. -/
theorem Sink.Emits.forM {program : α → EStateM ε ω Unit} {code : α → List τ} {calls : List α}
    (emits : ∀ call ∈ calls, sink.Emits (program call) (code call))
    : sink.Emits (ForM.forM calls program) (calls.flatMap code) := by
  induction calls with
  | nil => exact .pure sink
  | cons call rest ih =>
      obtain ⟨first, others⟩ := List.forall_mem_cons.mp emits
      rw [List.forM_cons]
      exact first.bind (ih others)

/-- `Emits` for a program with private fields, which it takes from `before` to `after`. -/
def Sink.EmitsWith (sink : Sink ω τ) (program : EStateM ε (κ × ω) α) (before : κ)
    (tokens : List τ) (result : α) (after : κ)
    : Prop :=
  ∀ writer, program (before, writer) = .ok result (after, sink.push writer tokens)

theorem Sink.Emits.onStream {program : EStateM ε ω Unit} {tokens : List τ}
    (emits : sink.Emits program tokens) (fields : κ)
    : sink.EmitsWith (TokenStreams.onStream program) fields tokens () fields := by
  intro writer
  simp only [TokenStreams.onStream, emits writer]

/-- Looking at the private fields writes nothing. -/
theorem Sink.EmitsWith.fields {next : κ → EStateM ε (κ × ω) β} {tokens : List τ}
    {result : β} {before after : κ}
    (emits : sink.EmitsWith (next before) before tokens result after)
    : sink.EmitsWith (getFields >>= next) before tokens result after :=
  emits

theorem Sink.emitsWith_setFields (sink : Sink ω τ) (before after : κ)
    : sink.EmitsWith (ε := ε) (setFields after) before [] () after := by
  intro writer
  simp only [setFields, sink.push_nil]

/-- Sequenced programs append the concatenation of their tokens and pass their fields on. -/
theorem Sink.EmitsWith.bind {program : EStateM ε (κ × ω) α}
    {next : α → EStateM ε (κ × ω) β} {left right : List τ} {middle : α} {result : β}
    {before between after : κ}
    (first : sink.EmitsWith program before left middle between)
    (second : sink.EmitsWith (next middle) between right result after)
    : sink.EmitsWith (program >>= next) before (left ++ right) result after := by
  intro writer
  rw [bind_ok (first writer), second, sink.push_append]

/-- A last program that writes nothing leaves the tokens of the first one. -/
theorem Sink.EmitsWith.silent {program : EStateM ε (κ × ω) α}
    {next : α → EStateM ε (κ × ω) β} {tokens : List τ} {middle : α} {result : β}
    {before between after : κ}
    (first : sink.EmitsWith program before tokens middle between)
    (second : sink.EmitsWith (next middle) between [] result after)
    : sink.EmitsWith (program >>= next) before tokens result after := by
  have whole := first.bind second
  rwa [List.append_nil] at whole

end Writing

section Runs

variable {ε ρ ω τ ι α δ κ : Type}

/-- `count` calls of one program, with the results collected in call order. -/
def repeatCall {σ : Type} (program : EStateM ε σ α) : Nat → EStateM ε σ (List α)
  | 0 => pure []
  | count + 1 => do
      let result ← program
      let results ← repeatCall program count
      pure (result :: results)

/-- The results that successive items produce from a private state. -/
def outputs (value : δ → ι → α) (next : δ → ι → δ) : δ → List ι → List α
  | _, [] => []
  | state, item :: rest => value state item :: outputs value next (next state item) rest

@[simp]
theorem length_outputs (value : δ → ι → α) (next : δ → ι → δ) (state : δ) (inputs : List ι)
    : (outputs value next state inputs).length = inputs.length := by
  induction inputs generalizing state with
  | nil => rfl
  | cons item rest ih => simp [outputs, ih]

/-- Outputs of a prefix are a prefix of the outputs, by induction on its length. -/
theorem outputs_take (value : δ → ι → α) (next : δ → ι → δ) (state : δ)
    (inputs : List ι) (count : Nat)
    : outputs value next state (inputs.take count)
      = (outputs value next state inputs).take count := by
  induction count generalizing state inputs with
  | zero => simp [outputs]
  | succ count ih =>
      cases inputs with
      | nil => simp [outputs]
      | cons item rest => simp [outputs, ih]

/-- What an item produces depends on the items before it only through the state. -/
theorem getElem_outputs (value : δ → ι → α) (next : δ → ι → δ) (state : δ) (inputs : List ι)
    {index : Nat} (formed : index < (outputs value next state inputs).length)
    (inside : index < inputs.length)
    : (outputs value next state inputs)[index]
      = value ((inputs.take index).foldl next state) inputs[index] := by
  induction inputs generalizing state index with
  | nil => exact absurd inside (Nat.not_lt_zero _)
  | cons item rest ih =>
      cases index with
      | zero => rfl
      | succ index =>
          exact ih (next state item) (Nat.lt_of_succ_lt_succ formed)
            (Nat.lt_of_succ_lt_succ inside)

/-- A projection that commutes with every step commutes with the run, by induction on the
inputs.
-/
theorem map_outputs {α' δ' ι' : Type} {value : δ → ι → α} {next : δ → ι → δ}
    {value' : δ' → ι' → α'} {next' : δ' → ι' → δ'}
    (result : α → α') (fields : δ → δ') (input : ι → ι')
    (results : ∀ state item, result (value state item) = value' (fields state) (input item))
    (states : ∀ state item, fields (next state item) = next' (fields state) (input item))
    (state : δ) (inputs : List ι)
    : (outputs value next state inputs).map result
      = outputs value' next' (fields state) (inputs.map input) := by
  induction inputs generalizing state with
  | nil => rfl
  | cons item rest ih => simp only [outputs, List.map_cons, results, ih, states]

/-- A bound on every result from an invariant of the states, by induction on the inputs. -/
theorem outputs_invariant {value : δ → ι → α} {next : δ → ι → δ}
    (invariant : δ → Prop) (admitted : ι → Prop) (bound : α → Prop)
    (step
      : ∀ {state item},
          invariant state
          → admitted item
          → bound (value state item) ∧ invariant (next state item))
    {state : δ} (inside : invariant state) {inputs : List ι}
    (inputsAdmitted : ∀ item ∈ inputs, admitted item)
    : ∀ result ∈ outputs value next state inputs, bound result := by
  induction inputs generalizing state with
  | nil => exact List.forall_mem_nil _
  | cons item rest ih =>
      obtain ⟨headAdmitted, restAdmitted⟩ := List.forall_mem_cons.mp inputsAdmitted
      obtain ⟨headBound, stillInside⟩ := step inside headAdmitted
      exact List.forall_mem_cons.mpr ⟨headBound, ih stillInside restAdmitted⟩

/-- If one step from related states agrees exactly on translated items, and then keeps the
states related, then whole runs agree exactly on translated inputs, by induction on the inputs.
-/
theorem outputs_eq_iff_map {value : δ → ι → α} {next : δ → ι → δ} (translate : ι → ι)
    (related : δ → δ → Prop)
    (agrees
      : ∀ {left right},
          related left right
          → ∀ item other, value left item = value right other ↔ other = translate item)
    (keeps
      : ∀ {left right},
          related left right
          → ∀ item, related (next left item) (next right (translate item)))
    {left right : δ} (states : related left right) (inputs others : List ι)
    : outputs value next left inputs = outputs value next right others
      ↔ others = inputs.map translate := by
  induction inputs generalizing left right others with
  | nil => cases others <;> simp [outputs]
  | cons item rest ih =>
      cases others with
      | nil => simp [outputs]
      | cons other others =>
          simp only [outputs, List.map_cons, List.cons.injEq, agrees states]
          apply and_congr_right
          rintro rfl
          exact ih (keeps states item) others

/-- From every state inside `invariant`, one call of the program decodes one item: it
consumes the item's tokens, returns its value, moves the private state and keeps it inside.
-/
structure Source.DecodesItem (source : Source ρ τ) (invariant : δ → Prop)
    (program : EStateM ε (δ × ρ) α) (code : ι → List τ) (value : δ → ι → α)
    (next : δ → ι → δ)
    : Prop where
  reads
    : ∀ {state}, invariant state
        → ∀ item, source.ReadsWith program state (code item) (value state item)
            (next state item)
  keeps : ∀ {state}, invariant state → ∀ item, invariant (next state item)

/-- Repeated calls decode a whole sequence of items, by induction on the items. -/
theorem Source.DecodesItem.repeatCall {source : Source ρ τ} {invariant : δ → Prop}
    {program : EStateM ε (δ × ρ) α} {code : ι → List τ} {value : δ → ι → α}
    {next : δ → ι → δ}
    (decodes : source.DecodesItem invariant program code value next)
    (state : δ) (inside : invariant state) (sequence : List ι)
    : source.ReadsWith (TokenStreams.repeatCall program sequence.length) state
        (sequence.flatMap code) (outputs value next state sequence)
        (sequence.foldl next state) := by
  induction sequence generalizing state with
  | nil => exact .pure source state []
  | cons item rest ih =>
      exact (decodes.reads inside item).bind
        ((ih _ (decodes.keeps inside item)).silent (.pure source _ _))

/-- From every state inside `invariant`, one call of the program encodes one input as the
tokens of its item, moves the private state and keeps it inside.
-/
structure Sink.EncodesItem (sink : Sink ω τ) (invariant : κ → Prop)
    (program : α → EStateM ε (κ × ω) Unit) (code : ι → List τ) (item : κ → α → ι)
    (next : κ → α → κ)
    : Prop where
  emits
    : ∀ {state}, invariant state
        → ∀ input, sink.EmitsWith (program input) state (code (item state input)) ()
            (next state input)
  keeps : ∀ {state}, invariant state → ∀ input, invariant (next state input)

/-- Encoding a sequence keeps the state inside, by induction on the inputs. -/
theorem Sink.EncodesItem.keeps_foldl {sink : Sink ω τ} {invariant : κ → Prop}
    {program : α → EStateM ε (κ × ω) Unit} {code : ι → List τ} {item : κ → α → ι}
    {next : κ → α → κ}
    (encodes : sink.EncodesItem invariant program code item next)
    {state : κ} (inside : invariant state) (inputs : List α)
    : invariant (inputs.foldl next state) := by
  induction inputs generalizing state with
  | nil => exact inside
  | cons input rest ih => exact ih (encodes.keeps inside input)

/-- Encoding a sequence appends the tokens of all its items, by induction on the inputs. -/
theorem Sink.EncodesItem.forM {sink : Sink ω τ} {invariant : κ → Prop}
    {program : α → EStateM ε (κ × ω) Unit} {code : ι → List τ} {item : κ → α → ι}
    {next : κ → α → κ}
    (encodes : sink.EncodesItem invariant program code item next)
    (state : κ) (inside : invariant state) (inputs : List α)
    : sink.EmitsWith (ForM.forM inputs program) state
        ((outputs item next state inputs).flatMap code) () (inputs.foldl next state) := by
  induction inputs generalizing state with
  | nil =>
      intro writer
      exact congrArg (fun writer => EStateM.Result.ok () (state, writer))
        (sink.push_nil writer).symm
  | cons input rest ih =>
      rw [List.forM_cons]
      exact (encodes.emits inside input).bind (ih _ (encodes.keeps inside input))

end Runs

section Interleaving

variable {ε ρ ω τ ι ι' α α' β γ δ δ' κ κ' : Type}

/-- A program with private fields, run next to the fields of another one. -/
def onFirst {σ : Type} (program : EStateM ε (κ × σ) α) : EStateM ε ((κ × κ') × σ) α :=
  fun ((first, second), stream) =>
    match program (first, stream) with
    | .ok result (first, stream) => .ok result ((first, second), stream)
    | .error error (first, stream) => .error error ((first, second), stream)

def onSecond {σ : Type} (program : EStateM ε (κ' × σ) α) : EStateM ε ((κ × κ') × σ) α :=
  fun ((first, second), stream) =>
    match program (second, stream) with
    | .ok result (second, stream) => .ok result ((first, second), stream)
    | .error error (second, stream) => .error error ((first, second), stream)

theorem Source.ReadsWith.onFirst {source : Source ρ τ} {program : EStateM ε (κ × ρ) α}
    {before after : κ} {tokens : List τ} {result : α}
    (reads : source.ReadsWith program before tokens result after) (second : κ')
    : source.ReadsWith (TokenStreams.onFirst program) (before, second) tokens result
        (after, second) := by
  intro reader rest unread
  simp only [TokenStreams.onFirst, reads reader rest unread]

theorem Source.ReadsWith.onSecond {source : Source ρ τ} {program : EStateM ε (κ' × ρ) α}
    {before after : κ'} {tokens : List τ} {result : α}
    (reads : source.ReadsWith program before tokens result after) (first : κ)
    : source.ReadsWith (TokenStreams.onSecond program) (first, before) tokens result
        (first, after) := by
  intro reader rest unread
  simp only [TokenStreams.onSecond, reads reader rest unread]

theorem Sink.EmitsWith.onFirst {sink : Sink ω τ} {program : EStateM ε (κ × ω) α}
    {before after : κ} {tokens : List τ} {result : α}
    (emits : sink.EmitsWith program before tokens result after) (second : κ')
    : sink.EmitsWith (TokenStreams.onFirst program) (before, second) tokens result
        (after, second) := by
  intro writer
  simp only [TokenStreams.onFirst, emits writer]

theorem Sink.EmitsWith.onSecond {sink : Sink ω τ} {program : EStateM ε (κ' × ω) α}
    {before after : κ'} {tokens : List τ} {result : α}
    (emits : sink.EmitsWith program before tokens result after) (first : κ)
    : sink.EmitsWith (TokenStreams.onSecond program) (first, before) tokens result
        (first, after) := by
  intro writer
  simp only [TokenStreams.onSecond, emits writer]

/-- Two encoders that take turns on one stream encode pairs of items. -/
theorem Sink.EncodesItem.interleave {sink : Sink ω τ}
    {first : κ → Prop} {programFirst : α → EStateM ε (κ × ω) Unit} {codeFirst : ι → List τ}
    {itemFirst : κ → α → ι} {nextFirst : κ → α → κ}
    {second : κ' → Prop} {programSecond : α' → EStateM ε (κ' × ω) Unit}
    {codeSecond : ι' → List τ} {itemSecond : κ' → α' → ι'} {nextSecond : κ' → α' → κ'}
    (left : sink.EncodesItem first programFirst codeFirst itemFirst nextFirst)
    (right : sink.EncodesItem second programSecond codeSecond itemSecond nextSecond)
    (inputFirst : γ → α) (inputSecond : γ → α')
    : sink.EncodesItem (fun state => first state.1 ∧ second state.2)
        (fun input => do
          TokenStreams.onFirst (programFirst (inputFirst input))
          TokenStreams.onSecond (programSecond (inputSecond input)))
        (fun items => codeFirst items.1 ++ codeSecond items.2)
        (fun state input =>
          (itemFirst state.1 (inputFirst input), itemSecond state.2 (inputSecond input)))
        (fun state input =>
          (nextFirst state.1 (inputFirst input), nextSecond state.2 (inputSecond input))) where
  emits := by
    rintro ⟨stateFirst, stateSecond⟩ ⟨insideFirst, insideSecond⟩ input
    exact ((left.emits insideFirst _).onFirst stateSecond).bind
      ((right.emits insideSecond _).onSecond _)
  keeps := by
    rintro state ⟨insideFirst, insideSecond⟩ input
    exact ⟨left.keeps insideFirst _, right.keeps insideSecond _⟩

/-- Two decoders that take turns on one stream decode pairs of items. -/
theorem Source.DecodesItem.interleave {source : Source ρ τ}
    {first : δ → Prop} {programFirst : EStateM ε (δ × ρ) α} {codeFirst : ι → List τ}
    {valueFirst : δ → ι → α} {nextFirst : δ → ι → δ}
    {second : δ' → Prop} {programSecond : EStateM ε (δ' × ρ) β} {codeSecond : ι' → List τ}
    {valueSecond : δ' → ι' → β} {nextSecond : δ' → ι' → δ'}
    (left : source.DecodesItem first programFirst codeFirst valueFirst nextFirst)
    (right : source.DecodesItem second programSecond codeSecond valueSecond nextSecond)
    : source.DecodesItem (fun state : δ × δ' => first state.1 ∧ second state.2)
        (do
          let resultFirst ← TokenStreams.onFirst programFirst
          let resultSecond ← TokenStreams.onSecond programSecond
          pure (resultFirst, resultSecond))
        (fun items : ι × ι' => codeFirst items.1 ++ codeSecond items.2)
        (fun state items => (valueFirst state.1 items.1, valueSecond state.2 items.2))
        (fun state items => (nextFirst state.1 items.1, nextSecond state.2 items.2)) where
  reads := by
    rintro ⟨stateFirst, stateSecond⟩ ⟨insideFirst, insideSecond⟩ items
    refine ((left.reads insideFirst _).onFirst stateSecond).bind ?_
    exact ((right.reads insideSecond _).onSecond _).silent (.pure source _ _)
  keeps := by
    rintro state ⟨insideFirst, insideSecond⟩ items
    exact ⟨left.keeps insideFirst _, right.keeps insideSecond _⟩

end Interleaving

end Foundations.TokenStreams
