import GorillaTsdb.Foundations.TokenStreams

/-! Readers that succeed on nothing but their own items.
What such a reader returns can be told from the unread tokens alone, so a statement about all of
its results is one about the items that a stream may begin with.
-/

namespace Foundations.TokenStreams

variable {ε ρ τ ι α β : Type} {source : Source ρ τ}

/-- Whatever the program succeeds on begins with tokens that are `accepted` for the result, and
exactly these are consumed.
-/
def Source.Takes (source : Source ρ τ) (program : EStateM ε ρ α)
    (accepted : List τ → α → Prop)
    : Prop :=
  ∀ reader result after,
    program reader = .ok result after
    → ∃ tokens rest,
        source.unread reader = tokens ++ rest
        ∧ after = source.advance reader tokens.length
        ∧ accepted tokens result

theorem Source.Takes.pure {accepted : List τ → α → Prop} {result : α}
    (nothing : accepted [] result)
    : source.Takes (ε := ε) (Pure.pure result) accepted := by
  intro reader _ _ ran
  cases ran
  exact ⟨[], source.unread reader, rfl, (source.advance_zero reader).symm, nothing⟩

/-- The tokens of the first program stand in front of those of the second one. -/
theorem Source.Takes.bind {program : EStateM ε ρ α} {next : α → EStateM ε ρ β}
    {first : List τ → α → Prop} {accepted : List τ → β → Prop}
    (takes : source.Takes program first)
    (continues
      : ∀ {tokens middle},
          first tokens middle
          → source.Takes (next middle) fun more result => accepted (tokens ++ more) result)
    : source.Takes (program >>= next) accepted := by
  intro reader result after ran
  obtain ⟨middle, between, read, ran⟩ := bind_eq_ok.mp ran
  obtain ⟨tokens, rest, unread, rfl, taken⟩ := takes _ _ _ read
  obtain ⟨more, rest', unread', rfl, whole⟩ := continues taken _ _ _ ran
  refine ⟨tokens ++ more, rest', ?_, ?_, whole⟩
  · rw [source.unread_behind unread] at unread'
    rw [unread, unread', List.append_assoc]
  · rw [source.advance_advance, List.length_append]

theorem Source.Takes.imp {program : EStateM ε ρ α} {first accepted : List τ → α → Prop}
    (takes : source.Takes program first)
    (weaker : ∀ {tokens result}, first tokens result → accepted tokens result)
    : source.Takes program accepted := by
  intro reader result after ran
  obtain ⟨tokens, rest, unread, same, taken⟩ := takes _ _ _ ran
  exact ⟨tokens, rest, unread, same, weaker taken⟩

/-- The program reads any item, and succeeds only if there is one to read. -/
structure Source.Parses (source : Source ρ τ) (program : EStateM ε ρ α) (code : ι → List τ)
    (value : ι → α)
    : Prop where
  reads : ∀ item, source.Reads program (code item) (value item)
  takes : source.Takes program fun tokens _ => ∃ item, tokens = code item

/-- What follows an item may rely on its value. -/
theorem Source.Parses.takes_bind {program : EStateM ε ρ α} {next : α → EStateM ε ρ β}
    {code : ι → List τ} {value : ι → α} {accepted : List τ → β → Prop}
    (parses : source.Parses program code value)
    (continues
      : ∀ item,
          source.Takes (next (value item)) fun more result => accepted (code item ++ more) result)
    : source.Takes (program >>= next) accepted := by
  have valued : source.Takes program fun tokens result =>
      ∃ item, tokens = code item ∧ result = value item := by
    intro reader result after ran
    obtain ⟨tokens, rest, unread, same, item, rfl⟩ := parses.takes reader result after ran
    cases ran.symm.trans (parses.reads item reader rest unread)
    exact ⟨_, rest, unread, same, item, rfl, rfl⟩
  refine valued.bind ?_
  intro tokens middle taken
  obtain ⟨item, rfl, rfl⟩ := taken
  exact continues item

/-- All results of a program are those of the items that the unread tokens may begin with. -/
theorem Source.Parses.forall_ok_iff {program : EStateM ε ρ α} {code : ι → List τ}
    {value : ι → α} (parses : source.Parses program code value) (reader : ρ)
    (property : α → ρ → Prop)
    : (∀ result after, program reader = .ok result after → property result after)
      ↔ ∀ item rest,
          source.unread reader = code item ++ rest
          → property (value item) (source.advance reader (code item).length) := by
  constructor
  · intro all item rest unread
    exact all _ _ (parses.reads item reader rest unread)
  · intro all result after ran
    obtain ⟨tokens, rest, unread, -, item, rfl⟩ := parses.takes _ _ _ ran
    cases ran.symm.trans (parses.reads item reader rest unread)
    exact all item rest unread

end Foundations.TokenStreams
