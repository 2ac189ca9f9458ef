import Mathlib.Data.List.Basic

/-! Codes that stay decodable inside a longer stream: no code word begins another one.
Sequences of such words can be cut apart again in only one way.
-/

namespace Foundations.PrefixCodes

variable {ι κ τ : Type}

/-- Inside `domain`, the symbol and the rest of a stream are determined by the stream. -/
def PrefixFree (code : ι → List τ) (domain : ι → Prop) : Prop :=
  ∀ first second left right,
    domain first
    → domain second
    → code first ++ left = code second ++ right
    → first = second ∧ left = right

/-- Two prefix-free words in a row form a prefix-free word, by cutting off the first one. -/
theorem PrefixFree.pair {codeLeft : ι → List τ} {codeRight : κ → List τ}
    {domainLeft : ι → Prop} {domainRight : κ → Prop}
    (leftFree : PrefixFree codeLeft domainLeft)
    (rightFree : PrefixFree codeRight domainRight)
    : PrefixFree (fun symbols : ι × κ => codeLeft symbols.1 ++ codeRight symbols.2)
        (fun symbols => domainLeft symbols.1 ∧ domainRight symbols.2) := by
  rintro ⟨firstLeft, firstRight⟩ ⟨secondLeft, secondRight⟩ left right first second same
  simp only [List.append_assoc] at same
  obtain ⟨rfl, tails⟩ := leftFree _ _ _ _ first.1 second.1 same
  obtain ⟨rfl, rest⟩ := rightFree _ _ _ _ first.2 second.2 tails
  exact ⟨rfl, rest⟩

/-- Equally long sequences of words are determined by the stream, by induction on the
sequence.
-/
theorem PrefixFree.flatMap {code : ι → List τ} {domain : ι → Prop}
    (free : PrefixFree code domain) {first second : List ι} {left right : List τ}
    (firstDomain : ∀ symbol ∈ first, domain symbol)
    (secondDomain : ∀ symbol ∈ second, domain symbol)
    (length : first.length = second.length)
    (same : first.flatMap code ++ left = second.flatMap code ++ right)
    : first = second ∧ left = right := by
  induction first generalizing second with
  | nil =>
      obtain rfl := List.length_eq_zero_iff.mp length.symm
      exact ⟨rfl, by simpa using same⟩
  | cons symbol rest ih =>
      cases second with
      | nil => simp at length
      | cons other others =>
          simp only [List.flatMap_cons, List.append_assoc] at same
          obtain ⟨rfl, tails⟩ := free _ _ _ _ (firstDomain symbol (by simp))
            (secondDomain other (by simp)) same
          obtain ⟨rfl, rest⟩ := ih
            (fun next member => firstDomain next (List.mem_cons_of_mem _ member))
            (fun next member => secondDomain next (List.mem_cons_of_mem _ member))
            (Nat.succ.inj length) tails
          exact ⟨rfl, rest⟩

/-- A proper beginning of a word that completes a sequence of words to another one is empty, by
induction on the sequence.
-/
theorem PrefixFree.take_eq_nil {code : ι → List τ} {domain : ι → Prop}
    (free : PrefixFree code domain) {first second : List ι} {symbol : ι} {count : Nat}
    (firstDomain : ∀ symbol ∈ first, domain symbol)
    (secondDomain : ∀ symbol ∈ second, domain symbol)
    (symbolDomain : domain symbol) (proper : count < (code symbol).length)
    (same : first.flatMap code ++ (code symbol).take count = second.flatMap code)
    : (code symbol).take count = [] := by
  have cut := List.take_append_drop count (code symbol)
  induction first generalizing second with
  | nil =>
      cases second with
      | nil => exact same
      | cons other others =>
          simp only [List.flatMap_nil, List.nil_append, List.flatMap_cons] at same
          -- the word `other` would begin the word `symbol`
          rw [same, List.append_assoc] at cut
          obtain ⟨rfl, -⟩ := free other symbol _ [] (secondDomain other (by simp))
            symbolDomain (cut.trans (List.append_nil _).symm)
          have length := congrArg List.length same
          rw [List.length_take, List.length_append] at length
          omega
  | cons next rest ih =>
      have nextDomain := firstDomain next (by simp)
      cases second with
      | nil =>
          simp only [List.flatMap_nil, List.flatMap_cons, List.append_assoc,
            List.append_eq_nil_iff] at same
          exact same.2.2
      | cons other others =>
          simp only [List.flatMap_cons, List.append_assoc] at same
          obtain ⟨-, tails⟩ := free _ _ _ _ nextDomain (secondDomain other (by simp)) same
          exact ih (fun other member => firstDomain other (List.mem_cons_of_mem _ member))
            (fun other member => secondDomain other (List.mem_cons_of_mem _ member)) tails

/-- A stream of words that is cut short ends behind a word or inside one, by induction on the
words.
-/
theorem take_flatMap (code : ι → List τ) (symbols : List ι) (count : Nat)
    : ∃ kept lost,
        symbols = kept ++ lost
        ∧ (kept.flatMap code).length ≤ count
        ∧ (symbols.flatMap code).take count
          = kept.flatMap code ++ (lost.flatMap code).take (count - (kept.flatMap code).length)
        ∧ ∀ symbol ∈ lost.head?, count - (kept.flatMap code).length < (code symbol).length := by
  induction symbols generalizing count with
  | nil => exact ⟨[], [], rfl, Nat.zero_le count, rfl, by simp⟩
  | cons symbol rest ih =>
      by_cases inside : count < (code symbol).length
      · exact ⟨[], symbol :: rest, rfl, Nat.zero_le count, rfl, by simpa using inside⟩
      · have fits := Nat.le_of_not_lt inside
        obtain ⟨kept, lost, split, short, cut, torn⟩ := ih (count - (code symbol).length)
        have length : ((symbol :: kept).flatMap code).length
            = (code symbol).length + (kept.flatMap code).length := by
          rw [List.flatMap_cons, List.length_append]
        have room : count - ((symbol :: kept).flatMap code).length
            = count - (code symbol).length - (kept.flatMap code).length := by
          omega
        refine ⟨symbol :: kept, lost, congrArg (symbol :: ·) split, by omega, ?_, ?_⟩
        · rw [room, List.flatMap_cons, List.take_append, List.take_of_length_le fits, cut,
            List.flatMap_cons, List.append_assoc]
        · rw [room]
          exact torn

end Foundations.PrefixCodes
