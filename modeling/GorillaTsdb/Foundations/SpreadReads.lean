import Mathlib.Algebra.Ring.Nat
import Mathlib.Data.List.Nodup

/-! Counters that are read one after the other while the events they count go on.
Every event belongs to at most one counter. If no counter is read twice, the reads together
count every event at most once, whenever they happen.
-/

namespace Foundations.SpreadReads

variable {ε κ : Type}

/-- The positions of the events that belong to some counter. -/
def owned (owner : ε → Option κ) (events : List ε) : List Nat :=
  events.findIdxs fun event => (owner event).isSome

/-- A set of events is no smaller than what it contains and no larger than what contains it. -/
theorem length_bounds {owner : ε → Option κ} {events : List ε} {begun : Nat} {positions : List Nat}
    (distinct : positions.Nodup) (includes : owned owner (events.take begun) ⊆ positions)
    (within : positions ⊆ owned owner events)
    : (events.take begun).countP (fun event => (owner event).isSome) ≤ positions.length
      ∧ positions.length ≤ events.countP (fun event => (owner event).isSome) := by
  have low := (List.nodup_findIdxs : (owned owner (events.take begun)).Nodup).length_le_of_subset
    includes
  have high := distinct.length_le_of_subset within
  simp only [owned, List.length_findIdxs] at low high
  exact ⟨low, high⟩

/-- A sum over distinct keys is no larger than one over a list that holds all of them, but those
that add nothing, by induction on the keys.
-/
theorem sum_le_of_covers {value : κ → Nat} {first second : List κ} (once : first.Nodup)
    (covers : ∀ key ∈ first, value key = 0 ∨ key ∈ second)
    : (first.map value).sum ≤ (second.map value).sum := by
  induction first generalizing second with
  | nil => exact Nat.zero_le _
  | cons key rest ih =>
      obtain ⟨fresh, others⟩ := List.nodup_cons.mp once
      obtain ⟨head, tail⟩ := List.forall_mem_cons.mp covers
      rw [List.map_cons, List.sum_cons]
      rcases head with zero | member
      · rw [zero, Nat.zero_add]
        exact ih others tail
      · obtain ⟨left, right, rfl⟩ := List.append_of_mem member
        have covered : ∀ other ∈ rest, value other = 0 ∨ other ∈ left ++ right := by
          intro other inside
          refine (tail other inside).imp_right fun found => ?_
          have different : other ≠ key := fun same => fresh (same ▸ inside)
          simpa [different] using found
        have smaller := ih others covered
        simp only [List.map_append, List.map_cons, List.sum_append, List.sum_cons] at smaller ⊢
        omega

variable [DecidableEq κ] (owner : ε → Option κ)

/-- The counter of a key after these events. -/
def count (key : κ) (events : List ε) : Nat :=
  events.countP fun event => owner event = some key

/-- The positions of the events that the counter of the key counts. -/
def marks (key : κ) (events : List ε) : List Nat :=
  events.findIdxs fun event => owner event = some key

/-- The counter of a key counts the positions of its events. -/
theorem length_marks (key : κ) (events : List ε)
    : (marks owner key events).length = count owner key events :=
  List.length_findIdxs

variable {owner}

theorem mem_marks {key : κ} {events : List ε} {position : Nat}
    : position ∈ marks owner key events
      ↔ ∃ event, events[position]? = some event ∧ owner event = some key := by
  rw [marks, List.mem_findIdxs_iff_exists_getElem_pos]
  simp [List.getElem?_eq_some_iff]

theorem mem_owned {events : List ε} {position : Nat}
    : position ∈ owned owner events ↔ ∃ key, position ∈ marks owner key events := by
  simp only [owned, List.mem_findIdxs_iff_exists_getElem_pos, mem_marks,
    List.getElem?_eq_some_iff, Option.isSome_iff_exists]
  constructor
  · intro found
    obtain ⟨inside, key, owns⟩ := found
    exact ⟨key, _, ⟨inside, rfl⟩, owns⟩
  · intro found
    obtain ⟨key, _, ⟨inside, rfl⟩, owns⟩ := found
    exact ⟨inside, key, owns⟩

/-- The positions in a beginning of the events are those before its end. -/
theorem mem_marks_take {key : κ} {events : List ε} {position time : Nat}
    : position ∈ marks owner key (events.take time)
      ↔ position < time ∧ position ∈ marks owner key events := by
  simp only [mem_marks, List.getElem?_take]
  split
  case isTrue early => simp [early]
  case isFalse late => simp [late]

/-- No position belongs to two keys. -/
theorem key_unique {first second : κ} {events : List ε} {position : Nat}
    (left : position ∈ marks owner first events) (right : position ∈ marks owner second events)
    : first = second := by
  obtain ⟨event, found, key⟩ := mem_marks.mp left
  obtain ⟨other, again, otherKey⟩ := mem_marks.mp right
  cases found.symm.trans again
  exact Option.some.inj (key.symm.trans otherKey)

-----------------------------------------------------------------------------------------
-- Reads at their own times
-----------------------------------------------------------------------------------------

/-- The positions that the reads count: each read those of its key before its own time. -/
def counted (owner : ε → Option κ) (events : List ε) (reads : List (κ × Nat)) : List Nat :=
  reads.flatMap fun read => marks owner read.1 (events.take read.2)

theorem length_counted (events : List ε) (reads : List (κ × Nat))
    : (counted owner events reads).length
      = (reads.map fun read => count owner read.1 (events.take read.2)).sum := by
  simp only [counted, List.length_flatMap, length_marks]

/-- Reads of different counters count no position twice, whatever happens between them. -/
theorem nodup_counted {events : List ε} {reads : List (κ × Nat)}
    (once : (reads.map Prod.fst).Nodup)
    : (counted owner events reads).Nodup := by
  refine List.nodup_flatMap.mpr ⟨fun read _ => List.nodup_findIdxs, ?_⟩
  refine (List.pairwise_map.mp once).imp ?_
  intro first second different position left right
  exact different (key_unique (mem_marks_take.mp left).2 (mem_marks_take.mp right).2)

/-- Where no read is earlier than `begun` and every counter that moved before it is read, all
positions before it are counted.
-/
theorem owned_subset_counted {events : List ε} {reads : List (κ × Nat)} {begun : Nat}
    (late : ∀ read ∈ reads, begun ≤ read.2)
    (covers
      : ∀ key position,
          position ∈ marks owner key (events.take begun) → key ∈ reads.map Prod.fst)
    : owned owner (events.take begun) ⊆ counted owner events reads := by
  intro position member
  obtain ⟨key, mark⟩ := mem_owned.mp member
  obtain ⟨read, isRead, rfl⟩ := List.mem_map.mp (covers key position mark)
  obtain ⟨early, mark⟩ := mem_marks_take.mp mark
  have before := Nat.lt_of_lt_of_le early (late read isRead)
  exact List.mem_flatMap.mpr ⟨read, isRead, mem_marks_take.mpr ⟨before, mark⟩⟩

theorem counted_subset_owned {events : List ε} {reads : List (κ × Nat)}
    : counted owner events reads ⊆ owned owner events := by
  intro position member
  obtain ⟨read, isRead, mark⟩ := List.mem_flatMap.mp member
  exact mem_owned.mpr ⟨read.1, (mem_marks_take.mp mark).2⟩

end Foundations.SpreadReads
