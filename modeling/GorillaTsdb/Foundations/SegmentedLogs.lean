import Mathlib.Algebra.Order.BigOperators.Group.List

/-! Logs that are cut into segments as they grow.
A segment is started by its first item, and this item alone decides what else may follow in it.
The last segment is open until it is closed, by request or because an item does not fit.
-/

namespace Foundations.SegmentedLogs

variable {α : Type}

/-- What may start a segment, and what a segment with a given first item admits. -/
structure Rules (α : Type) where
  starts : α → Bool
  admits : α → α → Bool

/-- Nonempty items whose first one may start a segment and admits all others. -/
def Rules.Segment (rules : Rules α) (items : List α) : Prop :=
  ∃ first rest, items = first :: rest ∧ rules.starts first ∧ ∀ item ∈ rest, rules.admits first item

theorem Rules.segment_single {rules : Rules α} {item : α} (starts : rules.starts item)
    : rules.Segment [item] :=
  ⟨item, [], rfl, starts, List.forall_mem_nil _⟩

/-- A segment takes an item that its first one admits. -/
theorem Rules.Segment.concat {rules : Rules α} {first item : α} {rest : List α}
    (segment : rules.Segment (first :: rest)) (admits : rules.admits first item)
    : rules.Segment (first :: (rest ++ [item])) := by
  obtain ⟨_, _, same, starts, others⟩ := segment
  obtain ⟨rfl, rfl⟩ := List.cons.inj same
  exact ⟨first, rest ++ [item], rfl, starts,
    List.forall_mem_append.mpr ⟨others, List.forall_mem_singleton.mpr admits⟩⟩

structure SegmentedLog (rules : Rules α) where
  closed : List (List α)
  current : List α
  closedFormed : ∀ items ∈ closed, rules.Segment items
  currentFormed : current ≠ [] → rules.Segment current

namespace SegmentedLog

variable {rules : Rules α}

@[ext]
theorem ext {left right : SegmentedLog rules} (closed : left.closed = right.closed)
    (current : left.current = right.current)
    : left = right := by
  cases left
  cases right
  simp_all

def empty : SegmentedLog rules where
  closed := []
  current := []
  closedFormed := List.forall_mem_nil _
  currentFormed := fun none => absurd rfl none

/-- All items, in the order in which they came. -/
def items (self : SegmentedLog rules) : List α := self.closed.flatten ++ self.current

/-- All segments, the open one last. -/
def segments (self : SegmentedLog rules) : List (List α) :=
  self.closed ++ if self.current = [] then [] else [self.current]

/-- Closes the open segment, if there is one. -/
def close (self : SegmentedLog rules) : SegmentedLog rules where
  closed := self.segments
  current := []
  closedFormed := by
    intro items member
    rcases List.mem_append.mp member with earlier | last
    · exact self.closedFormed items earlier
    · by_cases none : self.current = []
      · simp [none] at last
      · obtain rfl : items = self.current := by simpa [none] using last
        exact self.currentFormed none
  currentFormed := fun none => absurd rfl none

/-- Closes the open segment if its first item says so. -/
def closeIf (self : SegmentedLog rules) (due : α → Bool) : SegmentedLog rules :=
  if self.current.head?.any due then self.close else self

/-- Opens a new segment behind all others. -/
def restart (self : SegmentedLog rules) (item : α) (starts : rules.starts item)
    : SegmentedLog rules where
  closed := self.segments
  current := [item]
  closedFormed := self.close.closedFormed
  currentFormed := fun _ => Rules.segment_single starts

/-- There is an open segment, and it admits the item. -/
def fits (self : SegmentedLog rules) (item : α) : Bool :=
  self.current.head?.any fun first => rules.admits first item

def extend (self : SegmentedLog rules) (item : α) (fits : self.fits item)
    : SegmentedLog rules where
  closed := self.closed
  current := self.current ++ [item]
  closedFormed := self.closedFormed
  currentFormed := by
    intro _
    obtain ⟨first, head, admits⟩ := (Option.any_eq_true _ _).mp fits
    obtain ⟨rest, current⟩ := List.head?_eq_some_iff.mp head
    have segment := self.currentFormed (current ▸ List.cons_ne_nil first rest)
    rw [current] at segment ⊢
    exact segment.concat admits

/-- Offers an item to the open segment, or else to a new one behind it. A refused item still
closes the open segment.
-/
def push (self : SegmentedLog rules) (item : α) : Bool × SegmentedLog rules :=
  if fits : self.fits item then (true, self.extend item fits)
  else if starts : rules.starts item then (true, self.restart item starts)
  else (false, self.close)

/-- The first item of the open segment may start one. -/
theorem starts_first (self : SegmentedLog rules) {first : α} {rest : List α}
    (current : self.current = first :: rest)
    : rules.starts first := by
  obtain ⟨_, _, same, starts, -⟩ := self.currentFormed (current ▸ List.cons_ne_nil first rest)
  obtain ⟨rfl, -⟩ := List.cons.inj (current.symm.trans same)
  exact starts

theorem fits_nil {self : SegmentedLog rules} (current : self.current = []) (item : α)
    : self.fits item = false := by
  simp [fits, current]

theorem fits_cons {self : SegmentedLog rules} {first : α} {rest : List α}
    (current : self.current = first :: rest) (item : α)
    : self.fits item = rules.admits first item := by
  simp [fits, current]

theorem segments_nil {self : SegmentedLog rules} (current : self.current = [])
    : self.segments = self.closed := by
  simp [segments, current]

theorem segments_cons {self : SegmentedLog rules} {first : α} {rest : List α}
    (current : self.current = first :: rest)
    : self.segments = self.closed ++ [first :: rest] := by
  simp [segments, current]

/-- Nothing is closed where nothing is open. -/
theorem close_nil {self : SegmentedLog rules} (current : self.current = [])
    : self.close = self :=
  ext (segments_nil current) current.symm

/-- A new segment does not tell whether the one before it was closed first. -/
theorem restart_of_close {left right : SegmentedLog rules} (same : left.close = right.close)
    (item : α) (starts : rules.starts item)
    : left.restart item starts = right.restart item starts := by
  have closed : left.close.closed = right.close.closed := congrArg SegmentedLog.closed same
  exact ext closed rfl

theorem flatten_segments (self : SegmentedLog rules) : self.segments.flatten = self.items := by
  rw [segments, items]
  by_cases none : self.current = []
  · simp [none]
  · simp [none]

theorem items_close (self : SegmentedLog rules) : self.close.items = self.items :=
  (List.append_nil _).trans self.flatten_segments

theorem items_closeIf (self : SegmentedLog rules) (due : α → Bool)
    : (self.closeIf due).items = self.items := by
  rw [closeIf]
  split
  · exact self.items_close
  · rfl

/-- An accepted item is the last one, and a refused one is in no segment. -/
theorem items_push (self : SegmentedLog rules) (item : α)
    : (self.push item).2.items
      = self.items ++ if (self.push item).1 then [item] else [] := by
  rw [push]
  split
  · exact (List.append_assoc ..).symm
  · split
    · exact congrArg (· ++ [item]) self.flatten_segments
    · exact self.items_close.trans (List.append_nil _).symm

/-- An empty log has no segment to close. -/
theorem closeIf_empty (due : α → Bool) : (empty : SegmentedLog rules).closeIf due = empty :=
  rfl

theorem segments_formed (self : SegmentedLog rules)
    : ∀ items ∈ self.segments, rules.Segment items :=
  self.close.closedFormed

/-- Every segment holds an item, so there are no more segments than items. -/
theorem length_segments_le (self : SegmentedLog rules)
    : self.segments.length ≤ self.items.length := by
  rw [← self.flatten_segments, List.length_flatten]
  refine (List.length_map List.length).symm.trans_le (List.length_le_sum_of_one_le _ ?_)
  intro size member
  obtain ⟨items, segment, rfl⟩ := List.mem_map.mp member
  obtain ⟨first, rest, rfl, -, -⟩ := self.segments_formed items segment
  exact Nat.succ_pos rest.length

/-- The open segment of an earlier log has only grown by the accepted items, or it was closed and
only items that were accepted since then are open.
-/
inductive Evolves (left right : SegmentedLog rules) (accepted : List α) : Prop where
  | kept (closed : right.closed = left.closed) (current : right.current = left.current ++ accepted)
  | cut (closed : left.closed.length < right.closed.length) (current : right.current <:+ accepted)

theorem Evolves.refl (self : SegmentedLog rules) : self.Evolves self [] :=
  .kept rfl (List.append_nil _).symm

/-- A closed segment stays closed. -/
theorem Evolves.trans {left middle right : SegmentedLog rules} {first second : List α}
    (earlier : left.Evolves middle first) (later : middle.Evolves right second)
    : left.Evolves right (first ++ second) := by
  rcases earlier with ⟨closed, current⟩ | ⟨closed, current⟩ <;>
    rcases later with ⟨closedLater, currentLater⟩ | ⟨closedLater, currentLater⟩
  · refine .kept (closedLater.trans closed) ?_
    rw [currentLater, current, List.append_assoc]
  · refine .cut (closed ▸ closedLater) ?_
    exact currentLater.trans (List.suffix_append first second)
  · refine .cut (closedLater ▸ closed) ?_
    obtain ⟨dropped, rfl⟩ := current
    exact ⟨dropped, by rw [currentLater, List.append_assoc]⟩
  · refine .cut (closed.trans closedLater) ?_
    exact currentLater.trans (List.suffix_append first second)

/-- What a new segment starts with is all that is open. -/
theorem evolves_segments (left right : SegmentedLog rules)
    (closed : right.closed = left.segments)
    : left.Evolves right right.current := by
  cases current : left.current with
  | nil =>
      refine .kept (closed.trans (segments_nil current)) ?_
      rw [current, List.nil_append]
  | cons first rest =>
      refine .cut ?_ (List.suffix_refl _)
      rw [closed, segments_cons current, List.length_append]
      exact Nat.lt_succ_self _

theorem evolves_close (self : SegmentedLog rules) : self.Evolves self.close [] :=
  self.evolves_segments self.close rfl

theorem evolves_closeIf (self : SegmentedLog rules) (due : α → Bool)
    : self.Evolves (self.closeIf due) [] := by
  rw [closeIf]
  split
  · exact self.evolves_close
  · exact .refl self

theorem evolves_push (self : SegmentedLog rules) (item : α)
    : self.Evolves (self.push item).2 (if (self.push item).1 then [item] else []) := by
  rw [push]
  split
  · exact .kept rfl rfl
  · split
    case isTrue starts => exact self.evolves_segments (self.restart item starts) rfl
    case isFalse => exact self.evolves_close

-----------------------------------------------------------------------------------------
-- Copies
-----------------------------------------------------------------------------------------

/-- A log whose segments are those of another one, item by item. The copied items that are open
satisfy a predicate.
-/
structure Copies {β : Type} {others : Rules β} (copy : α → β) (inside : α → Prop)
    (log : SegmentedLog rules) (other : SegmentedLog others)
    : Prop where
  closed : other.closed = log.closed.map (List.map copy)
  current : other.current = log.current.map copy
  currentInside : ∀ item ∈ log.current, inside item

section Copies

variable {β : Type} {others : Rules β} {copy : α → β} {inside : α → Prop}
  {self : SegmentedLog rules} {other : SegmentedLog others}

theorem copies_empty
    : (empty : SegmentedLog rules).Copies copy inside (empty : SegmentedLog others) :=
  ⟨rfl, rfl, List.forall_mem_nil _⟩

theorem Copies.segments (copies : self.Copies copy inside other)
    : other.segments = self.segments.map (List.map copy) := by
  rw [SegmentedLog.segments, SegmentedLog.segments, copies.closed, copies.current,
    List.map_append]
  cases self.current with
  | nil => rfl
  | cons first rest => rfl

theorem Copies.close (copies : self.Copies copy inside other)
    : self.close.Copies copy inside other.close :=
  ⟨copies.segments, rfl, List.forall_mem_nil _⟩

/-- What the first open item decides is the same for both logs. -/
theorem Copies.any_first (copies : self.Copies copy inside other) {left : α → Bool}
    {right : β → Bool} (same : ∀ first, inside first → right (copy first) = left first)
    : other.current.head?.any right = self.current.head?.any left := by
  rw [copies.current]
  cases current : self.current with
  | nil => rfl
  | cons first rest =>
      exact same first (copies.currentInside first (current ▸ List.mem_cons_self ..))

theorem Copies.closeIf (copies : self.Copies copy inside other) {left : α → Bool}
    {right : β → Bool} (same : ∀ first, inside first → right (copy first) = left first)
    : (self.closeIf left).Copies copy inside (other.closeIf right) := by
  rw [SegmentedLog.closeIf, SegmentedLog.closeIf, copies.any_first same]
  split
  · exact copies.close
  · exact copies

/-- Where the rules agree about an item and its copy, both logs take it or both refuse it. -/
theorem Copies.push (copies : self.Copies copy inside other) {item : α} (member : inside item)
    (starts : others.starts (copy item) = rules.starts item)
    (admits
      : ∀ first, inside first → others.admits (copy first) (copy item) = rules.admits first item)
    : (other.push (copy item)).1 = (self.push item).1
      ∧ (self.push item).2.Copies copy inside (other.push (copy item)).2 := by
  have fits : other.fits (copy item) = self.fits item := copies.any_first admits
  rw [SegmentedLog.push, SegmentedLog.push]
  by_cases inOpen : self.fits item
  · rw [dif_pos inOpen, dif_pos (fits.trans inOpen)]
    refine ⟨rfl, copies.closed, ?_, ?_⟩
    · change other.current ++ [copy item] = (self.current ++ [item]).map copy
      rw [copies.current, List.map_append, List.map_singleton]
    · exact List.forall_mem_append.mpr
        ⟨copies.currentInside, List.forall_mem_singleton.mpr member⟩
  · rw [dif_neg inOpen, dif_neg (fits ▸ inOpen)]
    by_cases opens : rules.starts item
    · rw [dif_pos opens, dif_pos (starts.trans opens)]
      exact ⟨rfl, copies.segments, rfl, List.forall_mem_singleton.mpr member⟩
    · rw [dif_neg opens, dif_neg (starts ▸ opens)]
      exact ⟨rfl, copies.close⟩

end Copies

end SegmentedLog
end Foundations.SegmentedLogs
