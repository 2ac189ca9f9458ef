import Mathlib.Data.List.Sort

/-! Insertion sort is stable: items that the order does not tell apart keep their places.
Therefore sorting commutes with cutting a list at a threshold of the order.
-/

namespace Foundations.StableSorting

variable {α : Type} {order : α → α → Prop} [DecidableRel order]

/-- `left` stands before `right` in the order, or is as large and came earlier. -/
def Before (order earlier : α → α → Prop) (left right : α) : Prop :=
  order left right ∧ (order right left → earlier left right)

/-- An item that came before all others is inserted before its equals, by induction on the
others: it is passed over by strictly smaller items only.
-/
theorem pairwise_orderedInsert
    [IsTrans α order] [Std.Total order]
    {earlier : α → α → Prop} {item : α} {others : List α}
    (first : ∀ other ∈ others, earlier item other)
    (sorted : others.Pairwise (Before order earlier))
    : (others.orderedInsert order item).Pairwise (Before order earlier) := by
  induction others with
  | nil => exact List.pairwise_singleton _ _
  | cons other rest ih =>
      obtain ⟨firstOther, firstRest⟩ := List.forall_mem_cons.mp first
      obtain ⟨otherBefore, restSorted⟩ := List.pairwise_cons.mp sorted
      by_cases before : order item other
      · rw [List.orderedInsert_cons_of_le order rest before]
        refine List.pairwise_cons.mpr ⟨List.forall_mem_cons.mpr ⟨?_, ?_⟩, sorted⟩
        · exact ⟨before, fun _ => firstOther⟩
        · intro next member
          have ordered := IsTrans.trans _ _ _ before (otherBefore next member).1
          exact ⟨ordered, fun _ => firstRest next member⟩
      · rw [List.orderedInsert_of_not_le order rest before]
        refine List.pairwise_cons.mpr ⟨?_, ih firstRest restSorted⟩
        intro next member
        rcases List.mem_orderedInsert order |>.mp member with rfl | member
        · exact ⟨(Std.Total.total next other).resolve_left before, fun after => absurd after before⟩
        · exact otherBefore next member

/-- Sorting a list whose items came one after the other orders equal items by their coming, by
induction on the list.
-/
theorem pairwise_insertionSort
    [IsTrans α order] [Std.Total order]
    {earlier : α → α → Prop} {items : List α} (came : items.Pairwise earlier)
    : (items.insertionSort order).Pairwise (Before order earlier) := by
  induction items with
  | nil => exact List.Pairwise.nil
  | cons item rest ih =>
      obtain ⟨first, later⟩ := List.pairwise_cons.mp came
      refine pairwise_orderedInsert ?_ (ih later)
      intro other member
      exact first other ((List.mem_insertionSort order).mp member)

/-- An item that no item on the right precedes is inserted on the left. -/
theorem orderedInsert_append_left {item : α} (left : List α) {right : List α}
    (before : ∀ other ∈ right, order item other)
    : (left ++ right).orderedInsert order item = left.orderedInsert order item ++ right := by
  induction left with
  | nil =>
      cases right with
      | nil => rfl
      | cons other rest =>
          exact List.orderedInsert_cons_of_le order rest (before other List.mem_cons_self)
  | cons other rest ih =>
      simp only [List.cons_append, List.orderedInsert_cons, ih]
      split <;> rfl

/-- An item that precedes nothing on the left is inserted on the right. -/
theorem orderedInsert_append_right {item : α} {left : List α} (right : List α)
    (behind : ∀ other ∈ left, ¬ order item other)
    : (left ++ right).orderedInsert order item = left ++ right.orderedInsert order item := by
  induction left with
  | nil => rfl
  | cons other rest ih =>
      obtain ⟨other, rest⟩ := List.forall_mem_cons.mp behind
      rw [List.cons_append, List.orderedInsert_of_not_le order _ other, ih rest]
      rfl

/-- Two parts that come in order are sorted as two separate parts, by induction on the first. -/
theorem insertionSort_append {left right : List α}
    (before : ∀ item ∈ left, ∀ other ∈ right, order item other)
    : (left ++ right).insertionSort order
      = left.insertionSort order ++ right.insertionSort order := by
  induction left with
  | nil => rfl
  | cons item rest ih =>
      obtain ⟨first, others⟩ := List.forall_mem_cons.mp before
      rw [List.cons_append, List.insertionSort_cons, List.insertionSort_cons, ih others]
      refine orderedInsert_append_left _ fun other member => ?_
      exact first other ((List.mem_insertionSort order).mp member)

/-- If everything selected by `low` strictly precedes everything selected by `high`, then what
both select is sorted as two separate parts, by induction on the list.
-/
theorem insertionSort_filter_or {low high : α → Bool}
    (apart : ∀ {first second}, low first → high second → order first second ∧ ¬ order second first)
    (items : List α)
    : (items.filter fun item => low item || high item).insertionSort order
      = (items.filter low).insertionSort order ++ (items.filter high).insertionSort order := by
  induction items with
  | nil => rfl
  | cons item rest ih =>
      have inside {select : α → Bool} {other : α}
          (member : other ∈ (rest.filter select).insertionSort order) : select other :=
        (List.mem_filter.mp ((List.mem_insertionSort order).mp member)).2
      cases isLow : low item with
      | true =>
          have notHigh : high item = false := by
            cases isHigh : high item with
            | false => rfl
            | true =>
                obtain ⟨before, notBefore⟩ := apart isLow isHigh
                exact absurd before notBefore
          simp only [List.filter_cons, isLow, notHigh, Bool.or_false, if_true, Bool.false_eq_true,
            if_false, List.insertionSort_cons, ih]
          exact orderedInsert_append_left _ fun other member => (apart isLow (inside member)).1
      | false =>
          cases isHigh : high item with
          | false =>
              simpa only [List.filter_cons, isLow, isHigh, Bool.or_false, Bool.false_eq_true,
                if_false] using ih
          | true =>
              simp only [List.filter_cons, isLow, isHigh, Bool.or_true, if_true,
                Bool.false_eq_true, if_false, List.insertionSort_cons, ih]
              exact orderedInsert_append_right _ fun other member =>
                (apart (inside member) isHigh).2

end Foundations.StableSorting
