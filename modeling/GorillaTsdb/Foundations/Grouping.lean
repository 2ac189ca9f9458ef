import Mathlib.Data.List.Basic
import Mathlib.Order.Lattice

/-! Grouping a list by a number and picking the best item of a group.
Groups are never empty, so each is its first item and the rest.
-/

namespace Foundations.Grouping

variable {α : Type}

structure ItemGroup (α : Type) where
  number : Nat
  first : α
  rest : List α

def ItemGroup.items (group : ItemGroup α) : List α := group.first :: group.rest

/-- The items with one number, if there are any. -/
def groupOf (key : α → Nat) (number : Nat) (items : List α) : Option (ItemGroup α) :=
  match items.filter fun item => key item = number with
  | [] => none
  | first :: rest => some { number, first, rest }

/-- The groups with numbers below a bound, in increasing order. -/
def groups (key : α → Nat) (bound : Nat) (items : List α) : List (ItemGroup α) :=
  (List.range bound).filterMap fun number => groupOf key number items

variable {key : α → Nat} {items : List α}

theorem groups_succ (key : α → Nat) (bound : Nat) (items : List α)
    : groups key (bound + 1) items
      = groups key bound items ++ (groupOf key bound items).toList := by
  rw [groups, List.range_succ, List.filterMap_append]
  cases found : groupOf key bound items <;> simp [groups, found]

theorem items_groupOf {number : Nat} {group : ItemGroup α}
    (found : groupOf key number items = some group)
    : group.number = number ∧ group.items = items.filter fun item => key item = number := by
  unfold groupOf at found
  split at found
  · cases found
  · next first rest split =>
      cases found
      exact ⟨rfl, split.symm⟩

/-- The groups are those of the numbers below the bound, each with all items of its number. -/
theorem mem_groups {bound : Nat} {group : ItemGroup α} (member : group ∈ groups key bound items)
    : group.number < bound
      ∧ group.items = items.filter fun item => key item = group.number := by
  obtain ⟨number, below, found⟩ := List.mem_filterMap.mp member
  obtain ⟨rfl, collected⟩ := items_groupOf found
  exact ⟨List.mem_range.mp below, collected⟩

/-- All items of one number below the bound are a group. -/
theorem mem_groups_of_items {bound : Nat} {group : ItemGroup α} (below : group.number < bound)
    (collected : group.items = items.filter fun item => key item = group.number)
    : group ∈ groups key bound items := by
  refine List.mem_filterMap.mpr ⟨group.number, List.mem_range.mpr below, ?_⟩
  rw [groupOf, ← collected]
  rfl

/-- The numbers of the groups increase, by induction on the bound. -/
theorem pairwise_groups (key : α → Nat) (bound : Nat) (items : List α)
    : (groups key bound items).Pairwise fun left right => left.number < right.number := by
  induction bound with
  | zero => exact List.Pairwise.nil
  | succ bound ih =>
      rw [groups_succ]
      refine List.pairwise_append.mpr ⟨ih, ?_, ?_⟩
      · cases groupOf key bound items <;> simp
      · intro left leftMember right rightMember
        obtain ⟨number, -⟩ := items_groupOf (Option.mem_toList.mp rightMember)
        rw [number]
        exact (mem_groups leftMember).1

/-- Where the keys never decrease, the items below a number come before those with it, by
induction on the items.
-/
theorem filter_le (sorted : items.Pairwise fun left right => key left ≤ key right)
    (number : Nat)
    : items.filter (fun item => key item ≤ number)
      = items.filter (fun item => key item < number)
        ++ items.filter (fun item => key item = number) := by
  induction items with
  | nil => rfl
  | cons item rest ih =>
      obtain ⟨least, restSorted⟩ := List.pairwise_cons.mp sorted
      rcases Nat.lt_trichotomy (key item) number with below | equal | above
      · simp [ih restSorted, below, Nat.le_of_lt below, Nat.ne_of_lt below]
      · have nothing : rest.filter (fun other => key other < number) = [] := by
          rw [List.filter_eq_nil_iff]
          intro other member
          simpa [← equal] using least other member
        simp [ih restSorted, equal, nothing]
      · simp [ih restSorted, Nat.ne_of_gt above, Nat.not_lt.mpr (Nat.le_of_lt above),
          Nat.not_le.mpr above]

/-- Where the keys never decrease, the groups in a row are the items below the bound, by
induction on the bound.
-/
theorem flatMap_groups (sorted : items.Pairwise fun left right => key left ≤ key right)
    (bound : Nat)
    : (groups key bound items).flatMap ItemGroup.items
      = items.filter fun item => key item < bound := by
  induction bound with
  | zero => simp [groups]
  | succ bound ih =>
      have below : items.filter (fun item => key item < bound + 1)
          = items.filter fun item => key item ≤ bound :=
        List.filter_congr fun item _ => decide_eq_decide.mpr Nat.lt_succ_iff
      rw [groups_succ, List.flatMap_append, ih, below, filter_le sorted]
      cases found : groupOf key bound items with
      | none =>
          have nothing : items.filter (fun item => key item = bound) = [] := by
            unfold groupOf at found
            split at found
            · assumption
            · cases found
          simp [nothing]
      | some group => simp [(items_groupOf found).2]

-----------------------------------------------------------------------------------------
-- Picks
-----------------------------------------------------------------------------------------

section Picks

variable {ι : Type} [LinearOrder ι] {rank : α → ι} {pick : α → α → α} {admitted : α → Prop}
  {start : α}

/-- A fold that picks an admitted item of least rank, any one of them, and passes over all others.
It starts from an admitted item that gives way to every other.
-/
structure Picking (rank : α → ι) (pick : α → α → α) (admitted : α → Prop) (start : α) : Prop where
  picks
    : ∀ {best item},
        admitted best
        → admitted item
        → (rank best ≤ rank item ∧ pick best item = best)
          ∨ (rank item ≤ rank best ∧ pick best item = item)
  skips : ∀ {best item}, admitted best → ¬ admitted item → pick best item = best
  admits : admitted start
  extreme : ∀ {item}, admitted item → rank start ≤ rank item → item = start

namespace Picking

/-- One of the two is picked, and neither has a smaller rank unless it is not admitted. -/
theorem pick_least (picking : Picking rank pick admitted start) {best : α}
    (admits : admitted best) (item : α)
    : admitted (pick best item)
      ∧ (pick best item = best ∨ pick best item = item)
      ∧ rank (pick best item) ≤ rank best
      ∧ (admitted item → rank (pick best item) ≤ rank item) := by
  by_cases itemAdmitted : admitted item
  · rcases picking.picks admits itemAdmitted with ⟨least, same⟩ | ⟨least, same⟩
    · rw [same]
      exact ⟨admits, .inl rfl, le_rfl, fun _ => least⟩
    · rw [same]
      exact ⟨itemAdmitted, .inr rfl, least, fun _ => le_rfl⟩
  · rw [picking.skips admits itemAdmitted]
    exact ⟨admits, .inl rfl, le_rfl, fun admitsItem => absurd admitsItem itemAdmitted⟩

/-- The fold finds an admitted item of least rank, by induction on the items. -/
theorem foldl_least (picking : Picking rank pick admitted start) (items : List α) {best : α}
    (admits : admitted best)
    : admitted (items.foldl pick best)
      ∧ items.foldl pick best ∈ best :: items
      ∧ ∀ item ∈ best :: items, admitted item → rank (items.foldl pick best) ≤ rank item := by
  induction items generalizing best with
  | nil => exact ⟨admits, List.mem_cons_self, fun item member _ => by simp_all⟩
  | cons item rest ih =>
      obtain ⟨chosenAdmits, chosen, below, belowItem⟩ := picking.pick_least admits item
      obtain ⟨ended, member, least⟩ := ih chosenAdmits
      obtain ⟨first, others⟩ := List.forall_mem_cons.mp least
      have lower := first chosenAdmits
      rw [List.foldl_cons]
      refine ⟨ended, ?_, ?_⟩
      · rcases List.mem_cons.mp member with same | inside
        · rw [same]
          rcases chosen with keeps | takes
          · rw [keeps]
            exact List.mem_cons_self
          · rw [takes]
            exact List.mem_cons_of_mem _ List.mem_cons_self
        · exact List.mem_cons_of_mem _ (List.mem_cons_of_mem _ inside)
      · rw [List.forall_mem_cons, List.forall_mem_cons]
        exact ⟨fun _ => lower.trans below,
          fun itemAdmitted => lower.trans (belowItem itemAdmitted), others⟩

/-- From the start, a fold over at least one item, all admitted, ends in one of them. -/
theorem foldl_mem (picking : Picking rank pick admitted start) {first : α} {rest : List α}
    (itemsAdmitted : ∀ item ∈ first :: rest, admitted item)
    : (first :: rest).foldl pick start ∈ first :: rest
      ∧ ∀ item ∈ first :: rest, rank ((first :: rest).foldl pick start) ≤ rank item := by
  obtain ⟨-, member, least⟩ := picking.foldl_least (first :: rest) picking.admits
  have leastItem : ∀ item ∈ first :: rest,
      rank ((first :: rest).foldl pick start) ≤ rank item :=
    fun item itemMember =>
      least item (List.mem_cons_of_mem _ itemMember) (itemsAdmitted item itemMember)
  refine ⟨?_, leastItem⟩
  rcases List.mem_cons.mp member with same | found
  · -- the fold ended where it started, so the first item cannot have a smaller rank
    have first_eq : first = start := by
      apply picking.extreme (itemsAdmitted first List.mem_cons_self)
      rw [← same]
      exact leastItem first List.mem_cons_self
    rw [same, ← first_eq]
    exact List.mem_cons_self
  · exact found

end Picking

end Picks

end Foundations.Grouping
