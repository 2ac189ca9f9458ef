import GorillaTsdb.Foundations.Grouping

/-! Groups of groups: collecting fine groups by the quotient of their numbers gives the coarse
groups. A fold that picks an item of least rank may then be taken from the fine groups alone.
-/

namespace Foundations.Grouping

variable {α β : Type} {key : α → Nat} {items : List α}

theorem groupOf_eq_none {number : Nat}
    : groupOf key number items = none ↔ items.filter (fun item => key item = number) = [] := by
  rw [groupOf]
  split
  case h_1 none => exact iff_of_true rfl none
  case h_2 first rest found => exact iff_of_false (by simp) (by simp [found])

/-- A larger bound finds no further groups, by induction on it. -/
theorem groups_of_le {bound larger : Nat} (below : ∀ item ∈ items, key item < bound)
    (le : bound ≤ larger)
    : groups key larger items = groups key bound items := by
  induction le with
  | refl => rfl
  | @step larger further ih =>
      have le : bound ≤ larger := further
      have none : groupOf key larger items = none := by
        refine groupOf_eq_none.mpr (List.filter_eq_nil_iff.mpr fun item member => ?_)
        have fits := below item member
        simp only [decide_eq_true_eq]
        omega
      rw [groups_succ, none, ih]
      exact List.append_nil _

/-- Any two bounds above all numbers find the same groups. -/
theorem groups_bound {bound other : Nat} (below : ∀ item ∈ items, key item < bound)
    (belowOther : ∀ item ∈ items, key item < other)
    : groups key bound items = groups key other items := by
  rcases Nat.le_total bound other with le | le
  · exact (groups_of_le below le).symm
  · exact groups_of_le belowOther le

/-- Only the numbers of the items count. -/
theorem groups_congr {other : α → Nat} (same : ∀ item ∈ items, key item = other item) (bound : Nat)
    : groups key bound items = groups other bound items := by
  refine List.filterMap_congr fun number _ => ?_
  have collected : items.filter (fun item => key item = number)
      = items.filter fun item => other item = number :=
    List.filter_congr fun item member => by rw [same item member]
  rw [groupOf, groupOf, collected]

/-- The first group is that of the first item, if its number is zero. -/
theorem groups_cons {first : α} {rest : List α} (zero : key first = 0) (bound : Nat)
    : ∃ others more,
        groups key (bound + 1) (first :: rest)
        = { number := 0, first, rest := others } :: more := by
  have found : groupOf key 0 (first :: rest)
      = some { number := 0, first, rest := rest.filter fun item => key item = 0 } := by
    rw [groupOf, List.filter_cons_of_pos (by simp [zero])]
  rw [groups, List.range_succ_eq_map, List.filterMap_cons, found]
  exact ⟨_, _, rfl⟩

def ItemGroup.map (change : α → β) (group : ItemGroup α) : ItemGroup β where
  number := group.number
  first := change group.first
  rest := group.rest.map change

/-- Grouping changed items is changing the items of the groups. -/
theorem groups_map (key : β → Nat) (change : α → β) (bound : Nat) (items : List α)
    : groups key bound (items.map change)
      = (groups (key ∘ change) bound items).map (ItemGroup.map change) := by
  rw [groups, groups, List.map_filterMap]
  refine List.filterMap_congr fun number _ => ?_
  rw [groupOf, groupOf, List.filter_map]
  simp only [Function.comp_def]
  cases items.filter fun item => key (change item) = number <;> rfl

/-- The items of the inner groups, one group after the other. -/
def ItemGroup.flatten (group : ItemGroup (ItemGroup α)) : ItemGroup α where
  number := group.number
  first := group.first.first
  rest := group.first.rest ++ group.rest.flatMap ItemGroup.items

theorem ItemGroup.items_flatten (group : ItemGroup (ItemGroup α))
    : group.flatten.items = group.items.flatMap ItemGroup.items :=
  rfl

/-- All items of a fine group are in one coarse group, so those of a coarse group are the fine
groups in it.
-/
theorem filter_quotient (sorted : items.Pairwise fun left right => key left ≤ key right)
    {bound : Nat} (below : ∀ item ∈ items, key item < bound) (factor number : Nat)
    : items.filter (fun item => key item / factor = number)
      = ((groups key bound items).filter fun group => group.number / factor = number).flatMap
          ItemGroup.items := by
  have row : (groups key bound items).flatMap ItemGroup.items = items := by
    rw [flatMap_groups sorted, List.filter_eq_self]
    exact fun item member => decide_eq_true (below item member)
  have inside : ∀ group ∈ groups key bound items, ∀ item ∈ group.items,
      key item = group.number := by
    intro group member item itemMember
    rw [(mem_groups member).2, List.mem_filter, decide_eq_true_iff] at itemMember
    exact itemMember.2
  conv_lhs => rw [← row]
  generalize groups key bound items = fine at inside
  induction fine with
  | nil => rfl
  | cons group rest ih =>
      obtain ⟨first, others⟩ := List.forall_mem_cons.mp inside
      have same : group.items.filter (fun item => key item / factor = number)
          = if group.number / factor = number then group.items else [] := by
        split
        case isTrue equal =>
          refine List.filter_eq_self.mpr fun item member => ?_
          rw [first item member]
          exact decide_eq_true equal
        case isFalse different =>
          refine List.filter_eq_nil_iff.mpr fun item member => ?_
          rw [first item member, decide_eq_true_iff]
          exact different
      rw [List.flatMap_cons, List.filter_append, same, ih others, List.filter_cons]
      by_cases equal : group.number / factor = number
      · simp [equal]
      · simp [equal]

/-- The coarse groups are the groups of the fine ones. -/
theorem groups_quotient (sorted : items.Pairwise fun left right => key left ≤ key right)
    {bound : Nat} (below : ∀ item ∈ items, key item < bound) (factor outer : Nat)
    : groups (fun item => key item / factor) outer items
      = (groups (fun group => group.number / factor) outer (groups key bound items)).map
          ItemGroup.flatten := by
  rw [groups, groups, List.map_filterMap]
  refine List.filterMap_congr fun number _ => ?_
  have inside := filter_quotient sorted below factor number
  rw [groupOf, groupOf, inside]
  cases (groups key bound items).filter fun group => group.number / factor = number <;> rfl

-----------------------------------------------------------------------------------------
-- Picks
-----------------------------------------------------------------------------------------

section Picks

variable {ι : Type} [LinearOrder ι] {rank : α → ι} {pick : α → α → α} {admitted : α → Prop}
  {start : α}

theorem Picking.rank_le_start (picking : Picking rank pick admitted start) {item : α}
    (admits : admitted item)
    : rank item ≤ rank start := by
  rcases le_total (rank item) (rank start) with below | above
  · exact below
  · exact (congrArg rank (picking.extreme admits above)).le

/-- What is picked from the picks of parts has the rank of what is picked from all items. -/
theorem Picking.rank_foldl_parts (picking : Picking rank pick admitted start)
    (parts : List (List α))
    : rank ((parts.map fun items => items.foldl pick start).foldl pick start)
      = rank (parts.flatten.foldl pick start) := by
  let picks := parts.map fun items => items.foldl pick start
  obtain ⟨outerAdmits, outerMember, outerLeast⟩ := picking.foldl_least picks picking.admits
  obtain ⟨wholeAdmits, wholeMember, wholeLeast⟩ :=
    picking.foldl_least parts.flatten picking.admits
  apply le_antisymm
  · rcases List.mem_cons.mp wholeMember with same | inside
    · rw [same]
      exact picking.rank_le_start outerAdmits
    · obtain ⟨items, part, itemMember⟩ := List.mem_flatten.mp inside
      obtain ⟨partAdmits, -, partLeast⟩ := picking.foldl_least items picking.admits
      have picked : items.foldl pick start ∈ picks := List.mem_map_of_mem part
      exact (outerLeast _ (List.mem_cons_of_mem _ picked) partAdmits).trans
        (partLeast _ (List.mem_cons_of_mem _ itemMember) wholeAdmits)
  · rcases List.mem_cons.mp outerMember with same | inside
    · rw [same]
      exact picking.rank_le_start wholeAdmits
    · obtain ⟨items, part, picked⟩ := List.mem_map.mp inside
      obtain ⟨partAdmits, partMember, -⟩ := picking.foldl_least items picking.admits
      rw [← picked]
      refine wholeLeast _ ?_ partAdmits
      rcases List.mem_cons.mp partMember with same | member
      · rw [same]
        exact List.mem_cons_self
      · exact List.mem_cons_of_mem _ (List.mem_flatten.mpr ⟨items, part, member⟩)

end Picks

end Foundations.Grouping
