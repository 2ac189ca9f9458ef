import GorillaTsdb.Foundations.NestedGroups

/-! Groups of a list in two parts.
If no number of the back is below one of the front, only the last group of the front can grow.
If a number lies between the two parts, the groups of the whole are those of the parts.
-/

namespace Foundations.Grouping

variable {α : Type} {key : α → Nat} {front back items : List α}

/-- A smaller bound finds the first of the groups. -/
theorem groups_of_smaller {bound larger : Nat} (le : bound ≤ larger)
    : groups key bound items <+: groups key larger items := by
  obtain ⟨further, rfl⟩ := Nat.exists_eq_add_of_le le
  rw [groups, groups, List.range_add, List.filterMap_append]
  exact List.prefix_append _ _

theorem groupOf_front {number : Nat} (behind : ∀ item ∈ back, key item ≠ number)
    : groupOf key number (front ++ back) = groupOf key number front := by
  have none : back.filter (fun item => key item = number) = [] := by
    refine List.filter_eq_nil_iff.mpr fun item member => ?_
    rw [decide_eq_true_iff]
    exact behind item member
  rw [groupOf, groupOf, List.filter_append, none, List.append_nil]

theorem groupOf_back {number : Nat} (before : ∀ item ∈ front, key item ≠ number)
    : groupOf key number (front ++ back) = groupOf key number back := by
  have none : front.filter (fun item => key item = number) = [] := by
    refine List.filter_eq_nil_iff.mpr fun item member => ?_
    rw [decide_eq_true_iff]
    exact before item member
  rw [groupOf, groupOf, List.filter_append, none, List.nil_append]

/-- What comes behind a number does not change the groups below it. -/
theorem groups_front {bound : Nat} (behind : ∀ item ∈ back, bound ≤ key item)
    : groups key bound (front ++ back) = groups key bound front := by
  refine List.filterMap_congr fun number member => groupOf_front fun item later same => ?_
  have below := List.mem_range.mp member
  have above := behind item later
  omega

/-- The same items under a number that is larger by an offset. -/
def ItemGroup.renumber (offset : Nat) (group : ItemGroup α) : ItemGroup α :=
  { group with number := offset + group.number }

theorem groupOf_renumber {offset : Nat} (behind : ∀ item ∈ items, offset ≤ key item)
    (number : Nat)
    : groupOf key (offset + number) items
      = (groupOf (fun item => key item - offset) number items).map
          (ItemGroup.renumber offset) := by
  have same : items.filter (fun item => key item = offset + number)
      = items.filter fun item => key item - offset = number := by
    refine List.filter_congr fun item member => decide_eq_decide.mpr ?_
    have above := behind item member
    omega
  rw [groupOf, groupOf, same]
  cases items.filter fun item => key item - offset = number <;> rfl

/-- A number between the parts cuts the groups, too. -/
theorem groups_append {middle bound : Nat} (before : ∀ item ∈ front, key item < middle)
    (behind : ∀ item ∈ back, middle ≤ key item)
    : groups key (middle + bound) (front ++ back)
      = groups key middle front
        ++ (groups (fun item => key item - middle) bound back).map
            (ItemGroup.renumber middle) := by
  have upper : (List.map (middle + ·) (List.range bound)).filterMap
        (fun number => groupOf key number (front ++ back))
      = (groups (fun item => key item - middle) bound back).map
          (ItemGroup.renumber middle) := by
    rw [List.filterMap_map, groups, List.map_filterMap]
    refine List.filterMap_congr fun number _ => ?_
    refine Eq.trans (groupOf_back fun item member => ?_) (groupOf_renumber behind number)
    have below := before item member
    change key item ≠ middle + number
    omega
  rw [groups, List.range_add, List.filterMap_append, upper]
  exact congrArg (· ++ _) (groups_front behind)

/-- There is a group for the number of an item. -/
theorem exists_groupOf {item : α} (member : item ∈ items)
    : ∃ group, groupOf key (key item) items = some group := by
  refine Option.ne_none_iff_exists'.mp fun none => ?_
  have absent := List.filter_eq_nil_iff.mp (groupOf_eq_none.mp none) item member
  exact absent (decide_eq_true rfl)

/-- Behind the last item of the front, only the last group of the front can grow. -/
theorem groups_grow {first : α} {rest : List α}
    (behind : ∀ item ∈ back, key (rest.getLastD first) ≤ key item) {bound : Nat}
    (larger : key (rest.getLastD first) < bound)
    : ∃ earlier last grown others,
        groups key (key (rest.getLastD first) + 1) (first :: rest) = earlier ++ [last]
        ∧ groups key bound (first :: rest ++ back) = earlier ++ grown :: others
        ∧ grown.number = last.number
        ∧ last.items <+: grown.items := by
  let number := key (rest.getLastD first)
  have member : rest.getLastD first ∈ first :: rest := List.getLastD_mem_cons
  obtain ⟨last, found⟩
      : ∃ group, groupOf key number (first :: rest) = some group := exists_groupOf member
  obtain ⟨grown, foundLater⟩
      : ∃ group, groupOf key number (first :: rest ++ back) = some group :=
    exists_groupOf (List.mem_append_left back member)
  obtain ⟨others, whole⟩ : groups key (number + 1) (first :: rest ++ back) <+: _ :=
    groups_of_smaller larger
  obtain ⟨lastNumber, lastItems⟩ := items_groupOf found
  obtain ⟨grownNumber, grownItems⟩ := items_groupOf foundLater
  refine ⟨groups key number (first :: rest), last, grown, others, ?_, ?_,
    grownNumber.trans lastNumber.symm, ?_⟩
  · exact (groups_succ ..).trans (congrArg (_ ++ Option.toList ·) found)
  · rw [← whole, groups_succ, foundLater, groups_front behind]
    exact List.append_assoc ..
  · rw [lastItems, grownItems, List.filter_append]
    exact List.prefix_append _ _

end Foundations.Grouping
