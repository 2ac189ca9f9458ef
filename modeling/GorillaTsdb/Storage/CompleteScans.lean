import GorillaTsdb.Storage.BatchInserts
import GorillaTsdb.Storage.OpenBlocks

/-! When a range query returns everything.
It does as long as no block of its key was sealed. Whether one was can be told from what the clients
did at the key: its first accepted point opens a block, and everything else has to keep it open.
-/

namespace GorillaTsdb.Storage

open Foundations.EventHistories
open Foundations.Interleavings
open Foundations.SegmentedLogs

/-- A step that leaves a block open which started with a point: a point in its window, or a round
that reads the clock before its end.
-/
def WithinWindow (first : DataPoint) : ClientStep → Prop
  | .insert _ point => blockRules.admits first point
  | .sealIfExpired _ now => ended now first = false

instance (first : DataPoint) : DecidablePred (WithinWindow first)
  | .insert _ point => inferInstanceAs (Decidable (blockRules.admits first point = true))
  | .sealIfExpired _ now => inferInstanceAs (Decidable (ended now first = false))

/-- The steps at one key seal no block. -/
def StaysOpen : List ClientStep → Prop
  | [] => True
  | .insert _ point :: rest =>
      (HasRoom point ∧ ∀ step ∈ rest, WithinWindow point step) ∨ (¬ HasRoom point ∧ StaysOpen rest)
  | .sealIfExpired _ _ :: rest => StaysOpen rest

instance decidableStaysOpen : DecidablePred StaysOpen
  | [] => isTrue trivial
  | .insert _ _ :: rest =>
      have : Decidable (StaysOpen rest) := decidableStaysOpen rest
      inferInstanceAs (Decidable (_ ∨ _))
  | .sealIfExpired _ _ :: rest => decidableStaysOpen rest

-----------------------------------------------------------------------------------------
-- The log of one key
-----------------------------------------------------------------------------------------

/-- What a step at the key of a log does to it. -/
def PointLog.clientStep (self : PointLog) : ClientStep → PointLog
  | .insert _ point => (self.push point).2
  | .sealIfExpired _ now => self.closeIf (ended now)

section Log

variable {self : PointLog} {first : DataPoint} {rest : List DataPoint}

/-- No segment has ended when the clock stands at zero. -/
theorem ended_zero (first : DataPoint) : ended 0 first = false := by
  refine decide_eq_false fun reached => ?_
  have positive := toNat_blockDurationMs
  have zero : (0 : UInt64).toNat = 0 := UInt64.toNat_zero
  omega

theorem closeIf_zero (self : PointLog) : self.closeIf (ended 0) = self := by
  rw [SegmentedLog.closeIf, if_neg]
  intro due
  obtain ⟨first, -, passed⟩ := (Option.any_eq_true _ _).mp due
  cases (ended_zero first).symm.trans passed

theorem PointLog.evolves_clientStep (self : PointLog) (step : ClientStep)
    : ∃ accepted, self.Evolves (self.clientStep step) accepted := by
  cases step with
  | insert key point => exact ⟨_, self.evolves_push point⟩
  | sealIfExpired key now => exact ⟨_, self.evolves_closeIf (ended now)⟩

/-- A step leaves the open segment open, or closes it for good. -/
theorem PointLog.clientStep_open (current : self.current = first :: rest) (step : ClientStep)
    : (WithinWindow first step
        ∧ (self.clientStep step).closed = self.closed
        ∧ ∃ more, (self.clientStep step).current = first :: more)
      ∨ (¬ WithinWindow first step
        ∧ self.closed.length < (self.clientStep step).closed.length) := by
  have closes {later : PointLog} (closed : later.closed = self.segments)
      : self.closed.length < later.closed.length := by
    rw [closed, SegmentedLog.segments_cons current, List.length_append]
    exact Nat.lt_succ_self _
  cases step with
  | insert key point =>
      have fits := SegmentedLog.fits_cons current point
      rw [PointLog.clientStep, WithinWindow, ← fits, SegmentedLog.push]
      split
      case isTrue inside =>
        refine .inl ⟨inside, rfl, rest ++ [point], ?_⟩
        exact congrArg (· ++ [point]) current
      case isFalse outside =>
        split
        · exact .inr ⟨outside, closes rfl⟩
        · exact .inr ⟨outside, closes rfl⟩
  | sealIfExpired key now =>
      rw [PointLog.clientStep, WithinWindow, SegmentedLog.closeIf, current, List.head?_cons,
        Option.any_some]
      cases ended now first with
      | true => exact .inr ⟨Bool.true_eq_false.mp, closes rfl⟩
      | false => exact .inl ⟨rfl, rfl, rest, current⟩

/-- What is closed stays closed, by induction on the steps. -/
theorem PointLog.closed_length_le (self : PointLog) (steps : List ClientStep)
    : self.closed.length ≤ (steps.foldl PointLog.clientStep self).closed.length := by
  induction steps generalizing self with
  | nil => exact Nat.le_refl _
  | cons step rest ih =>
      refine Nat.le_trans ?_ (ih (self.clientStep step))
      obtain ⟨accepted, ⟨closed, -⟩ | ⟨closed, -⟩⟩ := self.evolves_clientStep step
      · exact Nat.le_of_eq (congrArg List.length closed.symm)
      · exact Nat.le_of_lt closed

/-- An open segment outlives the steps that find it open, by induction on them. -/
theorem PointLog.closed_foldl_open (current : self.current = first :: rest)
    (steps : List ClientStep)
    : (steps.foldl PointLog.clientStep self).closed.length = self.closed.length
      ↔ ∀ step ∈ steps, WithinWindow first step := by
  induction steps generalizing self rest with
  | nil => exact iff_of_true rfl (List.forall_mem_nil _)
  | cons step others ih =>
      rw [List.foldl_cons, List.forall_mem_cons]
      rcases PointLog.clientStep_open current step with
        ⟨within, same, more, opened⟩ | ⟨outside, grown⟩
      · rw [← same, ih opened, and_iff_right within]
      · have stays := (self.clientStep step).closed_length_le others
        exact iff_of_false (Nat.ne_of_gt (Nat.lt_of_lt_of_le grown stays)) fun all => outside all.1

/-- From an empty log, nothing is closed exactly if the steps keep their first segment open, by
induction on them.
-/
theorem PointLog.closed_foldl_empty (steps : List ClientStep)
    : (steps.foldl PointLog.clientStep .empty).closed = [] ↔ StaysOpen steps := by
  induction steps with
  | nil => exact iff_of_true rfl trivial
  | cons step others ih =>
      cases step with
      | insert key point =>
          have unfit : ¬ (SegmentedLog.empty : PointLog).fits point = true := by
            rw [SegmentedLog.fits_nil rfl]
            exact Bool.false_ne_true
          rw [List.foldl_cons, StaysOpen]
          by_cases room : HasRoom point
          · have opened : PointLog.clientStep .empty (.insert key point)
                = SegmentedLog.empty.restart point ((starts_iff point).mpr room) := by
              rw [PointLog.clientStep, SegmentedLog.push, dif_neg unfit,
                dif_pos ((starts_iff point).mpr room)]
            have alone : (PointLog.clientStep .empty (.insert key point)).current = [point] :=
              congrArg SegmentedLog.current opened
            have stays := PointLog.closed_foldl_open alone others
            have none : (PointLog.clientStep .empty (.insert key point)).closed = [] :=
              congrArg SegmentedLog.closed opened
            rw [none, List.length_nil, List.length_eq_zero_iff] at stays
            rw [stays, and_iff_right room, or_iff_left fun other => other.1 room]
          · have refused : PointLog.clientStep .empty (.insert key point) = .empty := by
              have unstarted : ¬ blockRules.starts point = true := (starts_iff point).not.mpr room
              rw [PointLog.clientStep, SegmentedLog.push, dif_neg unfit, dif_neg unstarted]
              exact SegmentedLog.close_nil rfl
            rw [refused, ih, and_iff_right room, or_iff_right fun other => room other.1]
      | sealIfExpired key now => exact ih

end Log

-----------------------------------------------------------------------------------------
-- The logs of a run
-----------------------------------------------------------------------------------------

/-- A step acts on the log of its key alone. -/
theorem LogStore.log_clientStep (self : LogStore) (step : ClientStep) (key : TimeSeriesKey)
    : (self.step step.atomically).2.log key
      = if step.key = key then (self.log key).clientStep step else self.log key := by
  cases step with
  | insert other point =>
      by_cases same : other = key
      · subst same
        rw [ClientStep.key, if_pos rfl]
        exact Function.update_self ..
      · rw [ClientStep.key, if_neg same]
        exact Function.update_of_ne (Ne.symm same) _ _
  | sealIfExpired other now =>
      change (self.log key).closeIf (ended (if other = key then now else 0)) = _
      by_cases same : other = key
      · rw [ClientStep.key, if_pos same, if_pos same]
        rfl
      · rw [ClientStep.key, if_neg same, if_neg same, closeIf_zero]

/-- A run does to the log of a key what the steps at the key do, by induction on the steps. -/
theorem LogStore.log_clientRun (self : LogStore) (steps : List ClientStep) (key : TimeSeriesKey)
    : (after LogStore.step self (steps.map ClientStep.atomically)).log key
      = (project ClientStep.key key steps).foldl PointLog.clientStep (self.log key) := by
  induction steps generalizing self with
  | nil => rfl
  | cons step rest ih =>
      have stepped := self.log_clientStep step key
      rw [List.map_cons, after, ih, stepped, project_cons]
      split
      · rfl
      · rfl

/-- The last timestamp that there is. -/
def lastTimestamp : UInt64 := 0xffffffffffffffff

theorem inRange_all (point : DataPoint) : inRange 0 lastTimestamp point = true := by
  have bound := point.timestamp.toNat_lt
  have zero : (0 : UInt64).toNat = 0 := UInt64.toNat_zero
  have last : lastTimestamp.toNat = 2 ^ 64 - 1 := by rfl
  simp only [inRange, Bool.and_eq_true, decide_eq_true_eq, ge_iff_le, UInt64.le_iff_toNat_le, zero,
    last]
  omega

/-- Only closed segments keep items from being open. -/
theorem current_perm_items_iff (log : PointLog)
    : log.current.Perm log.items ↔ log.closed = [] := by
  constructor
  · intro same
    have none := same.length_eq
    rw [SegmentedLog.items, List.length_append] at none
    have flat : log.closed.flatten = [] := List.length_eq_zero_iff.mp (by omega)
    refine List.eq_nil_iff_forall_not_mem.mpr fun segment member => ?_
    obtain ⟨first, rest, rfl, -, -⟩ := log.closedFormed segment member
    exact List.cons_ne_nil _ _ (List.flatten_eq_nil_iff.mp flat _ member)
  · intro none
    rw [SegmentedLog.items, none]
    exact List.Perm.refl _

/-- In every run of clients, a query of all times returns everything that was acknowledged at its
key exactly if the steps at the key sealed no block: from the first point with room on, each point
lay in the two hours of this one, and each round of a pass read the clock before their end.
-/
theorem everything_scanned_iff (steps : List ClientStep) (key : TimeSeriesKey)
    (present : key ∈ (after TSMap.clientStep TSMap.new steps).keys)
    : let store := after TSMap.clientStep TSMap.new steps
      ∃ points,
        store.scanRange key 0 lastTimestamp = .ok points
        ∧ (points.Perm (acknowledgedToClients key (history TSMap.clientStep TSMap.new steps))
          ↔ StaysOpen (project ClientStep.key key steps)) := by
  intro store
  have represents : Represents store _ := represents_clientRun steps
  have ordered : (0 : UInt64) ≤ lastTimestamp := by decide
  refine ⟨_, store.scanRange_present present ordered, ?_⟩
  let log := (after LogStore.step LogStore.new (steps.map ClientStep.atomically)).log key
  have items : log.items
      = acknowledgedToClients key (history TSMap.clientStep TSMap.new steps) :=
    items_clientRun steps key
  have current : (store.storageOf key).currentPoints = log.current :=
    (congrArg _ (represents.storageOf key)).trans (currentPoints_storageOfLog key _)
  have everything : log.current.filter (inRange 0 lastTimestamp) = log.current :=
    List.filter_eq_self.mpr fun point _ => inRange_all point
  have closed : log.closed = [] ↔ StaysOpen (project ClientStep.key key steps) := by
    have run : log = _ := LogStore.new.log_clientRun steps key
    rw [run]
    exact PointLog.closed_foldl_empty _
  rw [← closed, ← current_perm_items_iff, ← items, current, everything]
  exact (List.perm_insertionSort byTimestamp log.current).congr_left _

/-- Witness: the second point comes an hour behind the first one. -/
theorem everything_scanned_iff_sample
    : let steps : List ClientStep := [
        .insert "metric" ⟨0, ⟨1⟩⟩, .sealIfExpired "metric" 100, .insert "metric" ⟨3600000, ⟨2⟩⟩
      ]
      ∃ points,
        (after TSMap.clientStep TSMap.new steps).scanRange "metric" 0 lastTimestamp = .ok points
        ∧ points.Perm
            (acknowledgedToClients "metric" (history TSMap.clientStep TSMap.new steps)) := by
  intro steps
  obtain ⟨points, scanned, complete⟩ := everything_scanned_iff steps "metric" (by decide)
  exact ⟨points, scanned, complete.mpr (by decide)⟩

end GorillaTsdb.Storage
