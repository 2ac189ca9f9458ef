import GorillaTsdb.Compression.TimestampDrifts
import GorillaTsdb.Storage.BlockStream
import GorillaTsdb.Storage.OpenBlocks
import Mathlib.Data.List.Forall2

/-! What the sealed records of a store still say about the points.
A record is read from its first point on. Every value comes back as it was inserted; every
timestamp comes back off by its drift, which is known from the timestamps alone and is a multiple
of 128.
-/

namespace GorillaTsdb.Storage

open Foundations.EventHistories
open Foundations.SegmentedLogs
open Foundations.TokenStreams
open GorillaTsdb.Compression

/-- How far the timestamp at an index behind the first point is read off. -/
def pointDrift (firstPoint : DataPoint) (rest : List DataPoint) (index : Nat) : Int :=
  timestampDrift
    ((TimestampCompressor.new firstPoint.timestamp).deltaOfDeltas
      (rest.map DataPoint.timestamp))
    index

/-- What both decompressors return for the points behind the first one. -/
def readPoints (firstPoint : DataPoint) (rest : List DataPoint) : List (UInt64 × F64) :=
  rest.mapIdx fun index point =>
    (driftBy (pointDrift firstPoint rest index) point.timestamp, point.value)

/-- A record from whose first point on the points can be read, off by their drifts. -/
def ReadsBack (record : CompressedBlock) (points : List DataPoint) : Prop :=
  ∃ firstPoint rest decoders,
    points = firstPoint :: rest
    ∧ record.startTimestamp = firstPoint.timestamp
    ∧ record.endTimestamp = (rest.getLastD firstPoint).timestamp
    ∧ record.count = points.length
    ∧ repeatCall decompressPoint rest.length
        (BlockDecompressor.new firstPoint, BitReader.new record.compressedData)
      = .ok (readPoints firstPoint rest) decoders

/-- The delta-of-deltas of a block are those of its timestamps. -/
theorem blockItems_deltaOfDeltas (firstPoint : DataPoint) (rest : List DataPoint)
    : (blockItems firstPoint rest).map Prod.fst
      = (TimestampCompressor.new firstPoint.timestamp).deltaOfDeltas
          (rest.map DataPoint.timestamp) :=
  map_outputs Prod.fst Prod.fst DataPoint.timestamp (fun _ _ => rfl) (fun _ _ => rfl) _ rest

/-- The results of the rounds, timestamps and values apart. -/
theorem decoded_points (firstPoint : DataPoint) (rest : List DataPoint)
    : outputs BlockDecompressor.result BlockDecompressor.advance
          (BlockDecompressor.new firstPoint) (blockItems firstPoint rest)
      = readPoints firstPoint rest := by
  have timestamps
      : (outputs BlockDecompressor.result BlockDecompressor.advance
            (BlockDecompressor.new firstPoint) (blockItems firstPoint rest)).map Prod.fst
        = (TimestampDecompressor.new firstPoint.timestamp).timestamps
            ((blockItems firstPoint rest).map Prod.fst) :=
    map_outputs Prod.fst Prod.fst Prod.fst (fun _ _ => rfl) (fun _ _ => rfl) _ _
  rw [blockItems_deltaOfDeltas, decoded_timestamps] at timestamps
  have readTimestamps : (readPoints firstPoint rest).map Prod.fst
      = (rest.map DataPoint.timestamp).mapIdx fun index =>
          driftBy (pointDrift firstPoint rest index) :=
    List.ext_getElem (by simp [readPoints]) fun index _ _ => by simp [readPoints]
  have readValues : (readPoints firstPoint rest).map Prod.snd = rest.map DataPoint.value :=
    List.ext_getElem (by simp [readPoints]) fun index _ _ => by simp [readPoints]
  exact (List.zip_of_prod timestamps (decoded_values firstPoint rest)).trans
    (List.zip_of_prod readTimestamps readValues).symm

theorem recordOf_readsBack (firstPoint : DataPoint) (rest : List DataPoint)
    : ReadsBack (recordOf (firstPoint :: rest)) (firstPoint :: rest) := by
  have decoded := BlockDecompressor.decodesItem.repeatCall (BlockDecompressor.new firstPoint)
    ⟨trivial, rfl, rfl⟩ (blockItems firstPoint rest) _ _ (unread_finish_pushBits _)
  rw [decoded_points, blockItems, length_outputs] at decoded
  exact ⟨firstPoint, rest, _, rfl, rfl, rfl, rfl, decoded⟩

/-- In every run of clients, the points that were acknowledged at a key are those of its sealed
records, in their order, and then the open ones. Each record reads back all values of its points,
and their timestamps off by drifts that are multiples of 128.
-/
theorem sealed_records_read_back (steps : List ClientStep) (key : TimeSeriesKey)
    : let store := after TSMap.clientStep TSMap.new steps
      let storage := store.storageOf key
      ∃ closed,
        acknowledgedToClients key (history TSMap.clientStep TSMap.new steps)
          = closed.flatten ++ storage.currentPoints
        ∧ List.Forall₂ ReadsBack storage.sealedBlocks closed
        ∧ ∀ firstPoint rest,
            firstPoint :: rest ∈ closed
            → (readPoints firstPoint rest).map (fun read => read.1.toNat % 128)
              = rest.map fun point => point.timestamp.toNat % 128 := by
  intro store storage
  have represents : Represents store _ := represents_clientRun steps
  let log := (after LogStore.step LogStore.new (steps.map ClientStep.atomically)).log key
  have same : storage = storageOfLog key log := represents.storageOf key
  refine ⟨log.closed, ?_, ?_, ?_⟩
  · rw [same, currentPoints_storageOfLog, ← items_clientRun]
    rfl
  · rw [same, storageOfLog, List.forall₂_map_left_iff, List.forall₂_same]
    intro items member
    obtain ⟨firstPoint, rest, rfl, -, -⟩ := log.closedFormed items member
    exact recordOf_readsBack firstPoint rest
  · intro firstPoint rest _
    refine List.ext_getElem (by simp [readPoints]) fun index _ _ => ?_
    simp only [readPoints, List.getElem_map, List.getElem_mapIdx]
    exact driftBy_mod (dvd_timestampDrift _ index) _

end GorillaTsdb.Storage
