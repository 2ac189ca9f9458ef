import GorillaTsdb.Foundations.EventHistories
import GorillaTsdb.Foundations.TokenStreams
import GorillaTsdb.Storage.EntryFormat

/-! Runs of the log: what the file holds after appends, truncations and reopenings, and what
replay makes of it. A file of whole frames is replayed entry by entry, whatever follows them.
-/

namespace GorillaTsdb.Storage

open Foundations.EventHistories
open Foundations.LittleEndian
open Foundations.TokenStreams (bind_error bind_ok)

/-- The bytes that `append` writes for an entry. -/
def frame (bincode : Bincode) (entry : WALEntry) : List UInt8 :=
  match bincode.serialize entry with
  | .error _ => []
  | .ok encoded => toLeBytes (UInt32.ofNat encoded.length) ++ encoded

-----------------------------------------------------------------------------------------
-- Replay of frames
-----------------------------------------------------------------------------------------

theorem fromLeBytes_toLeBytes (value : UInt32) : fromLeBytes (toLeBytes value) = value := by
  have small : value.toNat < 256 ^ 4 := value.toNat_lt
  rw [fromLeBytes, toLeBytes, ofLeBytes_leBytes, Nat.mod_eq_of_lt small, UInt32.ofNat_toNat]

theorem readExact_append (left right : List UInt8)
    : readExact left.length (left ++ right) = .ok (left, right) := by
  rw [readExact, if_pos (by simp), List.take_left, List.drop_left]

theorem readExact_short {count : Nat} {reader : List UInt8} (short : reader.length < count)
    : readExact count reader
      = .error { kind := .unexpectedEof, message := "failed to fill whole buffer" } := by
  rw [readExact, if_neg (Nat.not_le.mpr short)]

theorem readExact_length (value : UInt32) (rest : List UInt8)
    : readExact 4 (toLeBytes value ++ rest) = .ok (toLeBytes value, rest) := by
  have whole := readExact_append (toLeBytes value) rest
  rwa [toLeBytes, length_leBytes] at whole

section Replay

variable {σ : Type} {bincode : Bincode} (callback : WALEntry → EStateM StorageError σ Unit)

/-- One round of the loop, with the two reads as plain cases. -/
theorem replayLoop_eq (reader : List UInt8) (count : Nat)
    : WriteAheadLog.replayLoop bincode callback reader count
      = match readExact 4 reader with
        | .error error =>
            if error.kind = .unexpectedEof then pure count else throw (.ioError error)
        | .ok (lenBytes, body) =>
            match readExact (fromLeBytes lenBytes).toNat body with
            | .error error => throw (.ioError error)
            | .ok (entryBytes, rest) =>
                match bincode.deserialize entryBytes with
                | .error error =>
                    throw
                      (.ioError
                        {
                          kind := .invalidData
                          message := s!"Deserialization error: {error}"
                        })
                | .ok entry =>
                    callback entry >>= fun _ =>
                      WriteAheadLog.replayLoop bincode callback rest (count + 1) := by
  rw [WriteAheadLog.replayLoop]
  split
  · rename_i header
    rw [header]
  · rename_i header
    rw [header]
    dsimp only
    split
    · rename_i entry
      rw [entry]
    · rename_i entry
      rewrite [entry]
      rfl

/-- Replay hands the entry of a frame to the callback and goes on behind the frame. -/
theorem replayLoop_frame {entry : WALEntry} (roundTrips : bincode.RoundTrips entry)
    (rest : List UInt8) (count : Nat)
    : WriteAheadLog.replayLoop bincode callback (frame bincode entry ++ rest) count
      = (do
          callback entry
          WriteAheadLog.replayLoop bincode callback rest (count + 1)) := by
  obtain ⟨encoded, serialized, short, deserialized⟩ := roundTrips
  have len : (fromLeBytes (toLeBytes (UInt32.ofNat encoded.length))).toNat = encoded.length := by
    rw [fromLeBytes_toLeBytes, UInt32.toNat_ofNat', Nat.mod_eq_of_lt short]
  rw [replayLoop_eq, frame, serialized]
  simp only [List.append_assoc, readExact_length, len, readExact_append, deserialized]

/-- Replay hands the entries of whole frames to the callback in order and goes on behind the
frames, by induction on the entries.
-/
theorem replayLoop_frames {entries : List WALEntry}
    (roundTrips : ∀ entry ∈ entries, bincode.RoundTrips entry) (rest : List UInt8)
    (count : Nat)
    : WriteAheadLog.replayLoop bincode callback (entries.flatMap (frame bincode) ++ rest) count
      = (do
          forM entries callback
          WriteAheadLog.replayLoop bincode callback rest (count + entries.length)) := by
  induction entries generalizing count with
  | nil => simp
  | cons entry others ih =>
      obtain ⟨first, later⟩ := List.forall_mem_cons.mp roundTrips
      rw [List.flatMap_cons, List.append_assoc, replayLoop_frame callback first, List.forM_cons,
        ih later, List.length_cons, Nat.add_assoc, Nat.add_comm 1, bind_assoc]

/-- A file that ends inside a length, or in front of one, ends the loop. -/
theorem replayLoop_short {reader : List UInt8} (short : reader.length < 4) (count : Nat)
    : WriteAheadLog.replayLoop bincode callback reader count = pure count := by
  rw [replayLoop_eq, readExact_short short]
  rfl

/-- A file of whole frames is replayed in full. -/
theorem replay_frames {entries : List WALEntry}
    (roundTrips : ∀ entry ∈ entries, bincode.RoundTrips entry)
    : WriteAheadLog.replay bincode (some (entries.flatMap (frame bincode))) callback
      = (do
          forM entries callback
          pure entries.length) := by
  have whole := replayLoop_frames callback roundTrips [] 0
  rw [List.append_nil, Nat.zero_add] at whole
  simp only [replayLoop_short callback (by decide : ([] : List UInt8).length < 4)] at whole
  exact whole

end Replay

-----------------------------------------------------------------------------------------
-- Runs
-----------------------------------------------------------------------------------------

/-- The open log and the bytes of its file. -/
structure LogState where
  log : WriteAheadLog
  contents : List UInt8
  deriving DecidableEq, Repr

/-- The log after `create` where there is no file. -/
def LogState.fresh : LogState where
  log := (WriteAheadLog.create none).1
  contents := (WriteAheadLog.create none).2

/-- One call on the log. An append may meet a fault; the process may also stop there, and the
log is then opened again.
-/
inductive LogOp where
  | create
  | append (entry : WALEntry) (fault : Option WriteFault)
  | truncate
  deriving DecidableEq, Repr

/-- The result of a call and the state it leaves. -/
def LogState.settle
    : EStateM.Result StorageError (WriteAheadLog × LogFile) Unit
      → Except StorageError Unit × LogState
  | .ok _ (log, file) => (.ok (), { log, contents := file.contents })
  | .error error (log, file) => (.error error, { log, contents := file.contents })

def LogState.step (bincode : Bincode) (self : LogState)
    : LogOp → Except StorageError Unit × LogState
  | .create =>
      let (log, contents) := WriteAheadLog.create (some self.contents)
      (.ok (), { log, contents })
  | .append entry fault =>
      LogState.settle
        (WriteAheadLog.append bincode entry (self.log, { contents := self.contents, fault }))
  | .truncate =>
      LogState.settle
        (WriteAheadLog.truncate (self.log, { contents := self.contents, fault := none }))

/-- The entries whose append returned `Ok` since the last truncation. -/
def logged (events : List (LogOp × Except StorageError Unit)) : List WALEntry :=
  events.foldl
    (fun entries event =>
      match event with
      | (.append entry _, .ok _) => entries ++ [entry]
      | (.truncate, .ok _) => []
      | _ => entries)
    []

def LogOp.Faultless : LogOp → Prop
  | .append _ fault => fault = none
  | _ => True

def LogOp.Serializable (bincode : Bincode) : LogOp → Prop
  | .append entry _ => bincode.RoundTrips entry
  | _ => True

/-- An append without a fault puts the bytes at the end of the file, whatever they stand for. -/
theorem LogState.step_append_serialized (self : LogState) {bincode : Bincode}
    {entry : WALEntry} {encoded : List UInt8} (serialized : bincode.serialize entry = .ok encoded)
    : self.step bincode (.append entry none)
      = (.ok (),
          {
            log := { entryCount := self.log.entryCount + 1 }
            contents := self.contents ++ frame bincode entry
          }) := by
  simp only [LogState.step, WriteAheadLog.append, serialized, LogFile.writeAll,
    LogState.settle, frame, List.append_assoc]

/-- An append without a fault puts the frame at the end of the file. -/
theorem LogState.step_append (self : LogState) {bincode : Bincode} {entry : WALEntry}
    (roundTrips : bincode.RoundTrips entry)
    : self.step bincode (.append entry none)
      = (.ok (),
          {
            log := { entryCount := self.log.entryCount + 1 }
            contents := self.contents ++ frame bincode entry
          }) := by
  obtain ⟨encoded, serialized, -, -⟩ := roundTrips
  exact self.step_append_serialized serialized

/-- The file holds the frames of the logged entries and then `tail`. -/
structure Holds (bincode : Bincode) (tail : List UInt8)
    (events : List (LogOp × Except StorageError Unit)) (state : LogState)
    : Prop where
  roundTrips : ∀ entry ∈ logged events, bincode.RoundTrips entry
  contents : state.contents = (logged events).flatMap (frame bincode) ++ tail

theorem holds_fresh (bincode : Bincode) : Holds bincode [] [] LogState.fresh :=
  ⟨List.forall_mem_nil _, rfl⟩

section Calls

variable {bincode : Bincode} {tail : List UInt8}
  {events : List (LogOp × Except StorageError Unit)} {state : LogState}

/-- Opening the file again changes nothing in it. -/
theorem Holds.create (holds : Holds bincode tail events state)
    : Holds bincode tail (events ++ [(.create, (state.step bincode .create).1)])
        (state.step bincode .create).2 := by
  have same : logged (events ++ [(.create, (state.step bincode .create).1)]) = logged events := by
    simp [logged]
  obtain ⟨roundTrips, contents⟩ := holds
  rw [← same] at roundTrips contents
  exact ⟨roundTrips, contents⟩

/-- Truncating forgets the entries and the tail. -/
theorem holds_truncate (bincode : Bincode) (events : List (LogOp × Except StorageError Unit))
    (state : LogState)
    : Holds bincode [] (events ++ [(.truncate, (state.step bincode .truncate).1)])
        (state.step bincode .truncate).2 := by
  have empty : logged (events ++ [(.truncate, (state.step bincode .truncate).1)]) = [] := by
    simp [logged, LogState.step, WriteAheadLog.truncate, LogState.settle]
  refine ⟨?_, ?_⟩
  · rw [empty]
    exact List.forall_mem_nil _
  · rw [empty]
    rfl

/-- An append without a fault behind whole frames adds one more. -/
theorem Holds.append (holds : Holds bincode [] events state) {entry : WALEntry}
    (serializable : bincode.RoundTrips entry)
    : Holds bincode []
        (events ++ [(.append entry none, (state.step bincode (.append entry none)).1)])
        (state.step bincode (.append entry none)).2 := by
  have longer : logged (events ++ [(.append entry none, .ok ())]) = logged events ++ [entry] := by
    simp [logged]
  rw [state.step_append serializable]
  refine ⟨?_, ?_⟩
  · rw [longer]
    exact List.forall_mem_append.mpr ⟨holds.roundTrips, List.forall_mem_singleton.mpr serializable⟩
  · rw [longer, holds.contents]
    simp

end Calls

/-- The file holds whole frames only, and every call so far returned `Ok`. -/
structure Intact (bincode : Bincode) (events : List (LogOp × Except StorageError Unit))
    (state : LogState)
    : Prop where
  holds : Holds bincode [] events state
  succeeded : ∀ event ∈ events, event.2 = .ok ()

theorem intact_fresh (bincode : Bincode) : Intact bincode [] LogState.fresh :=
  ⟨holds_fresh bincode, List.forall_mem_nil _⟩

/-- Every call without a fault keeps the file intact. -/
theorem Intact.step {bincode : Bincode} {events : List (LogOp × Except StorageError Unit)}
    {state : LogState} (intact : Intact bincode events state) (operation : LogOp)
    (sound : operation.Faultless ∧ operation.Serializable bincode)
    : Intact bincode (events ++ [(operation, (state.step bincode operation).1)])
        (state.step bincode operation).2 := by
  obtain ⟨holds, succeeded⟩ := intact
  have all {result : Except StorageError Unit} (ok : result = .ok ())
      : ∀ event ∈ events ++ [(operation, result)], event.2 = .ok () :=
    List.forall_mem_append.mpr ⟨succeeded, List.forall_mem_singleton.mpr ok⟩
  cases operation with
  | create => exact ⟨holds.create, all rfl⟩
  | truncate => exact ⟨holds_truncate bincode events state, all rfl⟩
  | append entry fault =>
      obtain ⟨rfl, serializable⟩ := sound
      refine ⟨holds.append serializable, all ?_⟩
      rw [state.step_append serializable]

-----------------------------------------------------------------------------------------
-- What a callback receives
-----------------------------------------------------------------------------------------

/-- A callback that records every entry it is given and answers by its position. -/
def deliver (verdict : Nat → Except StorageError Unit) (entry : WALEntry)
    : EStateM StorageError (List WALEntry) Unit :=
  fun delivered =>
    match verdict delivered.length with
    | .ok _ => .ok () (delivered ++ [entry])
    | .error error => .error error (delivered ++ [entry])

/-- A callback that accepts all entries is given all of them, by induction on the entries. -/
theorem forM_deliver_ok {verdict : Nat → Except StorageError Unit} {entries : List WALEntry}
    (delivered : List WALEntry)
    (accepts : ∀ position < entries.length, verdict (delivered.length + position) = .ok ())
    : forM entries (deliver verdict) delivered = .ok () (delivered ++ entries) := by
  induction entries generalizing delivered with
  | nil => rw [List.append_nil]; rfl
  | cons entry others ih =>
      have accepted : verdict delivered.length = .ok () := accepts 0 (Nat.zero_lt_succ _)
      have first : deliver verdict entry delivered = .ok () (delivered ++ [entry]) := by
        simp only [deliver, accepted]
      have later := ih (delivered ++ [entry]) (by
        intro position inside
        have shifted := accepts (position + 1) (Nat.succ_lt_succ inside)
        rwa [List.length_append, List.length_singleton, Nat.add_assoc, Nat.add_comm 1])
      rw [List.forM_cons, bind_ok first, later, List.append_assoc, List.singleton_append]

/-- A callback that refuses an entry is given the entries up to it, by induction on the
entries.
-/
theorem forM_deliver_error {verdict : Nat → Except StorageError Unit} {entries : List WALEntry}
    {refused : Nat} {error : StorageError} (delivered : List WALEntry)
    (inside : refused < entries.length)
    (accepts : ∀ position < refused, verdict (delivered.length + position) = .ok ())
    (refuses : verdict (delivered.length + refused) = .error error)
    : forM entries (deliver verdict) delivered
      = .error error (delivered ++ entries.take (refused + 1)) := by
  induction entries generalizing delivered refused with
  | nil => exact absurd inside (Nat.not_lt_zero _)
  | cons entry others ih =>
      rw [List.forM_cons]
      cases refused with
      | zero =>
          have refusal : verdict delivered.length = .error error := refuses
          have first : deliver verdict entry delivered = .error error (delivered ++ [entry]) := by
            simp only [deliver, refusal]
          rw [bind_error first, Nat.zero_add, List.take_succ_cons, List.take_zero]
      | succ refused =>
          have accepted : verdict delivered.length = .ok () := accepts 0 (Nat.zero_lt_succ _)
          have first : deliver verdict entry delivered = .ok () (delivered ++ [entry]) := by
            simp only [deliver, accepted]
          have shift (position : Nat)
              : verdict ((delivered ++ [entry]).length + position)
                = verdict (delivered.length + (position + 1)) := by
            rw [List.length_append, List.length_singleton, Nat.add_assoc, Nat.add_comm 1]
          have later := ih (delivered ++ [entry]) (Nat.lt_of_succ_lt_succ inside)
            (fun position before => (shift position).trans
              (accepts (position + 1) (Nat.succ_lt_succ before)))
            ((shift refused).trans refuses)
          rw [bind_ok first, later, List.append_assoc, List.singleton_append,
            List.take_succ_cons]

/-- After any run without an I/O failure every call has returned `Ok` and replay passes the
logged entries to the callback, whatever it is: all of them in order with their number as the
result, or up to the first one that it refuses, with its error. The file stays as it is.
-/
theorem replay_returns_logged (bincode : Bincode) (operations : List LogOp)
    (faultless : ∀ operation ∈ operations, operation.Faultless)
    (serializable : ∀ operation ∈ operations, operation.Serializable bincode)
    : let state := after (LogState.step bincode) LogState.fresh operations
      let events := history (LogState.step bincode) LogState.fresh operations
      (∀ event ∈ events, event.2 = .ok ())
      ∧ (∀ (σ : Type) (callback : WALEntry → EStateM StorageError σ Unit),
          WriteAheadLog.replay bincode (some state.contents) callback
            = forM (logged events) callback >>= fun _ => pure (logged events).length)
      ∧ (∀ verdict,
          (∀ position < (logged events).length, verdict position = .ok ())
          → WriteAheadLog.replay bincode (some state.contents) (deliver verdict) []
            = .ok (logged events).length (logged events))
      ∧ ∀ verdict refused error,
          refused < (logged events).length
          → (∀ position < refused, verdict position = .ok ())
          → verdict refused = .error error
          → WriteAheadLog.replay bincode (some state.contents) (deliver verdict) []
            = .error error ((logged events).take (refused + 1)) := by
  intro state events
  have allowed := (allSteps_true (LogState.step bincode) LogState.fresh operations).and_forall
    fun operation member => And.intro (faultless operation member) (serializable operation member)
  have intact : Intact bincode events state :=
    run_invariant_of_steps _ (Intact bincode)
      (fun intact operation met => intact.step operation met.2) (intact_fresh bincode) allowed
  have replayed (σ : Type) (callback : WALEntry → EStateM StorageError σ Unit)
      : WriteAheadLog.replay bincode (some state.contents) callback
        = forM (logged events) callback >>= fun _ => pure (logged events).length := by
    rw [intact.holds.contents, List.append_nil]
    exact replay_frames callback intact.holds.roundTrips
  refine ⟨intact.succeeded, replayed, ?_, ?_⟩
  · intro verdict accepts
    have delivered := forM_deliver_ok []
      (by simpa using accepts : ∀ position < (logged events).length, _ = _)
    rw [replayed, bind_ok delivered]
    rfl
  · intro verdict refused error inside accepts refuses
    have delivered := forM_deliver_error [] inside (by simpa using accepts)
      (by simpa using refuses)
    rw [replayed, bind_error delivered, List.nil_append]

theorem replay_returns_logged_sample
    : let entry (timestamp : UInt64) : WALEntry := ⟨"metric", ⟨timestamp, ⟨1⟩⟩, timestamp⟩
      let operations : List LogOp := [
        .append (entry 1) none, .truncate, .append (entry 2) none, .create,
        .append (entry 3) none
      ]
      let state := after (LogState.step fixedIntBincode) LogState.fresh operations
      WriteAheadLog.replay fixedIntBincode (some state.contents) (deliver fun _ => .ok ()) []
        = .ok 2 [entry 2, entry 3] := by
  intro entry operations state
  have serializable (timestamp : UInt64) : fixedIntBincode.RoundTrips (entry timestamp) :=
    fixedIntBincode_roundTrips_metric _ _
  exact (replay_returns_logged fixedIntBincode operations
    (by simp [operations, LogOp.Faultless])
    (by simp [operations, LogOp.Serializable, serializable])).2.2.1 _ fun _ _ => rfl

end GorillaTsdb.Storage
