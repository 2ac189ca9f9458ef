import GorillaTsdb.Foundations.PrefixCodes
import GorillaTsdb.Storage.WalRuns

/-! Logs with an append that reached the file only in part.
A torn frame at the end of the file keeps the frames before it readable. Nothing marks where
it ends, so whatever is appended behind it is read as the rest of the torn frame.
-/

namespace GorillaTsdb.Storage

open Foundations.EventHistories
open Foundations.LittleEndian
open Foundations.PrefixCodes
open Foundations.TokenStreams (bind_ok)

-----------------------------------------------------------------------------------------
-- Torn frames
-----------------------------------------------------------------------------------------

theorem length_toLeBytes (value : UInt32) : (toLeBytes value).length = 4 :=
  length_leBytes 4 value.toNat

/-- An append whose fault strikes inside the frame leaves the bytes in front of the fault. -/
theorem LogState.step_append_torn (self : LogState) {bincode : Bincode} {entry : WALEntry}
    (roundTrips : bincode.RoundTrips entry) {fault : WriteFault}
    (torn : fault.room < (frame bincode entry).length)
    : self.step bincode (.append entry (some fault))
      = (.error (.ioError fault.error),
          {
            log := self.log
            contents := self.contents ++ (frame bincode entry).take fault.room
          }) := by
  obtain ⟨encoded, serialized, -, -⟩ := roundTrips
  have width := length_toLeBytes (UInt32.ofNat encoded.length)
  simp only [frame, serialized, List.length_append, width] at torn
  by_cases inLength : 4 ≤ fault.room
  · have inBody : ¬ encoded.length ≤ fault.room - 4 := by omega
    simp only [LogState.step, WriteAheadLog.append, serialized, LogFile.writeAll, width,
      inLength, inBody, if_true, if_false, LogState.settle, frame, List.append_assoc,
      List.take_append, List.take_of_length_le (width.trans_le inLength)]
  · have before : fault.room ≤ (toLeBytes (UInt32.ofNat encoded.length)).length := by omega
    simp only [LogState.step, WriteAheadLog.append, serialized, LogFile.writeAll, width,
      inLength, if_false, LogState.settle, frame, List.take_append_of_le_length before]

/-- A torn frame with a whole length makes replay fail. -/
theorem replayLoop_torn {σ : Type} {bincode : Bincode}
    (callback : WALEntry → EStateM StorageError σ Unit) {entry : WALEntry}
    (roundTrips : bincode.RoundTrips entry) {room : Nat} (inBody : 4 ≤ room)
    (torn : room < (frame bincode entry).length) (count : Nat)
    : WriteAheadLog.replayLoop bincode callback ((frame bincode entry).take room) count
      = throw
          (.ioError { kind := .unexpectedEof, message := "failed to fill whole buffer" }) := by
  obtain ⟨encoded, serialized, short, -⟩ := roundTrips
  have width := length_toLeBytes (UInt32.ofNat encoded.length)
  have len : (fromLeBytes (toLeBytes (UInt32.ofNat encoded.length))).toNat = encoded.length := by
    rw [fromLeBytes_toLeBytes, UInt32.toNat_ofNat', Nat.mod_eq_of_lt short]
  simp only [frame, serialized, List.length_append, width] at torn
  have split : (frame bincode entry).take room
      = toLeBytes (UInt32.ofNat encoded.length) ++ encoded.take (room - 4) := by
    simp only [frame, serialized, List.take_append, width,
      List.take_of_length_le (width.trans_le inBody)]
  have missing : (encoded.take (room - 4)).length < encoded.length := by
    rw [List.length_take]
    omega
  rw [replayLoop_eq, split]
  simp only [readExact_length, len, readExact_short missing]

-----------------------------------------------------------------------------------------
-- A crash during the last append
-----------------------------------------------------------------------------------------

/-- Appends without a fault, one for each entry. -/
def appends (entries : List WALEntry) : List LogOp :=
  entries.map fun entry => .append entry none

/-- Appending entries without a fault writes their frames, by induction on the entries. -/
theorem contents_appends {bincode : Bincode} {entries : List WALEntry}
    (roundTrips : ∀ entry ∈ entries, bincode.RoundTrips entry) (state : LogState)
    : (after (LogState.step bincode) state (appends entries)).contents
      = state.contents ++ entries.flatMap (frame bincode) := by
  induction entries generalizing state with
  | nil => exact (List.append_nil _).symm
  | cons entry others ih =>
      obtain ⟨first, later⟩ := List.forall_mem_cons.mp roundTrips
      have rest := ih later (state.step bincode (.append entry none)).2
      rw [state.step_append first] at rest
      rw [appends, List.map_cons, after, state.step_append first, List.flatMap_cons,
        ← List.append_assoc]
      exact rest

/-- When the append after `entries` stopped `room` bytes into its frame, replay passes on the
entries and returns their number exactly if the frame is torn inside its length.
-/
theorem replay_torn_iff (bincode : Bincode) (entries : List WALEntry) (entry : WALEntry)
    (fault : WriteFault) (roundTrips : ∀ entry ∈ entries, bincode.RoundTrips entry)
    (lastRoundTrips : bincode.RoundTrips entry)
    (torn : fault.room < (frame bincode entry).length)
    : let state := after (LogState.step bincode) LogState.fresh
        (appends entries ++ [.append entry (some fault)])
      WriteAheadLog.replay bincode (some state.contents) (deliver fun _ => .ok ()) []
          = .ok entries.length entries
        ↔ fault.room < 4 := by
  intro state
  have contents : state.contents
      = entries.flatMap (frame bincode) ++ (frame bincode entry).take fault.room := by
    have whole := contents_appends roundTrips LogState.fresh
    simp only [state, after_append, after, LogState.step_append_torn _ lastRoundTrips torn, whole]
    rfl
  have delivered : forM entries (deliver fun _ => .ok ()) [] = .ok () entries :=
    forM_deliver_ok [] fun _ _ => rfl
  rw [contents, WriteAheadLog.replay, replayLoop_frames _ roundTrips, Nat.zero_add,
    bind_ok delivered]
  by_cases inLength : fault.room < 4
  · have short : ((frame bincode entry).take fault.room).length < 4 := by
      rw [List.length_take]
      omega
    rw [replayLoop_short _ short]
    exact iff_of_true rfl inLength
  · rw [replayLoop_torn _ lastRoundTrips (Nat.le_of_not_lt inLength) torn]
    refine iff_of_false ?_ inLength
    intro returned
    change EStateM.Result.error _ _ = _ at returned
    cases returned

theorem replay_torn_iff_sample
    : let entry (timestamp : UInt64) : WALEntry := ⟨"metric", ⟨timestamp, ⟨1⟩⟩, timestamp⟩
      let state := after (LogState.step fixedIntBincode) LogState.fresh
        (appends [entry 1]
          ++ [.append (entry 2) (some { room := 3, error := ⟨.other, "no space left"⟩ })])
      WriteAheadLog.replay fixedIntBincode (some state.contents) (deliver fun _ => .ok ()) []
        = .ok 1 [entry 1] := by
  intro entry state
  have serializable (timestamp : UInt64) : fixedIntBincode.RoundTrips (entry timestamp) :=
    fixedIntBincode_roundTrips_metric _ _
  exact (replay_torn_iff fixedIntBincode [entry 1] (entry 2) _
    (by simp [serializable]) (serializable 2) (by decide)).mpr (by decide)

/-- A log that was torn right behind the length of its only frame cannot be replayed. -/
theorem replay_fails_on_torn_body
    : ¬ (∀ (bincode : Bincode) (entries : List WALEntry) (entry : WALEntry) (fault : WriteFault),
          (∀ entry ∈ entries, bincode.RoundTrips entry)
          → bincode.RoundTrips entry
          → fault.room < (frame bincode entry).length
          → WriteAheadLog.replay bincode
              (some
                (after (LogState.step bincode) LogState.fresh
                  (appends entries ++ [.append entry (some fault)])).contents)
              (deliver fun _ => .ok ()) []
            = .ok entries.length entries) := by
  intro replayed
  let entry : WALEntry := ⟨"metric", ⟨1, ⟨1⟩⟩, 1⟩
  have serializable : fixedIntBincode.RoundTrips entry :=
    fixedIntBincode_roundTrips_metric _ _
  let fault : WriteFault := { room := 4, error := ⟨.other, "no space left"⟩ }
  have torn : fault.room < (frame fixedIntBincode entry).length := by decide
  have returned := replayed fixedIntBincode [] entry fault (by simp) serializable torn
  have contents : (after (LogState.step fixedIntBincode) LogState.fresh
      (appends [] ++ [.append entry (some fault)])).contents
      = (frame fixedIntBincode entry).take 4 := by
    simp only [appends, List.map_nil, List.nil_append, after,
      LogState.step_append_torn _ serializable torn]
    rfl
  rw [contents, WriteAheadLog.replay, replayLoop_torn _ serializable (Nat.le_refl 4) torn]
    at returned
  change EStateM.Result.error _ _ = _ at returned
  cases returned

-----------------------------------------------------------------------------------------
-- Appends after a failed one
-----------------------------------------------------------------------------------------

/-- A frame of a serializable entry does not begin another one: the length at its start fixes
its end, and its encoding fixes the entry.
-/
theorem frame_prefixFree (bincode : Bincode)
    : PrefixFree (frame bincode) bincode.RoundTrips := by
  intro first second left right firstRoundTrips secondRoundTrips same
  obtain ⟨encoded, serialized, short, deserialized⟩ := firstRoundTrips
  obtain ⟨other, otherSerialized, otherShort, otherDeserialized⟩ := secondRoundTrips
  simp only [frame, serialized, otherSerialized, List.append_assoc] at same
  obtain ⟨headers, bodies⟩ := List.append_inj same
    ((length_toLeBytes _).trans (length_toLeBytes _).symm)
  have lengths : encoded.length = other.length := by
    have sameLength := congrArg (UInt32.toNat ∘ fromLeBytes) headers
    simpa only [Function.comp_apply, fromLeBytes_toLeBytes, UInt32.toNat_ofNat',
      Nat.mod_eq_of_lt short, Nat.mod_eq_of_lt otherShort] using sameLength
  obtain ⟨rfl, rest⟩ := List.append_inj bodies lengths
  exact ⟨Except.ok.inj (deserialized.symm.trans otherDeserialized), rest⟩

/-- A fault stops an append behind its first byte and in front of its last one. -/
def LogOp.Interrupted (bincode : Bincode) : LogOp → Prop
  | .append entry (some fault) => 0 < fault.room ∧ fault.room < (frame bincode entry).length
  | _ => True

/-- The file consists of whole frames. -/
def LogState.Whole (bincode : Bincode) (self : LogState) : Prop :=
  ∃ entries : List WALEntry,
    (∀ entry ∈ entries, bincode.RoundTrips entry)
    ∧ self.contents = entries.flatMap (frame bincode)

/-- An append finds a file of whole frames. -/
def AppendsToWhole (bincode : Bincode) (state : LogState) : LogOp → Prop
  | .append _ _ => state.Whole bincode
  | _ => True

/-- The entries that replay passes to a callback that accepts all of them. -/
def delivered (bincode : Bincode) (contents : List UInt8) : List WALEntry :=
  (outcome
    (WriteAheadLog.replay bincode (some contents) (deliver fun _ => .ok ()) [])).2

/-- What may follow the whole frames of a file: nothing, or the start of one more. -/
def TornTail (bincode : Bincode) (tail : List UInt8) : Prop :=
  tail = []
  ∨ ∃ entry room,
      bincode.RoundTrips entry
      ∧ room < (frame bincode entry).length
      ∧ tail = (frame bincode entry).take room

/-- Replay of a tail ends, or fails, before the callback is called. -/
theorem TornTail.silent {bincode : Bincode} {tail : List UInt8} (torn : TornTail bincode tail)
    {σ : Type} (callback : WALEntry → EStateM StorageError σ Unit) (count : Nat) (state : σ)
    : (outcome (WriteAheadLog.replayLoop bincode callback tail count state)).2 = state := by
  by_cases short : tail.length < 4
  · rw [replayLoop_short callback short]
    rfl
  · rcases torn with rfl | ⟨entry, room, roundTrips, proper, rfl⟩
    · exact absurd (by decide) short
    · rw [List.length_take] at short
      rw [replayLoop_torn callback roundTrips (by omega) proper]
      rfl

/-- Replay passes on the entries of the whole frames; the tail adds nothing. -/
theorem delivered_frames {bincode : Bincode} {entries : List WALEntry} {tail : List UInt8}
    (roundTrips : ∀ entry ∈ entries, bincode.RoundTrips entry)
    (torn : TornTail bincode tail)
    : delivered bincode (entries.flatMap (frame bincode) ++ tail) = entries := by
  have accepted : forM entries (deliver fun _ => .ok ()) [] = .ok () entries :=
    forM_deliver_ok [] fun _ _ => rfl
  rw [delivered, WriteAheadLog.replay, replayLoop_frames _ roundTrips, bind_ok accepted]
  exact torn.silent _ _ entries

/-- The file holds the frames of the logged entries and a tail that replay ignores. -/
def Recoverable (bincode : Bincode) (events : List (LogOp × Except StorageError Unit))
    (state : LogState)
    : Prop :=
  ∃ tail, TornTail bincode tail ∧ Holds bincode tail events state

theorem recoverable_fresh (bincode : Bincode) : Recoverable bincode [] LogState.fresh :=
  ⟨[], .inl rfl, holds_fresh bincode⟩

section Calls

variable {bincode : Bincode} {events : List (LogOp × Except StorageError Unit)}
  {state : LogState}

/-- A recoverable file that consists of whole frames holds those of the logged entries only:
a torn frame does not complete them to a sequence of frames.
-/
theorem Recoverable.holds_of_whole (recoverable : Recoverable bincode events state)
    (whole : state.Whole bincode)
    : Holds bincode [] events state := by
  obtain ⟨tail, torn, holds⟩ := recoverable
  obtain ⟨entries, entriesRoundTrip, frames⟩ := whole
  rcases torn with rfl | ⟨entry, room, lastRoundTrips, proper, rfl⟩
  · exact holds
  · have empty := (frame_prefixFree bincode).take_eq_nil holds.roundTrips entriesRoundTrip
      lastRoundTrips proper (holds.contents.symm.trans frames)
    rwa [empty] at holds

/-- An append that stops inside its frame leaves the start of the frame behind the others. -/
theorem Holds.append_torn (holds : Holds bincode [] events state) {entry : WALEntry}
    (serializable : bincode.RoundTrips entry) {fault : WriteFault}
    (inside : fault.room < (frame bincode entry).length)
    : Holds bincode ((frame bincode entry).take fault.room)
        (events
          ++ [(.append entry (some fault), (state.step bincode (.append entry (some fault))).1)])
        (state.step bincode (.append entry (some fault))).2 := by
  have same (error : StorageError)
      : logged (events ++ [(.append entry (some fault), .error error)]) = logged events := by
    simp [logged]
  rw [state.step_append_torn serializable inside]
  refine ⟨?_, ?_⟩
  · rw [same]
    exact holds.roundTrips
  · rw [same, holds.contents, List.append_nil]

/-- Every call that does not append to a torn frame keeps the file recoverable. -/
theorem Recoverable.step (recoverable : Recoverable bincode events state) (operation : LogOp)
    (whole : AppendsToWhole bincode state operation)
    (sound : operation.Interrupted bincode ∧ operation.Serializable bincode)
    : Recoverable bincode (events ++ [(operation, (state.step bincode operation).1)])
        (state.step bincode operation).2 := by
  cases operation with
  | create =>
      obtain ⟨tail, torn, holds⟩ := recoverable
      exact ⟨tail, torn, holds.create⟩
  | truncate => exact ⟨[], .inl rfl, holds_truncate bincode events state⟩
  | append entry fault =>
      have holds := recoverable.holds_of_whole whole
      obtain ⟨interrupted, serializable⟩ := sound
      cases fault with
      | none => exact ⟨[], .inl rfl, holds.append serializable⟩
      | some fault =>
          exact ⟨_, .inr ⟨entry, fault.room, serializable, interrupted.2, rfl⟩,
            holds.append_torn serializable interrupted.2⟩

end Calls

/-- In every run in which appends may stop inside their frame, but none is issued while the
file ends in a torn frame, replay delivers the entries whose append returned `Ok`, each once
and in order.
-/
theorem replay_delivers_acknowledged (bincode : Bincode) (operations : List LogOp)
    (interrupted : ∀ operation ∈ operations, operation.Interrupted bincode)
    (serializable : ∀ operation ∈ operations, operation.Serializable bincode)
    (whole : AllSteps (LogState.step bincode) (AppendsToWhole bincode) LogState.fresh operations)
    : delivered bincode (after (LogState.step bincode) LogState.fresh operations).contents
      = logged (history (LogState.step bincode) LogState.fresh operations) := by
  have allowed := whole.and_forall fun operation member =>
    And.intro (interrupted operation member) (serializable operation member)
  have recoverable := run_invariant_of_steps _ (Recoverable bincode)
    (fun recoverable operation met => recoverable.step operation met.1 met.2)
    (recoverable_fresh bincode) allowed
  obtain ⟨tail, torn, holds⟩ := recoverable
  rw [List.nil_append] at holds
  rw [holds.contents]
  exact delivered_frames holds.roundTrips torn

/-- Witness: the second append fails, and the third one is acknowledged behind a truncation. -/
theorem replay_delivers_acknowledged_sample
    : let entry (timestamp : UInt64) : WALEntry := ⟨"metric", ⟨timestamp, ⟨1⟩⟩, timestamp⟩
      let operations : List LogOp := [
        .append (entry 1) none,
        .append (entry 2) (some { room := 30, error := ⟨.other, "no space left"⟩ }),
        .create,
        .truncate,
        .append (entry 3) none
      ]
      delivered fixedIntBincode
          (after (LogState.step fixedIntBincode) LogState.fresh operations).contents
        = [entry 3] := by
  intro entry operations
  have serializable (timestamp : UInt64) : fixedIntBincode.RoundTrips (entry timestamp) :=
    fixedIntBincode_roundTrips_metric _ _
  have inside : 30 < (frame fixedIntBincode (entry 2)).length := by decide
  have first : (LogState.fresh.step fixedIntBincode (.append (entry 1) none)).2.contents
      = [entry 1].flatMap (frame fixedIntBincode) := by
    rw [LogState.fresh.step_append (serializable 1), List.flatMap_singleton]
    rfl
  exact replay_delivers_acknowledged fixedIntBincode operations
    (by simpa [operations, LogOp.Interrupted] using inside)
    (by simp [operations, LogOp.Serializable, serializable])
    ⟨⟨[], by simp, rfl⟩, ⟨[entry 1], by simp [serializable], first⟩, trivial, trivial,
      ⟨[], by simp, rfl⟩, trivial⟩

/-- One byte of a torn frame in front of an acknowledged one shifts its length by a byte, and
the read behind it fails.
-/
theorem replay_loses_acknowledged
    : ¬ (∀ (bincode : Bincode) (operations : List LogOp),
          (∀ operation ∈ operations, operation.Interrupted bincode)
          → (∀ operation ∈ operations, operation.Serializable bincode)
          → delivered bincode (after (LogState.step bincode) LogState.fresh operations).contents
            = logged (history (LogState.step bincode) LogState.fresh operations)) := by
  intro delivers
  let entry (timestamp : UInt64) : WALEntry := ⟨"metric", ⟨timestamp, ⟨1⟩⟩, timestamp⟩
  let fault : WriteFault := { room := 1, error := ⟨.other, "no space left"⟩ }
  have serializable (timestamp : UInt64) : fixedIntBincode.RoundTrips (entry timestamp) :=
    fixedIntBincode_roundTrips_metric _ _
  have inside : fault.room < (frame fixedIntBincode (entry 1)).length := by decide
  have missed := delivers fixedIntBincode [.append (entry 1) (some fault), .append (entry 2) none]
    (by simpa [LogOp.Interrupted, fault] using inside)
    (by simp [LogOp.Serializable, serializable])
  simp only [after, history, LogState.step_append_torn _ (serializable 1) inside,
    LogState.step_append _ (serializable 2)] at missed
  have garbled : delivered fixedIntBincode
      (LogState.fresh.contents ++ (frame fixedIntBincode (entry 1)).take 1
        ++ frame fixedIntBincode (entry 2)) = [] := by
    have shifted : LogState.fresh.contents ++ (frame fixedIntBincode (entry 1)).take 1
        ++ frame fixedIntBincode (entry 2)
        = [38, 38, 0, 0] ++ 0 :: (frame fixedIntBincode (entry 2)).drop 4 := by
      decide
    have short : (0 :: (frame fixedIntBincode (entry 2)).drop 4).length
        < (fromLeBytes [38, 38, 0, 0]).toNat := by decide
    have header := readExact_append [38, 38, 0, 0]
      (0 :: (frame fixedIntBincode (entry 2)).drop 4)
    rw [delivered, WriteAheadLog.replay, shifted, replayLoop_eq]
    simp only [show readExact 4 _ = _ from header, readExact_short short]
    rfl
  rw [garbled] at missed
  exact absurd missed (by decide)

end GorillaTsdb.Storage
