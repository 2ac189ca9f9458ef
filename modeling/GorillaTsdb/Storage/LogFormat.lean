import GorillaTsdb.Foundations.IncrementalParsing
import GorillaTsdb.Storage.WalCrashes

/-! The format of the log as replay reads it, for files with any bytes in them.
A file is cut into frames from the front, in one way only, until no further frame is found. What
the tail looks like decides how replay ends; a file that grows never changes what was read.
-/

namespace GorillaTsdb.Storage

open Foundations.EventHistories
open Foundations.IncrementalParsing
open Foundations.PrefixCodes
open Foundations.TokenStreams (bind_error bind_ok)

-----------------------------------------------------------------------------------------
-- Frames
-----------------------------------------------------------------------------------------

/-- Four bytes of length, and as many bytes that the serializer accepts. -/
def IsFrame (bincode : Bincode) (bytes : List UInt8) (entry : WALEntry) : Prop :=
  ∃ lenBytes payload,
    bytes = lenBytes ++ payload
    ∧ lenBytes.length = 4
    ∧ (fromLeBytes lenBytes).toNat = payload.length
    ∧ bincode.deserialize payload = .ok entry

/-- One round of the loop, without the callback and without a reason where it finds no entry. -/
def nextEntry (bincode : Bincode) (reader : List UInt8) : Option (WALEntry × List UInt8) :=
  match readExact 4 reader with
  | .error _ => none
  | .ok (lenBytes, body) =>
      match readExact (fromLeBytes lenBytes).toNat body with
      | .error _ => none
      | .ok (entryBytes, rest) =>
          match bincode.deserialize entryBytes with
          | .error _ => none
          | .ok entry => some (entry, rest)

/-- What a read leaves is what it did not take. -/
theorem append_of_readExact {count : Nat} {reader bytes rest : List UInt8}
    (read : readExact count reader = .ok (bytes, rest))
    : reader = bytes ++ rest ∧ bytes.length = count := by
  have enough := (length_of_readExact read).1
  rw [readExact, if_pos enough] at read
  obtain ⟨rfl, rfl⟩ := Prod.mk.inj (Except.ok.inj read)
  exact ⟨(List.take_append_drop count reader).symm, List.length_take_of_le enough⟩

theorem nextEntry_iff (bincode : Bincode) {reader rest : List UInt8} {entry : WALEntry}
    : nextEntry bincode reader = some (entry, rest)
      ↔ ∃ frame, IsFrame bincode frame entry ∧ reader = frame ++ rest := by
  constructor
  · intro found
    unfold nextEntry at found
    split at found
    case h_1 => cases found
    case h_2 lenBytes body header =>
      split at found
      case h_1 => cases found
      case h_2 entryBytes behind payload =>
        split at found
        case h_1 => cases found
        case h_2 other accepted =>
          obtain ⟨rfl, rfl⟩ := Prod.mk.inj (Option.some.inj found)
          obtain ⟨split, four⟩ := append_of_readExact header
          obtain ⟨cut, count⟩ := append_of_readExact payload
          refine ⟨lenBytes ++ entryBytes,
            ⟨lenBytes, entryBytes, rfl, four, count.symm, accepted⟩, ?_⟩
          rw [split, cut, List.append_assoc]
  · rintro ⟨_, ⟨lenBytes, payload, rfl, four, count, accepted⟩, rfl⟩
    have header := readExact_append lenBytes (payload ++ rest)
    rw [four] at header
    simp only [nextEntry, List.append_assoc, header, count, readExact_append, accepted]

/-- The log as a stream of frames. -/
def entryParser (bincode : Bincode) : ItemParser WALEntry UInt8 where
  next := nextEntry bincode
  IsFrame := IsFrame bincode
  nonempty := by
    rintro _ _ ⟨lenBytes, payload, rfl, four, -, -⟩ empty
    rw [(List.append_eq_nil_iff.mp empty).1] at four
    cases four
  next_iff := nextEntry_iff bincode

/-- What `append` writes is a frame. -/
theorem Bincode.RoundTrips.isFrame {bincode : Bincode} {entry : WALEntry}
    (roundTrips : bincode.RoundTrips entry)
    : IsFrame bincode (frame bincode entry) entry := by
  obtain ⟨encoded, serialized, short, deserialized⟩ := roundTrips
  refine ⟨toLeBytes (UInt32.ofNat encoded.length), encoded, ?_, length_toLeBytes _, ?_,
    deserialized⟩
  · simp only [frame, serialized]
  · rw [fromLeBytes_toLeBytes, UInt32.toNat_ofNat', Nat.mod_eq_of_lt short]

-----------------------------------------------------------------------------------------
-- The end of a file
-----------------------------------------------------------------------------------------

/-- What replay makes of a tail without a frame: the end of the file where a length is missing,
an error where the bytes behind a length are missing or are no entry.
-/
inductive Ends (bincode : Bincode) : List UInt8 → Except StorageError Unit → Prop where
  | short {tail : List UInt8} (short : tail.length < 4) : Ends bincode tail (.ok ())
  | cut {lenBytes body : List UInt8} (four : lenBytes.length = 4)
      (missing : body.length < (fromLeBytes lenBytes).toNat)
      : Ends bincode (lenBytes ++ body)
          (.error
            (.ioError { kind := .unexpectedEof, message := "failed to fill whole buffer" }))
  | rejected {lenBytes payload rest : List UInt8} {message : String}
      (four : lenBytes.length = 4) (count : (fromLeBytes lenBytes).toNat = payload.length)
      (rejects : bincode.deserialize payload = .error message)
      : Ends bincode (lenBytes ++ (payload ++ rest))
          (.error
            (.ioError
              { kind := .invalidData, message := s!"Deserialization error: {message}" }))

/-- The loop returns its count, or fails. -/
def conclude {σ : Type} (ending : Except StorageError Unit) (count : Nat)
    : EStateM StorageError σ Nat :=
  match ending with
  | .ok _ => pure count
  | .error error => throw error

section Ending

variable {bincode : Bincode} {tail : List UInt8} {ending : Except StorageError Unit}

theorem Ends.stuck (ends : Ends bincode tail ending) : nextEntry bincode tail = none := by
  cases ends with
  | short short => simp only [nextEntry, readExact_short short]
  | @cut lenBytes body four missing =>
      have header := readExact_append lenBytes body
      rw [four] at header
      simp only [nextEntry, header, readExact_short missing]
  | @rejected lenBytes payload rest message four count rejects =>
      have header := readExact_append lenBytes (payload ++ rest)
      rw [four] at header
      simp only [nextEntry, header, count, readExact_append, rejects]

theorem exists_ends (stuck : nextEntry bincode tail = none)
    : ∃ ending, Ends bincode tail ending := by
  by_cases short : tail.length < 4
  · exact ⟨_, .short short⟩
  · have header : readExact 4 tail = .ok (tail.take 4, tail.drop 4) :=
      if_pos (Nat.le_of_not_lt short)
    obtain ⟨split, four⟩ := append_of_readExact header
    rw [split] at stuck ⊢
    by_cases missing : (tail.drop 4).length < (fromLeBytes (tail.take 4)).toNat
    · exact ⟨_, .cut four missing⟩
    · have payload : readExact (fromLeBytes (tail.take 4)).toNat (tail.drop 4) = .ok _ :=
        if_pos (Nat.le_of_not_lt missing)
      obtain ⟨cut, count⟩ := append_of_readExact payload
      rw [cut] at stuck ⊢
      cases parsed : bincode.deserialize
          ((tail.drop 4).take (fromLeBytes (tail.take 4)).toNat) with
      | error message => exact ⟨_, .rejected four count.symm parsed⟩
      | ok entry =>
          have framed : (entryParser bincode).IsFrame _ entry :=
            ⟨tail.take 4, _, rfl, four, count.symm, parsed⟩
          have found := (entryParser bincode).next_frame framed
            ((tail.drop 4).drop (fromLeBytes (tail.take 4)).toNat)
          rw [List.append_assoc] at found
          cases stuck.symm.trans found

/-- At its tail the loop ends as the tail says. -/
theorem Ends.replayLoop (ends : Ends bincode tail ending) {σ : Type}
    (callback : WALEntry → EStateM StorageError σ Unit) (count : Nat)
    : WriteAheadLog.replayLoop bincode callback tail count = conclude ending count := by
  cases ends with
  | short short => exact replayLoop_short callback short count
  | @cut lenBytes body four missing =>
      have header := readExact_append lenBytes body
      rw [four] at header
      simp only [replayLoop_eq, header, readExact_short missing]
      rfl
  | @rejected lenBytes payload rest message four fits rejects =>
      have header := readExact_append lenBytes (payload ++ rest)
      rw [four] at header
      simp only [replayLoop_eq, header, fits, readExact_append, rejects]
      rfl

/-- A tail ends in one way only, since replay does. -/
theorem Ends.unique (ends : Ends bincode tail ending) {other : Except StorageError Unit}
    (otherEnds : Ends bincode tail other)
    : ending = other := by
  have first := ends.replayLoop (σ := Unit) (fun _ => pure ()) 0
  have second := otherEnds.replayLoop (σ := Unit) (fun _ => pure ()) 0
  have same := congrFun (first.symm.trans second) ()
  cases ending <;> cases other <;> cases same <;> rfl

end Ending

-----------------------------------------------------------------------------------------
-- Whole files
-----------------------------------------------------------------------------------------

/-- Replay passes on the entry of a frame, whoever wrote it, and goes on behind it. -/
theorem replayLoop_isFrame {bincode : Bincode} {σ : Type}
    (callback : WALEntry → EStateM StorageError σ Unit) {bytes : List UInt8} {entry : WALEntry}
    (framed : IsFrame bincode bytes entry) (rest : List UInt8) (count : Nat)
    : WriteAheadLog.replayLoop bincode callback (bytes ++ rest) count
      = (do
          callback entry
          WriteAheadLog.replayLoop bincode callback rest (count + 1)) := by
  obtain ⟨lenBytes, payload, rfl, four, fits, accepted⟩ := framed
  have header := readExact_append lenBytes (payload ++ rest)
  rw [four] at header
  rw [replayLoop_eq, List.append_assoc, header]
  simp only [fits, readExact_append, accepted]

/-- Replay passes on the entries of all frames in front of a tail, by induction on them. -/
theorem replayLoop_isFrames {bincode : Bincode} {σ : Type}
    (callback : WALEntry → EStateM StorageError σ Unit) {frames : List (List UInt8)}
    {entries : List WALEntry} (framed : List.Forall₂ (IsFrame bincode) frames entries)
    (tail : List UInt8) (count : Nat)
    : WriteAheadLog.replayLoop bincode callback (frames.flatten ++ tail) count
      = (do
          forM entries callback
          WriteAheadLog.replayLoop bincode callback tail (count + entries.length)) := by
  induction framed generalizing count with
  | nil => simp
  | cons first _ ih =>
      rw [List.flatten_cons, List.append_assoc, replayLoop_isFrame callback first,
        List.forM_cons, ih, List.length_cons, Nat.add_assoc, Nat.add_comm 1, bind_assoc]

/-- A file cut into frames with entries, and a tail without a frame. -/
structure Decomposes (bincode : Bincode) (contents : List UInt8) (entries : List WALEntry)
    (tail : List UInt8) (ending : Except StorageError Unit)
    : Prop where
  framed
    : ∃ frames,
        List.Forall₂ (IsFrame bincode) frames entries ∧ contents = frames.flatten ++ tail
  ends : Ends bincode tail ending

theorem exists_decomposes (bincode : Bincode) (contents : List UInt8)
    : ∃ ending,
        Decomposes bincode contents ((entryParser bincode).read contents).1
          ((entryParser bincode).read contents).2 ending := by
  obtain ⟨frames, framed, cut, stuck⟩ := (entryParser bincode).exists_frames contents
  obtain ⟨ending, ends⟩ := exists_ends stuck
  exact ⟨ending, ⟨frames, framed, cut⟩, ends⟩

section Decomposes

variable {bincode : Bincode} {contents : List UInt8} {entries : List WALEntry}
  {tail : List UInt8} {ending : Except StorageError Unit}

theorem Decomposes.read_eq (decomposes : Decomposes bincode contents entries tail ending)
    : (entryParser bincode).read contents = (entries, tail) := by
  obtain ⟨⟨frames, framed, rfl⟩, ends⟩ := decomposes
  exact (entryParser bincode).read_eq framed ends.stuck

theorem Decomposes.replay (decomposes : Decomposes bincode contents entries tail ending)
    {σ : Type} (callback : WALEntry → EStateM StorageError σ Unit)
    : WriteAheadLog.replay bincode (some contents) callback
      = forM entries callback >>= fun _ => conclude ending entries.length := by
  obtain ⟨⟨frames, framed, rfl⟩, ends⟩ := decomposes
  have ran := replayLoop_isFrames callback framed tail 0
  simp only [Nat.zero_add, ends.replayLoop] at ran
  exact ran

end Decomposes

/-- A file with any bytes in it is cut into frames and a tail in exactly one way, with the entries
and the ending that they have, and replay passes the entries to any callback and then ends as the
tail says. It succeeds, where no entry is refused, exactly for files whose tail is too short for a
length.
-/
theorem replay_reads_any_file (bincode : Bincode) (contents : List UInt8)
    : (∃ entries tail ending,
        Decomposes bincode contents entries tail ending
        ∧ (∀ others rest other,
            Decomposes bincode contents others rest other
            → others = entries ∧ rest = tail ∧ other = ending)
        ∧ (∃! frames : List (List UInt8),
            List.Forall₂ (IsFrame bincode) frames entries ∧ contents = frames.flatten ++ tail)
        ∧ ∀ (σ : Type) (callback : WALEntry → EStateM StorageError σ Unit),
            WriteAheadLog.replay bincode (some contents) callback
            = forM entries callback >>= fun _ => conclude ending entries.length)
      ∧ ∀ entries count,
          WriteAheadLog.replay bincode (some contents) (deliver fun _ => .ok ()) []
            = .ok count entries
          ↔ count = entries.length
            ∧ ∃ frames tail,
                List.Forall₂ (IsFrame bincode) frames entries
                ∧ contents = frames.flatten ++ tail
                ∧ tail.length < 4 := by
  obtain ⟨found, tail, ending, decomposes⟩
      : ∃ entries tail ending, Decomposes bincode contents entries tail ending :=
    ⟨_, _, exists_decomposes bincode contents⟩
  refine ⟨⟨found, tail, ending, decomposes, ?_, ?_, fun _ => decomposes.replay⟩, ?_⟩
  · intro others rest other another
    obtain ⟨rfl, rfl⟩ := Prod.mk.inj (another.read_eq.symm.trans decomposes.read_eq)
    exact ⟨rfl, rfl, another.ends.unique decomposes.ends⟩
  · obtain ⟨frames, framed, cut⟩ := decomposes.framed
    refine ⟨frames, ⟨framed, cut⟩, ?_⟩
    rintro others ⟨othersFramed, othersCut⟩
    exact (entryParser bincode).frames_unique othersFramed framed (othersCut.symm.trans cut)
  · intro entries count
    constructor
    · intro returned
      have accepted : forM found (deliver fun _ => .ok ()) [] = .ok () found :=
        forM_deliver_ok [] fun _ _ => rfl
      rw [decomposes.replay, bind_ok accepted] at returned
      obtain ⟨⟨frames, framed, cut⟩, ends⟩ := decomposes
      cases ends with
      | short short =>
          obtain ⟨rfl, rfl⟩ := EStateM.Result.ok.inj returned
          exact ⟨rfl, frames, tail, framed, cut, short⟩
      | cut four missing => cases returned
      | rejected four count rejects => cases returned
    · rintro ⟨rfl, frames, tail, framed, cut, short⟩
      have whole : Decomposes bincode contents entries tail (.ok ()) :=
        ⟨⟨frames, framed, cut⟩, .short short⟩
      have accepted : forM entries (deliver fun _ => .ok ()) [] = .ok () entries :=
        forM_deliver_ok [] fun _ _ => rfl
      rw [whole.replay, bind_ok accepted]
      rfl

-----------------------------------------------------------------------------------------
-- Files that grow or are cut
-----------------------------------------------------------------------------------------

/-- A callback that records its entries forgets none, by induction on the entries. -/
theorem prefix_forM_deliver (verdict : Nat → Except StorageError Unit) (entries : List WALEntry)
    (delivered : List WALEntry)
    : delivered <+: (outcome (forM entries (deliver verdict) delivered)).2 := by
  induction entries generalizing delivered with
  | nil => exact List.prefix_rfl
  | cons entry rest ih =>
      have grows : delivered <+: delivered ++ [entry] := List.prefix_append _ _
      rw [List.forM_cons]
      cases answer : verdict delivered.length with
      | ok _ =>
          have passed : deliver verdict entry delivered = .ok () (delivered ++ [entry]) := by
            simp only [deliver, answer]
          rw [bind_ok passed]
          exact grows.trans (ih _)
      | error error =>
          have refused : deliver verdict entry delivered = .error error (delivered ++ [entry]) := by
            simp only [deliver, answer]
          rw [bind_error refused]
          exact grows

/-- More entries are handed over behind the earlier ones, or none are. -/
theorem prefix_forM_append (verdict : Nat → Except StorageError Unit)
    (entries more : List WALEntry) (delivered : List WALEntry)
    : (outcome (forM entries (deliver verdict) delivered)).2
      <+: (outcome (forM (entries ++ more) (deliver verdict) delivered)).2 := by
  rw [List.forM_append]
  cases ran : forM entries (deliver verdict) delivered with
  | ok result handed =>
      rw [bind_ok ran]
      exact prefix_forM_deliver verdict more handed
  | error error handed =>
      rewrite [bind_error ran]
      exact List.prefix_rfl

/-- The end of a file is not passed to the callback. -/
theorem outcome_bind_conclude {σ : Type} (program : EStateM StorageError σ Unit)
    (ending : Except StorageError Unit) (count : Nat) (state : σ)
    : (outcome ((program >>= fun _ => conclude ending count) state)).2
      = (outcome (program state)).2 := by
  cases ran : program state with
  | ok result later =>
      rw [bind_ok ran]
      cases ending <;> rfl
  | error error later =>
      rw [bind_error ran]
      rfl

theorem delivered_eq_read (bincode : Bincode) (contents : List UInt8)
    : delivered bincode contents = ((entryParser bincode).read contents).1 := by
  obtain ⟨ending, decomposes⟩ := exists_decomposes bincode contents
  have accepted : forM ((entryParser bincode).read contents).1 (deliver fun _ => .ok ()) []
      = .ok () ((entryParser bincode).read contents).1 :=
    forM_deliver_ok [] fun _ _ => rfl
  rw [delivered, decomposes.replay, outcome_bind_conclude, accepted]
  rfl

/-- Whatever is written behind a file, replay hands over what it handed over before, whether or
not the callback accepts it, and then perhaps more. Behind whole frames it reads what stands
there on its own.
-/
theorem replay_of_grown_file (bincode : Bincode) (contents more : List UInt8)
    : (∀ verdict,
        (outcome (WriteAheadLog.replay bincode (some contents) (deliver verdict) [])).2
        <+: (outcome
              (WriteAheadLog.replay bincode (some (contents ++ more)) (deliver verdict) [])).2)
      ∧ ∀ entries,
          Decomposes bincode contents entries [] (.ok ())
          → delivered bincode (contents ++ more) = entries ++ delivered bincode more := by
  constructor
  · intro verdict
    obtain ⟨ending, shorter⟩ := exists_decomposes bincode contents
    obtain ⟨later, longer⟩ := exists_decomposes bincode (contents ++ more)
    obtain ⟨others, grown⟩ := (entryParser bincode).read_grows (List.prefix_append contents more)
    rw [shorter.replay, longer.replay, outcome_bind_conclude, outcome_bind_conclude, ← grown]
    exact prefix_forM_append verdict _ others []
  · intro entries whole
    rw [delivered_eq_read, delivered_eq_read, (entryParser bincode).read_append, whole.read_eq]
    rfl

/-- After any run without an I/O failure, when the file is cut at any byte, replay hands over the
entries whose frames are still whole, in order, and nothing else.
-/
theorem replay_of_cut_file (bincode : Bincode) (operations : List LogOp)
    (faultless : ∀ operation ∈ operations, operation.Faultless)
    (serializable : ∀ operation ∈ operations, operation.Serializable bincode) (cut : Nat)
    : let state := after (LogState.step bincode) LogState.fresh operations
      let events := history (LogState.step bincode) LogState.fresh operations
      ∃ kept lost,
        logged events = kept ++ lost
        ∧ delivered bincode (state.contents.take cut) = kept
        ∧ (kept.flatMap (frame bincode)).length ≤ cut
        ∧ ∀ entry ∈ lost.head?, cut < ((kept ++ [entry]).flatMap (frame bincode)).length := by
  intro state events
  have allowed := (allSteps_true (LogState.step bincode) LogState.fresh operations).and_forall
    fun operation member => And.intro (faultless operation member) (serializable operation member)
  have intact : Intact bincode events state :=
    run_invariant_of_steps _ (Intact bincode)
      (fun intact operation met => intact.step operation met.2) (intact_fresh bincode) allowed
  obtain ⟨kept, lost, split, short, taken, torn⟩ :=
    take_flatMap (frame bincode) (logged events) cut
  have roundTrips := intact.holds.roundTrips
  rw [split] at roundTrips
  obtain ⟨keptRoundTrip, lostRoundTrip⟩ := List.forall_mem_append.mp roundTrips
  have contents : state.contents = (logged events).flatMap (frame bincode) :=
    intact.holds.contents.trans (List.append_nil _)
  have tail : TornTail bincode
      ((lost.flatMap (frame bincode)).take (cut - (kept.flatMap (frame bincode)).length)) := by
    cases lost with
    | nil => exact .inl (List.take_nil ..)
    | cons entry rest =>
        have inside := torn entry rfl
        refine .inr ⟨entry, _, lostRoundTrip entry List.mem_cons_self, inside, ?_⟩
        rw [List.flatMap_cons, List.take_append_of_le_length inside.le]
  refine ⟨kept, lost, split, ?_, short, ?_⟩
  · rw [contents, taken]
    exact delivered_frames keptRoundTrip tail
  · intro entry first
    have inside := torn entry first
    rw [List.flatMap_append, List.flatMap_singleton, List.length_append]
    omega

theorem replay_of_cut_file_sample
    : let entry (timestamp : UInt64) : WALEntry := ⟨"metric", ⟨timestamp, ⟨1⟩⟩, timestamp⟩
      let operations : List LogOp := [.append (entry 1) none, .append (entry 2) none]
      let state := after (LogState.step fixedIntBincode) LogState.fresh operations
      ∃ kept lost,
        [entry 1, entry 2] = kept ++ lost
        ∧ delivered fixedIntBincode (state.contents.take 50) = kept := by
  intro entry operations state
  have serializable (timestamp : UInt64) : fixedIntBincode.RoundTrips (entry timestamp) :=
    fixedIntBincode_roundTrips_metric _ _
  have logs : logged (history (LogState.step fixedIntBincode) LogState.fresh operations)
      = [entry 1, entry 2] := by
    simp only [operations, history, LogState.step_append _ (serializable _)]
    rfl
  obtain ⟨kept, lost, split, handed, -, -⟩ := replay_of_cut_file fixedIntBincode operations
    (by simp [operations, LogOp.Faultless])
    (by simp [operations, LogOp.Serializable, serializable]) 50
  exact ⟨kept, lost, logs.symm.trans split, handed⟩

end GorillaTsdb.Storage
