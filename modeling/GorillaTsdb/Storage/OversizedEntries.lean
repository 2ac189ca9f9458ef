import GorillaTsdb.Storage.WalCrashes

/-! Entries whose encoding is too long for the length in front of it.
Appending casts the length to 32 bits without a check, so such an entry is written behind the
remainder of its length, and replay goes on inside its bytes.
-/

namespace GorillaTsdb.Storage

open Foundations.EventHistories
open Foundations.LittleEndian

/-- The length in front of the appended bytes is the number of those bytes. -/
def PrefixCounts (bincode : Bincode) (state : LogState) (entry : WALEntry) : Prop :=
  ∀ later,
    state.step bincode (.append entry none) = (.ok (), later)
    → ∃ lenBytes payload,
        later.contents = state.contents ++ (lenBytes ++ payload)
        ∧ lenBytes.length = 4
        ∧ (fromLeBytes lenBytes).toNat = payload.length

/-- Appending the entry cannot break the frames of the log, when no write fails: an encoding
that is too long is refused and leaves the log as it is, the entries around it are replayed, and
a length is the number of bytes behind it.
-/
structure KeepsFraming (bincode : Bincode) (state : LogState) (entry : WALEntry)
    (encoded : List UInt8)
    : Prop where
  refuses
    : 2 ^ 32 ≤ encoded.length
      → ∃ error, state.step bincode (.append entry none) = (.error error, state)
  replays
    : 2 ^ 32 ≤ encoded.length
      → ∀ earlier others,
          (∀ other ∈ earlier ++ others, bincode.RoundTrips other)
          → state.contents = earlier.flatMap (frame bincode)
          → let appended := after (LogState.step bincode) state
              (.append entry none :: appends others)
            WriteAheadLog.replay bincode (some appended.contents) (deliver fun _ => .ok ()) []
            = .ok (earlier ++ others).length (earlier ++ others)
  counts : PrefixCounts bincode state entry

section Appending

variable {bincode : Bincode} {entry : WALEntry} {encoded : List UInt8}

/-- The length is right exactly if the cast kept it. -/
theorem prefixCounts_iff (serialized : bincode.serialize entry = .ok encoded) (state : LogState)
    : PrefixCounts bincode state entry ↔ encoded.length < 2 ^ 32 := by
  have written
      : (fromLeBytes (toLeBytes (UInt32.ofNat encoded.length))).toNat
        = encoded.length % 2 ^ 32 := by
    rw [fromLeBytes_toLeBytes, UInt32.toNat_ofNat']
  constructor
  · intro counts
    obtain ⟨lenBytes, payload, split, four, count⟩ :=
      counts _ (state.step_append_serialized serialized)
    rw [frame, serialized] at split
    obtain ⟨rfl, rfl⟩ := List.append_inj (List.append_cancel_left split)
      ((length_toLeBytes _).trans four.symm)
    rw [written] at count
    rw [← count]
    exact Nat.mod_lt _ (Nat.two_pow_pos 32)
  · intro short later appended
    rw [state.step_append_serialized serialized] at appended
    obtain ⟨-, rfl⟩ := Prod.mk.inj appended
    refine ⟨toLeBytes (UInt32.ofNat encoded.length), encoded, ?_, length_toLeBytes _, ?_⟩
    · simp only [frame, serialized]
    · rw [written, Nat.mod_eq_of_lt short]

/-- Appending an entry keeps the frames of any log exactly if its encoding is shorter than
2^32 bytes: a longer one is never refused.
-/
theorem keepsFraming_iff (serialized : bincode.serialize entry = .ok encoded) (state : LogState)
    : KeepsFraming bincode state entry encoded ↔ encoded.length < 2 ^ 32 := by
  constructor
  · intro keeps
    exact (prefixCounts_iff serialized state).mp keeps.counts
  · intro short
    exact {
      refuses := fun long => absurd short (Nat.not_lt.mpr long)
      replays := fun long => absurd short (Nat.not_lt.mpr long)
      counts := (prefixCounts_iff serialized state).mpr short
    }

theorem keepsFraming_iff_sample
    : ∃ encoded,
        fixedIntBincode.serialize ⟨"metric", ⟨1, ⟨1⟩⟩, 1⟩ = .ok encoded
        ∧ KeepsFraming fixedIntBincode LogState.fresh ⟨"metric", ⟨1, ⟨1⟩⟩, 1⟩ encoded := by
  obtain ⟨encoded, serialized, short, _⟩ := fixedIntBincode_roundTrips_metric ⟨1, ⟨1⟩⟩ 1
  exact ⟨encoded, serialized, (keepsFraming_iff serialized _).mpr short⟩

/-- Replay reads as many bytes of the entry as the cast left over and goes on behind them. -/
theorem replayLoop_cut (serialized : bincode.serialize entry = .ok encoded) {σ : Type}
    (callback : WALEntry → EStateM StorageError σ Unit) (rest : List UInt8) (count : Nat)
    : WriteAheadLog.replayLoop bincode callback (frame bincode entry ++ rest) count
      = match bincode.deserialize (encoded.take (encoded.length % 2 ^ 32)) with
        | .error error =>
            throw
              (.ioError
                { kind := .invalidData, message := s!"Deserialization error: {error}" })
        | .ok other =>
            callback other >>= fun _ =>
              WriteAheadLog.replayLoop bincode callback
                (encoded.drop (encoded.length % 2 ^ 32) ++ rest) (count + 1) := by
  have len : (fromLeBytes (toLeBytes (UInt32.ofNat encoded.length))).toNat
      = (encoded.take (encoded.length % 2 ^ 32)).length := by
    rw [fromLeBytes_toLeBytes, UInt32.toNat_ofNat', List.length_take,
      Nat.min_eq_left (Nat.mod_le _ _)]
  have body : encoded ++ rest
      = encoded.take (encoded.length % 2 ^ 32)
        ++ (encoded.drop (encoded.length % 2 ^ 32) ++ rest) := by
    rw [← List.append_assoc, List.take_append_drop]
  rw [replayLoop_eq, frame, serialized]
  cases parsed : bincode.deserialize (encoded.take (encoded.length % 2 ^ 32)) <;>
    simp only [List.append_assoc, readExact_length, len, body, readExact_append, parsed]

/-- Where the cast leaves a length of zero and no bytes are no entry, replay stops with an error
and passes on nothing of what was appended later.
-/
theorem replay_stops_at_zero_length (serialized : bincode.serialize entry = .ok encoded)
    (wraps : encoded.length % 2 ^ 32 = 0) {message : String}
    (rejects : bincode.deserialize [] = .error message) {others : List WALEntry}
    (roundTrips : ∀ other ∈ others, bincode.RoundTrips other)
    : let appended := after (LogState.step bincode) LogState.fresh
        (.append entry none :: appends others)
      ∃ error,
        WriteAheadLog.replay bincode (some appended.contents) (deliver fun _ => .ok ()) []
        = .error error [] := by
  intro appended
  have contents : appended.contents = frame bincode entry ++ others.flatMap (frame bincode) := by
    have later := contents_appends roundTrips
      (LogState.fresh.step bincode (.append entry none)).2
    rw [LogState.fresh.step_append_serialized serialized] at later
    have first : appended
        = after (LogState.step bincode) (LogState.fresh.step bincode (.append entry none)).2
          (appends others) := rfl
    rw [first, LogState.fresh.step_append_serialized serialized]
    exact later
  have stops := replayLoop_cut serialized (deliver fun _ => .ok ())
    (others.flatMap (frame bincode)) 0
  rw [wraps, List.take_zero, rejects, ← contents] at stops
  exact ⟨_, congrFun stops []⟩

end Appending

-----------------------------------------------------------------------------------------
-- An entry of 2^32 bytes
-----------------------------------------------------------------------------------------

/-- An entry with a key of `length` letters. -/
def keyedEntry (length : Nat) : WALEntry where
  key := String.ofList (List.replicate length 'a')
  point := { timestamp := 1, value := ⟨1⟩ }
  timestamp := 1

theorem length_keyBytes_replicate (length : Nat)
    : (keyBytes (String.ofList (List.replicate length 'a'))).length = length := by
  rw [keyBytes, String.toByteArray_ofList]
  induction length with
  | zero => rfl
  | succ length ih =>
      rw [List.replicate_succ, List.utf8Encode_cons, ByteArray.data_append, Array.toList_append,
        List.length_append, ih, Nat.add_comm]
      rfl

/-- The fields behind the key and the length of the key take 32 bytes. -/
theorem serialize_keyedEntry (length : Nat)
    : ∃ encoded,
        fixedIntBincode.serialize (keyedEntry length) = .ok encoded
        ∧ encoded.length = length + 32 := by
  refine ⟨_, rfl, ?_⟩
  have key := length_keyBytes_replicate length
  simp only [List.length_append, length_leBytes, keyedEntry, key]
  omega

/-- The encoding has 2^32 bytes and is written behind the length zero, where replay stops with
an error before it comes to any entry appended later.
-/
theorem oversized_entry_ends_replay
    : ∃ encoded,
        fixedIntBincode.serialize (keyedEntry (2 ^ 32 - 32)) = .ok encoded
        ∧ encoded.length = 2 ^ 32
        ∧ ¬ KeepsFraming fixedIntBincode LogState.fresh (keyedEntry (2 ^ 32 - 32)) encoded
        ∧ ∀ others,
            (∀ other ∈ others, fixedIntBincode.RoundTrips other)
            → let appended := after (LogState.step fixedIntBincode) LogState.fresh
                (.append (keyedEntry (2 ^ 32 - 32)) none :: appends others)
              ∃ error,
                WriteAheadLog.replay fixedIntBincode (some appended.contents)
                    (deliver fun _ => .ok ()) []
                  = .error error [] := by
  obtain ⟨encoded, serialized, length⟩ := serialize_keyedEntry (2 ^ 32 - 32)
  have whole : encoded.length = 2 ^ 32 := by omega
  refine ⟨encoded, serialized, whole, ?_, ?_⟩
  · intro keeps
    exact absurd ((prefixCounts_iff serialized _).mp keeps.counts) (Nat.not_lt.mpr whole.ge)
  · intro others roundTrips
    exact replay_stops_at_zero_length serialized (by rw [whole, Nat.mod_self]) rfl roundTrips

end GorillaTsdb.Storage
