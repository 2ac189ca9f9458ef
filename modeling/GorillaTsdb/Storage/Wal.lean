import GorillaTsdb.Foundations.LittleEndian
import GorillaTsdb.Storage.Block

/-! The write-ahead log over one file: a length, then the serialized entry, for every append.
The serializer is a parameter. A write may fail after part of its bytes reached the file;
reads only fail at the end of the file.
-/

namespace GorillaTsdb.Storage

open Foundations.LittleEndian

structure WALEntry where
  key : TimeSeriesKey
  point : DataPoint
  timestamp : UInt64
  deriving DecidableEq, Repr

/-- The two functions of the serializer; an error is its display text. -/
structure Bincode where
  serialize : WALEntry → Except String (List UInt8)
  deserialize : List UInt8 → Except String WALEntry

/-- The serializer inverts itself on an entry whose encoding fits the length prefix. -/
def Bincode.RoundTrips (bincode : Bincode) (entry : WALEntry) : Prop :=
  ∃ encoded,
    bincode.serialize entry = .ok encoded
    ∧ encoded.length < 2 ^ 32
    ∧ bincode.deserialize encoded = .ok entry

/-- When writes start to fail: after `room` more bytes, with `error`. -/
structure WriteFault where
  room : Nat
  error : IoError
  deriving DecidableEq, Repr

/-- An existing file that is open for append. -/
structure LogFile where
  contents : List UInt8
  fault : Option WriteFault
  deriving DecidableEq, Repr

/-- `write_all` at the current end of the file. -/
def LogFile.writeAll (bytes : List UInt8) : EStateM IoError LogFile Unit := fun self =>
  match self.fault with
  | none => .ok () { self with contents := self.contents ++ bytes }
  | some fault =>
      if bytes.length ≤ fault.room then
        .ok () {
          contents := self.contents ++ bytes
          fault := some { fault with room := fault.room - bytes.length }
        }
      else
        .error fault.error {
          contents := self.contents ++ bytes.take fault.room
          fault := some { fault with room := 0 }
        }

/-- `read_exact`: the next bytes and the rest of the file. -/
def readExact (count : Nat) (reader : List UInt8) : Except IoError (List UInt8 × List UInt8) :=
  if count ≤ reader.length then .ok (reader.take count, reader.drop count)
  else .error { kind := .unexpectedEof, message := "failed to fill whole buffer" }

/-- `u32::to_le_bytes`. -/
def toLeBytes (value : UInt32) : List UInt8 := leBytes 4 value.toNat

/-- `u32::from_le_bytes`. -/
def fromLeBytes (bytes : List UInt8) : UInt32 := UInt32.ofNat (ofLeBytes bytes)

/-- An open log. Its file and path stand for the one file that is passed as state. -/
structure WriteAheadLog where
  entryCount : Nat
  deriving DecidableEq, Repr

/-- `create` when the file can be opened: it is created if missing and never shortened. -/
def WriteAheadLog.create (file : Option (List UInt8)) : WriteAheadLog × List UInt8 :=
  ({ entryCount := 0 }, file.getD [])

/-- `append`; the length is cast to 32 bits, and flushing a file does nothing. -/
def WriteAheadLog.append (bincode : Bincode) (entry : WALEntry)
    : EStateM StorageError (WriteAheadLog × LogFile) Unit :=
  fun (self, file) =>
    match bincode.serialize entry with
    | .error error =>
        .error
          (.ioError { kind := .invalidData, message := s!"Serialization error: {error}" })
          (self, file)
    | .ok encoded =>
        let len := UInt32.ofNat encoded.length
        match LogFile.writeAll (toLeBytes len) file with
        | .error error file => .error (.ioError error) (self, file)
        | .ok _ file =>
            match LogFile.writeAll encoded file with
            | .error error file => .error (.ioError error) (self, file)
            | .ok _ file => .ok () ({ self with entryCount := self.entryCount + 1 }, file)

/-- A successful read leaves a shorter file if it read anything. -/
theorem length_of_readExact {count : Nat} {reader bytes rest : List UInt8}
    (read : readExact count reader = .ok (bytes, rest))
    : count ≤ reader.length ∧ rest.length = reader.length - count := by
  unfold readExact at read
  split at read
  case isTrue enough =>
    obtain ⟨-, rfl⟩ := Prod.mk.inj (Except.ok.inj read)
    exact ⟨enough, List.length_drop⟩
  case isFalse => simp at read

/-- The loop of `replay`. The callback is a closure with its own state. The end of the file is
expected in front of a length only; in front of an entry it is an error like any other.
-/
def WriteAheadLog.replayLoop {σ : Type} (bincode : Bincode)
    (callback : WALEntry → EStateM StorageError σ Unit) (reader : List UInt8) (count : Nat)
    : EStateM StorageError σ Nat :=
  match _ : readExact 4 reader with
  | .error error =>
      if error.kind = .unexpectedEof then pure count else throw (.ioError error)
  | .ok (lenBytes, body) =>
      let len := (fromLeBytes lenBytes).toNat
      match _ : readExact len body with
      | .error error => throw (.ioError error)
      | .ok (entryBytes, rest) =>
          match bincode.deserialize entryBytes with
          | .error error =>
              throw
                (.ioError
                  { kind := .invalidData, message := s!"Deserialization error: {error}" })
          | .ok entry => do
              callback entry
              replayLoop bincode callback rest (count + 1)
termination_by reader.length
decreasing_by
  have first := length_of_readExact ‹readExact 4 reader = _›
  have second := length_of_readExact ‹readExact _ body = _›
  omega

/-- `replay` of the file at the log's path. -/
def WriteAheadLog.replay {σ : Type} (bincode : Bincode) (file : Option (List UInt8))
    (callback : WALEntry → EStateM StorageError σ Unit)
    : EStateM StorageError σ Nat :=
  match file with
  | none =>
      throw
        (.ioError
          { kind := .notFound, message := "No such file or directory (os error 2)" })
  | some contents => WriteAheadLog.replayLoop bincode callback contents 0

def WriteAheadLog.truncate : EStateM StorageError (WriteAheadLog × LogFile) Unit :=
  fun (self, file) => .ok () ({ self with entryCount := 0 }, { file with contents := [] })

end GorillaTsdb.Storage
