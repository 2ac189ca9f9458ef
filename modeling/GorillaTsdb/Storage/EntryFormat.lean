import GorillaTsdb.Storage.Wal

/-! The byte layout of a log entry under the serializer's default options: a key behind its
length, then three words, all little-endian; bytes behind them are ignored. It inverts itself
on every entry whose key leaves room for the other fields in the length prefix.
-/

namespace GorillaTsdb.Storage

open Foundations.LittleEndian

def keyBytes (key : TimeSeriesKey) : List UInt8 := key.toByteArray.data.toList

/-- The next bytes and the rest of the input, or the text for too short an input. -/
def takeBytes (missing : String) (count : Nat) (bytes : List UInt8)
    : Except String (List UInt8 × List UInt8) :=
  if count ≤ bytes.length then .ok (bytes.take count, bytes.drop count)
  else .error missing

def takeWord (bytes : List UInt8) : Except String (UInt64 × List UInt8) := do
  let (word, rest) ← takeBytes "io error: unexpected end of file" 8 bytes
  pure (UInt64.ofNat (ofLeBytes word), rest)

/-- The ranges for the bytes behind the first one of a character, if that can be a first byte. -/
def utf8Tail (first : UInt8) : Option (List (UInt8 × UInt8)) :=
  let any : UInt8 × UInt8 := (0x80, 0xbf)
  if first < 0x80 then some []
  else if first < 0xc2 then none
  else if first < 0xe0 then some [any]
  else if first = 0xe0 then some [(0xa0, 0xbf), any]
  else if first = 0xed then some [(0x80, 0x9f), any]
  else if first < 0xf0 then some [any, any]
  else if first = 0xf0 then some [(0x90, 0xbf), any, any]
  else if first < 0xf4 then some [any, any, any]
  else if first = 0xf4 then some [(0x80, 0x8f), any, any]
  else none

/-- The text of `Utf8Error`, empty where nothing is wrong: `taken` bytes of the character at
`start` were read, and the others have to be in the ranges.
-/
def utf8Error (start taken : Nat) (ranges : List (UInt8 × UInt8)) : List UInt8 → String
  | [] =>
      if ranges.isEmpty then "" else s!"incomplete utf-8 byte sequence from index {start}"
  | byte :: rest =>
      match ranges with
      | [] =>
          let next := start + taken
          match utf8Tail byte with
          | none => s!"invalid utf-8 sequence of 1 bytes from index {next}"
          | some tail => utf8Error next 1 tail rest
      | (low, high) :: others =>
          if low ≤ byte && byte ≤ high then utf8Error start (taken + 1) others rest
          else s!"invalid utf-8 sequence of {taken} bytes from index {start}"

/-- The key is taken as a slice and the words are read, so their texts for too short an input
differ.
-/
def fixedIntBincode : Bincode where
  serialize := fun entry =>
    .ok
      (leBytes 8 (keyBytes entry.key).length
        ++ (keyBytes entry.key
          ++ (leBytes 8 entry.point.timestamp.toNat
            ++ (leBytes 8 entry.point.value.toBits.toNat
              ++ leBytes 8 entry.timestamp.toNat))))
  deserialize := fun bytes => do
    let (keyLength, rest) ← takeWord bytes
    let (key, rest) ← takeBytes "io error: " keyLength.toNat rest
    match String.fromUTF8? { data := key.toArray } with
    | none => throw ("string is not valid utf8: " ++ utf8Error 0 0 [] key)
    | some key =>
        let (pointTimestamp, rest) ← takeWord rest
        let (bits, rest) ← takeWord rest
        let (timestamp, _) ← takeWord rest
        pure { key, point := { timestamp := pointTimestamp, value := .fromBits bits }, timestamp }

theorem takeBytes_append (missing : String) (left right : List UInt8)
    : takeBytes missing left.length (left ++ right) = .ok (left, right) := by
  rw [takeBytes, if_pos (by simp), List.take_left, List.drop_left]

theorem takeWord_append {value : Nat} (small : value < 2 ^ 64) (rest : List UInt8)
    : takeWord (leBytes 8 value ++ rest) = .ok (UInt64.ofNat value, rest) := by
  have bytes := takeBytes_append "io error: unexpected end of file" (leBytes 8 value) rest
  rw [length_leBytes] at bytes
  have number : ofLeBytes (leBytes 8 value) = value := by
    rw [ofLeBytes_leBytes]
    exact Nat.mod_eq_of_lt small
  rw [takeWord, bytes]
  exact congrArg (fun number => Except.ok (UInt64.ofNat number, rest)) number

theorem fromUTF8_keyBytes (key : TimeSeriesKey)
    : String.fromUTF8? { data := (keyBytes key).toArray } = some key := by
  have bytes : ({ data := (keyBytes key).toArray } : ByteArray) = key.toByteArray := by
    simp [keyBytes]
  rw [bytes, String.fromUTF8?, dif_pos key.isValidUTF8]
  rfl

/-- Every entry whose encoding fits the length prefix is read back. -/
theorem fixedIntBincode_roundTrips {entry : WALEntry}
    (short : (keyBytes entry.key).length + 32 < 2 ^ 32)
    : fixedIntBincode.RoundTrips entry := by
  refine ⟨_, rfl, by simp only [List.length_append, length_leBytes]; omega, ?_⟩
  have word (value : UInt64) (rest : List UInt8)
      : takeWord (leBytes 8 value.toNat ++ rest) = .ok (value, rest) := by
    rw [takeWord_append value.toNat_lt, UInt64.ofNat_toNat]
  have last (value : UInt64) : takeWord (leBytes 8 value.toNat) = .ok (value, []) := by
    simpa using word value []
  have length : (UInt64.ofNat (keyBytes entry.key).length).toNat = (keyBytes entry.key).length := by
    rw [UInt64.toNat_ofNat']
    omega
  have size : (keyBytes entry.key).length < 2 ^ 64 := by omega
  simp only [fixedIntBincode, takeWord_append size, length, takeBytes_append,
    fromUTF8_keyBytes, word, last, bind, Except.bind, pure, Except.pure, F64.fromBits]

/-- The entries of a short key, which the sample runs append. -/
theorem fixedIntBincode_roundTrips_metric (point : DataPoint) (timestamp : UInt64)
    : fixedIntBincode.RoundTrips ⟨"metric", point, timestamp⟩ :=
  fixedIntBincode_roundTrips (show (keyBytes "metric").length + 32 < 2 ^ 32 by decide)

end GorillaTsdb.Storage
