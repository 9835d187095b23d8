import Melin.Journal.CodecLaws
import Melin.Lib.Blake3
import Melin.Lib.Crc32c

/-! The counter application's event codec, and the hash functions a journal is run with. -/

namespace Melin

open Lib

instance standardHashing : Hashing where
  crc32c := Crc32c.checksum
  blake3 bytes := ⟨Blake3.digest bytes, Blake3.digest_length bytes⟩

def kindIncrement : UInt8 := 0x10

def kindGetValue : UInt8 := 0x11

inductive CounterEvent where
  | increment (amount : UInt64)
  | getValue
  deriving DecidableEq, Repr

def amountFrom (fields : Bytes) : Except CodecError UInt64 :=
  if fields.length = 8 then .ok (UInt64.ofNat (leNat fields))
  else if fields.length < 8 then .error .truncated
  else .error .invalidField

instance : AppEvent CounterEvent where
  maxEncodedSize := 9
  encodedSize
    | .increment _ => 9
    | .getValue => 1
  encode
    | .increment amount => kindIncrement :: leBytes 8 amount.toNat
    | .getValue => [kindGetValue]
  decode
    | [] => .error .truncated
    | kind :: fields =>
      if kind = kindIncrement then (amountFrom fields).map .increment
      else if kind = kindGetValue then
        if fields = [] then .ok .getValue else .error .invalidField
      else .error (.unknownTag kind)
  isQuery
    | .getValue => true
    | .increment _ => false

/-- The counter's codec keeps its word to the journal. -/
instance : LawfulAppEvent CounterEvent where
  encode_length event := by cases event <;> simp [AppEvent.encode, AppEvent.encodedSize]
  encodedSize_le event := by
    cases event <;> simp [AppEvent.encodedSize, AppEvent.maxEncodedSize]
  decode_encode event := by
    cases event with
    | getValue => rfl
    | increment amount =>
      have amountEq : leNat (leBytes 8 amount.toNat) = amount.toNat :=
        leNat_leBytes 8 _ amount.toNat_lt
      simp [AppEvent.decode, AppEvent.encode, amountFrom, amountEq, Except.map]
  entrySize_le := by decide

end Melin
