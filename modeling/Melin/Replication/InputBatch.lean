import Melin.Journal.CodecLaws
import Melin.Pipeline.InputSlot
import Melin.Replication.Protocol

/-! Input batches as a replica decodes them: every slot checked before any is used. -/

namespace Melin

open Lib

/-- Bytes of a slot before its payload: an entry's header and metadata without the magic. -/
def slotHeaderLen : Nat := 27

def entryMagicSize : Nat := 2

inductive SlotFault where
  | undecodable (err : EventDecodeError)
  /-- The journal codec refuses the decoded event. -/
  | unencodable (err : JournalError)

inductive InputBatchError where
  /-- The frame is some other message. -/
  | notInputBatch (tag : UInt8)
  /-- The slot count or a slot's length does not fit the frame. -/
  | framing (reason : String)
  | malformed (sequence : Nat) (fault : SlotFault)
  /-- A slot's bytes are not the ones the primary journaled. -/
  | corrupted (sequence : Nat) (shippedCrc receivedCrc : UInt32)
  /-- An intact slot that does not encode back to itself. -/
  | notRoundTrip (sequence : Nat) (shippedCrc reencodedCrc : UInt32)

def InputBatchError.isTransitDamage : InputBatchError → Bool
  | .corrupted .. | .framing _ => true
  | .notInputBatch _ | .malformed .. | .notRoundTrip .. => false

section

variable {E : Type} [AppEvent E] [Hashing]

def receivedCrc (slotBody : Bytes) : UInt32 := Hashing.crc32c (leBytes 2 entryMagic ++ slotBody)

/-- A slot that could not be turned back into an entry: damaged, or really malformed. -/
def refused (sequence : Nat) (slotBody : Bytes) (shippedCrc : UInt32) (fault : SlotFault) :
    InputBatchError :=
  if receivedCrc slotBody ≠ shippedCrc then .corrupted sequence shippedCrc (receivedCrc slotBody)
  else .malformed sequence fault

def decodeSlot (rest : Bytes) : Except InputBatchError (InputSlot E × Bytes) :=
  if rest.length < slotHeaderLen then .error (.framing "slot header truncated")
  else
    let length := leNat (slice rest 0 2)
    if length < entryMetaSize then .error (.framing "slot length below ENTRY_META_SIZE")
    else
      let payloadSize := length - entryMetaSize
      let afterHeader := rest.drop slotHeaderLen
      if afterHeader.length < payloadSize + crcSize then .error (.framing "slot truncated")
      else
        let slotBody := rest.take (slotHeaderLen + payloadSize)
        let eventPayload := afterHeader.take payloadSize
        let shippedCrc := UInt32.ofNat (leNat (slice afterHeader payloadSize crcSize))
        let sequence := leNat (slice rest 2 8)
        let timestampNs := UInt64.ofNat (leNat (slice rest 10 8))
        let keyHash := UInt64.ofNat (leNat (slice rest 18 8))
        match decodeEvent (E := E) (rest.getD 26 0) eventPayload with
        | .error err => .error (refused sequence slotBody shippedCrc (.undecodable err))
        | .ok event =>
          -- Encoded again exactly as the journal stage will, and compared by checksum.
          match encode sequence timestampNs keyHash event maxEntrySize with
          | .error err => .error (refused sequence slotBody shippedCrc (.unencodable err))
          | .ok reencoded =>
            let reencodedCrc := UInt32.ofNat (leNat (reencoded.drop (reencoded.length - crcSize)))
            if reencodedCrc ≠ shippedCrc then
              if receivedCrc slotBody ≠ shippedCrc then
                .error (.corrupted sequence shippedCrc (receivedCrc slotBody))
              else .error (.notRoundTrip sequence shippedCrc reencodedCrc)
            else
              .ok ({ connectionId := 0, requestId := 0, keyHash, sequence, timestampNs, event },
                afterHeader.drop (payloadSize + crcSize))

def decodeSlots : Nat → Bytes → Except InputBatchError (List (InputSlot E))
  | 0, rest => if rest ≠ [] then .error (.framing "bytes past the last slot") else .ok []
  | count + 1, rest => do
    let (slot, rest) ← decodeSlot rest
    let slots ← decodeSlots count rest
    return slot :: slots

def tryDecodeInputBatch (payload : Bytes) : Except InputBatchError (List (InputSlot E)) :=
  match payload with
  | [] => .error (.framing "empty frame")
  | tag :: _ =>
    if tag ≠ msgInputBatch then .error (.notInputBatch tag)
    else if payload.length < 3 then .error (.framing "header truncated")
    else decodeSlots (leNat (slice payload 1 2)) (payload.drop 3)

inductive JournalBatchError where
  /-- The bytes at this place of the run are no entry. -/
  | entry (offset : Nat) (err : JournalError)
  /-- There are more entries than the count can name. -/
  | tooMany

variable (E) in
def packEntries (journalBytes : Bytes) (offset count : Nat) (buf : Bytes) :
    Except JournalBatchError (Nat × Bytes) :=
  if journalBytes.length ≤ offset then .ok (count, buf)
  else
    let entry := journalBytes.drop offset
    match _decoded : decode (E := E) entry with
    | .error err => .error (.entry offset err)
    | .ok decoded =>
      if count = 0xFFFF then .error .tooMany
      else
        packEntries journalBytes (offset + decoded.consumed) (count + 1)
          (buf ++ (entry.take decoded.consumed).drop entryMagicSize)
termination_by journalBytes.length - offset
decreasing_by
  have framing := (decode_eq_ok ‹_›).framing_le
  simp only [entryFramingSize, entryHeaderSize] at framing
  omega

variable (E) in
def encodeInputBatchFromJournal (journalBytes buf : Bytes) :
    Bytes × Except JournalBatchError Nat :=
  match packEntries E journalBytes 0 0 initInputBatch with
  | .error err => (buf, .error err)
  | .ok (count, framed) => (buf ++ finalizeInputBatch framed count, .ok count)

end

end Melin
