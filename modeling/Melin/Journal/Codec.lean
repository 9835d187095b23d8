import Melin.Journal.Event

/-! The binary codec of segment headers and journal entries. -/

namespace Melin

open Lib

def fileMagic : Nat := 0x4A4F5552

def formatVersion : Nat := 16

def formatVersionV15 : Nat := 15

def entryMagic : Nat := 0x4A45

def fileHeaderSize : Nat := 512

def maxSectorSize : Nat := 4096

def entryOffset : Nat := maxSectorSize

def fileHeaderFieldsSize : Nat := 60

def fileHeaderV15FieldsSize : Nat := 52

def entryHeaderSize : Nat := 20

def entryMetaSize : Nat := 9

def crcSize : Nat := 4

def entryFramingSize : Nat := entryHeaderSize + entryMetaSize + crcSize

def transportPayloadSize : Nat := 8

def ackPolicyChangePayloadSize : Nat := 2

def tagTick : UInt8 := 0x03

def tagEpochBump : UInt8 := 0x04

def tagAckPolicyChange : UInt8 := 0x05

def tagApp : UInt8 := 0x80

def ackPolicyFlagUnwitnessed : UInt8 := 0x01

def eventTagOffset : Nat := entryHeaderSize + 8

structure FileHeaderInfo where
  /-- Byte offset where entries begin. -/
  sectorSize : Nat
  /-- Sequence number of the segment's first entry. -/
  startingSequence : Nat
  anchorHash : Digest
  /-- Entries the lineage's genesis occupies, `none` when unknown. -/
  genesisEntries : Option Nat
  deriving DecidableEq

def headerFields (sectorSize startingSequence : Nat) (anchorHash : Digest) :
    Option Nat → List Bytes
  | some genesisEntries =>
    [leBytes 4 fileMagic, leBytes 2 formatVersion, leBytes 2 sectorSize,
      leBytes 8 startingSequence, anchorHash.bytes, leBytes 8 genesisEntries]
  | none =>
    [leBytes 4 fileMagic, leBytes 2 formatVersionV15, leBytes 2 sectorSize,
      leBytes 8 startingSequence, anchorHash.bytes]

section

variable [Hashing]

def encodeFileHeader (sectorSize startingSequence : Nat) (anchorHash : Digest)
    (genesisEntries : Option Nat) : Bytes :=
  let fields := (headerFields sectorSize startingSequence anchorHash genesisEntries).flatten
  let padding := List.replicate (sectorSize - (fields.length + crcSize)) 0
  fields ++ (leBytes 4 (Hashing.crc32c fields).toNat ++ padding)

def readDigest (bytes : Bytes) (start : Nat) : Digest :=
  if full : (slice bytes start 32).length = 32 then ⟨slice bytes start 32, full⟩ else .zero

def verifyHeaderCrc (buf : Bytes) (fieldsSize : Nat) (stored : UInt32) : Except JournalError Unit :=
  let actual := Hashing.crc32c (buf.take (fieldsSize - crcSize))
  if stored ≠ actual then .error (.checksumMismatch 0 stored actual) else .ok ()

/-- Settle the entry offset a header's raw sector size stands for. -/
def resolveSectorSize (raw : Nat) : Except JournalError Nat :=
  -- A zero predates sector detection and stands for 512.
  if raw = 0 then .ok 512
  else if raw = 512 ∨ raw = 4096 then .ok raw
  else .error .invalidFile

def decodeFileHeader (buf : Bytes) : Except JournalError FileHeaderInfo :=
  if buf.length < 6 then .error .truncatedEntry
  else if leNat (slice buf 0 4) ≠ fileMagic then .error .invalidFile
  else
    let version := leNat (slice buf 4 2)
    if version = formatVersion then
      if buf.length < fileHeaderFieldsSize then .error .truncatedEntry
      else do
        verifyHeaderCrc buf fileHeaderFieldsSize (UInt32.ofNat (leNat (slice buf 56 4)))
        let sectorSize ← resolveSectorSize (leNat (slice buf 6 2))
        return { sectorSize, startingSequence := leNat (slice buf 8 8),
                 anchorHash := readDigest buf 16,
                 genesisEntries := some (leNat (slice buf 48 8)) }
    else if version = formatVersionV15 then
      if buf.length < fileHeaderV15FieldsSize then .error .truncatedEntry
      else do
        verifyHeaderCrc buf fileHeaderV15FieldsSize (UInt32.ofNat (leNat (slice buf 48 4)))
        let sectorSize ← resolveSectorSize (leNat (slice buf 6 2))
        return { sectorSize, startingSequence := leNat (slice buf 8 8),
                 anchorHash := readDigest buf 16, genesisEntries := none }
    else .error (.unsupportedVersion version)

end

section

variable {E : Type} [AppEvent E]

def entrySize (E : Type) [AppEvent E] : Nat :=
  entryFramingSize + max (AppEvent.maxEncodedSize E) transportPayloadSize

def maxEntrySize : Nat := 1088

def maxEntryLength (E : Type) [AppEvent E] (tag : Option UInt8) : Nat :=
  let payload :=
    if tag = some tagTick ∨ tag = some tagEpochBump then transportPayloadSize
    else if tag = some tagAckPolicyChange then ackPolicyChangePayloadSize
    else if tag = some tagApp then AppEvent.maxEncodedSize E
    else max (AppEvent.maxEncodedSize E) transportPayloadSize
  entryMetaSize + payload

def encodeEvent (sequence : Nat) (event : JournalEvent E) (room : Nat) :
    Except JournalError (UInt8 × Bytes) :=
  match event with
  | .tick nowNs => .ok (tagTick, leBytes 8 nowNs.toNat)
  | .epochBump epoch => .ok (tagEpochBump, leBytes 8 epoch.toNat)
  | .ackPolicyChange change =>
    .ok (tagAckPolicyChange,
      [change.policy.byte, if change.unwitnessed then ackPolicyFlagUnwitnessed else 0])
  | .app event =>
    let size := AppEvent.encodedSize event
    if size > AppEvent.maxEncodedSize E then
      .error (.corruptEntry sequence "app event is wider than its declared MAX_ENCODED_SIZE")
    else if room < entryHeaderSize + entryMetaSize + size + crcSize then
      .error (.corruptEntry sequence "app event too large for the journal entry buffer")
    else if (AppEvent.encode event).length ≠ size then
      .error (.corruptEntry sequence
        "AppEvent::encode wrote a different length than encoded_size declared")
    else .ok (tagApp, AppEvent.encode event)
  | .shutdown =>
    .error (.corruptEntry sequence "JournalEvent::Shutdown must not reach the codec")

variable [Hashing]

def entryFields (sequence : Nat) (timestampNs keyHash : UInt64) (tag : UInt8) (payload : Bytes) :
    List Bytes :=
  [leBytes 2 entryMagic, leBytes 2 (entryMetaSize + payload.length), leBytes 8 sequence,
    leBytes 8 timestampNs.toNat, leBytes 8 keyHash.toNat, [tag], payload]

def encode (sequence : Nat) (timestampNs keyHash : UInt64) (event : JournalEvent E) (room : Nat) :
    Except JournalError Bytes :=
  if room < entryHeaderSize + entryMetaSize + transportPayloadSize + crcSize then
    .error (.corruptEntry sequence "destination buffer too small for a journal entry")
  else do
    let (tag, payload) ← encodeEvent sequence event room
    if 0xFFFF < entryMetaSize + payload.length then
      .error (.corruptEntry sequence "encoded payload exceeds u16 max")
    else
      let body := (entryFields sequence timestampNs keyHash tag payload).flatten
      return body ++ leBytes 4 (Hashing.crc32c body).toNat

def codecErrReason : CodecError → String
  | .unknownTag _ => "app codec: unknown event tag"
  | .truncated => "app codec: truncated event"
  | .invalidField => "app codec: invalid field"

inductive EventDecodeError where
  | unknownTag (tag : UInt8)
  /-- The payload of a transport event is not one. -/
  | malformed (reason : String)
  /-- The application's codec refused its payload. -/
  | app (err : CodecError)
  deriving DecidableEq, Repr

def EventDecodeError.reason : EventDecodeError → String
  | .unknownTag _ => "unknown event tag"
  | .malformed reason => reason
  | .app err => codecErrReason err

def payloadU64 (payload : Bytes) (tooShort : String) : Except EventDecodeError UInt64 :=
  if payload.length < 8 then .error (.malformed tooShort)
  else .ok (UInt64.ofNat (leNat (slice payload 0 8)))

def decodeEvent (tag : UInt8) (payload : Bytes) : Except EventDecodeError (JournalEvent E) :=
  if tag = tagTick then (payloadU64 payload "Tick payload too short").map .tick
  else if tag = tagEpochBump then (payloadU64 payload "EpochBump payload too short").map .epochBump
  else if tag = tagAckPolicyChange then
    match payload with
    | policy :: flags :: _ =>
      if flags &&& ~~~ackPolicyFlagUnwitnessed ≠ 0 then
        .error (.malformed "AckPolicyChange sets a reserved flag bit")
      else
        .ok (.ackPolicyChange ⟨⟨policy⟩, flags &&& ackPolicyFlagUnwitnessed != 0⟩)
    | _ => .error (.malformed "AckPolicyChange payload too short")
  else if tag = tagApp then
    match AppEvent.decode payload with
    | .ok event => .ok (.app event)
    | .error err => .error (.app err)
  else .error (.unknownTag tag)

structure DecodedEntry (E : Type) where
  consumed : Nat
  entry : JournalEntry E

def decode (buf : Bytes) : Except JournalError (DecodedEntry E) :=
  if buf.length < entryHeaderSize + 1 + crcSize then .error .truncatedEntry
  else if leNat (slice buf 0 2) ≠ entryMagic then .error (.corruptEntry 0 "bad entry magic")
  else
    let payloadLen := leNat (slice buf 2 2)
    let sequence := leNat (slice buf 4 8)
    -- The width is checked before the CRC, whose place depends on it.
    if payloadLen > maxEntryLength E buf[eventTagOffset]? then
      .error (.corruptEntry sequence "entry length exceeds the widest entry of its event type")
    else
      let totalLen := entryHeaderSize + payloadLen + crcSize
      if buf.length < totalLen then .error .truncatedEntry
      else
        let dataEnd := entryHeaderSize + payloadLen
        let expectedCrc := UInt32.ofNat (leNat (slice buf dataEnd 4))
        let actualCrc := Hashing.crc32c (buf.take dataEnd)
        if expectedCrc ≠ actualCrc then
          .error (.checksumMismatch sequence expectedCrc actualCrc)
        else if payloadLen < entryMetaSize then
          .error (.corruptEntry sequence "entry too short for key_hash + tag")
        else
          let payload := slice buf (entryHeaderSize + entryMetaSize) (payloadLen - entryMetaSize)
          match decodeEvent (buf.getD eventTagOffset 0) payload with
          | .error err => .error (.corruptEntry sequence err.reason)
          | .ok event =>
            .ok { consumed := totalLen
                  entry := { sequence
                             timestampNs := UInt64.ofNat (leNat (slice buf 12 8))
                             keyHash := UInt64.ofNat (leNat (slice buf 20 8))
                             event } }

end

end Melin
