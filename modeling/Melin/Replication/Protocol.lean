import Melin.Journal.Codec
import Melin.Wire.Framing

/-! The replication protocol's frames, as the two nodes send and read them. -/

namespace Melin

open Lib

def msgStreamStart : UInt8 := 0x10

def msgNeedSnapshot : UInt8 := 0x11

def msgHashMismatch : UInt8 := 0x12

def msgSnapshotBegin : UInt8 := 0x13

def msgSnapshotChunk : UInt8 := 0x14

def msgSnapshotEnd : UInt8 := 0x15

def msgSegmentSeedBegin : UInt8 := 0x18

def msgHeartbeat : UInt8 := 0x30

def maxDataFrame : Nat := 768 * 1024

def msgInputBatch : UInt8 := 0x21

def msgRotate : UInt8 := 0x16

def msgChainCheck : UInt8 := 0x17

/-- Bytes of an input batch before its first slot: the frame's length, its type, the slot count. -/
def frameHeaderLen : Nat := 7

def initInputBatch : Bytes := List.replicate frameHeaderLen 0

def finalizeInputBatch (buf : Bytes) (slotCount : Nat) : Bytes :=
  leBytes 4 (buf.length - 4) ++ [msgInputBatch] ++ leBytes 2 slotCount ++ buf.drop frameHeaderLen

def encodeSeqHash (tag : UInt8) (sequence : Nat) (hash : Digest) : Bytes :=
  frame (tag :: (leBytes 8 sequence ++ hash.bytes))

def encodeRotate (boundarySeq : Nat) (tailHash : Digest) : Bytes :=
  encodeSeqHash msgRotate boundarySeq tailHash

def encodeChainCheck (sequence : Nat) (chainHash : Digest) : Bytes :=
  encodeSeqHash msgChainCheck sequence chainHash

/-- What a replica reports: what it has made durable, and what it has accepted. -/
structure Ack where
  /-- Highest sequence journaled and synced. -/
  ackedSequence : Nat
  /-- Highest sequence accepted into the pipeline. -/
  inMemorySequence : Nat
  deriving DecidableEq, Repr

inductive PrimaryMessage where
  /-- The stream starts; a fresh replica creates its journal with the segment's identity. -/
  | streamStart (startSequence segmentStartSequence : Nat) (anchorHash : Digest)
      (genesisEntries : Option Nat) (epoch : UInt64)
  | needSnapshot
  | hashMismatch
  | snapshotBegin (snapshotLen snapSequence : Nat) (snapChainHash : Digest)
  | snapshotChunk (data : Bytes)
  | snapshotEnd (crc32c : UInt32)
  | heartbeat (sequence : Nat)
  | rotate (boundarySeq : Nat) (tailHash : Digest)
  | chainCheck (sequence : Nat) (chainHash : Digest)
  | segmentSeedBegin (seedLen : Nat)
  deriving DecidableEq

def hexByte (byte : UInt8) : String :=
  String.ofList [Nat.digitChar (byte.toNat / 16), Nat.digitChar (byte.toNat % 16)]

def decodePrimaryMessage (payload : Bytes) : Except String PrimaryMessage :=
  match payload with
  | [] => .error "empty payload"
  | tag :: _ =>
    if tag = msgStreamStart then
      if payload.length < 66 then
        .error ("StreamStart frame too short (" ++ toString payload.length ++
          " bytes, expected 66) — the primary is likely running an older, incompatible " ++
          "replication protocol version; upgrade it to this binary's version")
      else
        let known := payload.getD 57 0
        let start := leNat (slice payload 1 8)
        let segmentStart := leNat (slice payload 9 8)
        let epoch := UInt64.ofNat (leNat (slice payload 49 8))
        if known = 0 then
          .ok (.streamStart start segmentStart (readDigest payload 17) none epoch)
        else if known = 1 then
          .ok (.streamStart start segmentStart (readDigest payload 17)
            (some (leNat (slice payload 58 8))) epoch)
        else
          .error ("StreamStart genesis flag " ++ toString known.toNat ++ " is neither 0 nor 1")
    else if tag = msgNeedSnapshot then .ok .needSnapshot
    else if tag = msgHashMismatch then .ok .hashMismatch
    else if tag = msgSnapshotBegin then
      if payload.length < 49 then .error "SnapshotBegin too short"
      else
        .ok (.snapshotBegin (leNat (slice payload 1 8)) (leNat (slice payload 9 8))
          (readDigest payload 17))
    else if tag = msgSnapshotChunk then .ok (.snapshotChunk (payload.drop 1))
    else if tag = msgSnapshotEnd then
      if payload.length < 5 then .error "SnapshotEnd too short"
      else .ok (.snapshotEnd (UInt32.ofNat (leNat (slice payload 1 4))))
    else if tag = msgHeartbeat then
      if payload.length < 9 then .error "Heartbeat too short"
      else .ok (.heartbeat (leNat (slice payload 1 8)))
    else if tag = msgRotate then
      if payload.length < 41 then .error "Rotate too short"
      else .ok (.rotate (leNat (slice payload 1 8)) (readDigest payload 9))
    else if tag = msgChainCheck then
      if payload.length < 41 then .error "ChainCheck too short"
      else .ok (.chainCheck (leNat (slice payload 1 8)) (readDigest payload 9))
    else if tag = msgSegmentSeedBegin then
      if payload.length < 9 then .error "SegmentSeedBegin too short"
      else .ok (.segmentSeedBegin (leNat (slice payload 1 8)))
    else .error ("unknown primary message type: 0x" ++ hexByte tag)

end Melin
