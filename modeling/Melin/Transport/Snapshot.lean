import Melin.Transport.Dispatch
import Melin.Journal.Codec

/-! The snapshot file: a framing header, the application's own bytes, and a checksum. -/

namespace Melin

open Lib

def snapMagic : Nat := 0x534E4150

def transportVersion : Nat := 5

def maxSnapshotSize : Nat := 2 ^ 40

/-- Header sizes of the five framing versions, each a longer form of the one before. -/
def headerSizeV1 : Nat := 4 + 2 + 2 + 8 + 32

def headerSizeV2 : Nat := headerSizeV1 + 8

def headerSizeV3 : Nat := headerSizeV2 + 8

def headerSizeV4 : Nat := headerSizeV3 + 1 + 1 + 1 + 8

def headerSizeV5 : Nat := headerSizeV4 + 8

/-- Bytes a header of a framing version occupies, if this build reads the version. -/
def headerLength : Nat → Option Nat
  | 1 => some headerSizeV1
  | 2 => some headerSizeV2
  | 3 => some headerSizeV3
  | 4 => some headerSizeV4
  | 5 => some headerSizeV5
  | _ => none

def lineageGenesisKnown : UInt8 := 1

def lineageAckPolicyKnown : UInt8 := 2

def lineagePreviousKnown : UInt8 := 4

def lineageUnwitnessed : UInt8 := 8

def lineageFlags : UInt8 :=
  lineageGenesisKnown ||| lineageAckPolicyKnown ||| lineagePreviousKnown ||| lineageUnwitnessed

inductive SnapshotError where
  | io (err : IoError)
  | truncated
  | badMagic
  | unsupportedTransportVersion (version : Nat)
  | unsupportedAppVersion (version : Nat)
  | checksumMismatch (expected actual : UInt32)
  | tooLarge (size : Nat)
  | unreadPayload (left : Nat)
  | malformedLineage (flags : UInt8)
  deriving DecidableEq, Repr

structure SnapshotHeader where
  appVersion : Nat
  /-- Journal sequence the snapshot is anchored at. -/
  sequence : Nat
  chainHash : Digest
  lineage : Lineage
  genesisEntries : Option Nat
  tickWatermark : Option TickWatermark
  /-- Bytes the header occupies. -/
  len : Nat
  deriving DecidableEq

def SnapshotHeader.resumeTickWatermark (header : SnapshotHeader)
    (anchorEntryTimestampNs : Option UInt64) : TickWatermark :=
  match header.tickWatermark with
  | some recorded => recorded
  | none =>
    if header.sequence = 0 then .genesis
    else
      match anchorEntryTimestampNs with
      | some timestampNs => ⟨timestampNs⟩
      | none => .genesis

def flagsOf (genesisEntries : Option Nat) (ackPolicy : Option LineagePolicy) : UInt8 :=
  (if genesisEntries.isSome then lineageGenesisKnown else 0) |||
    match ackPolicy with
    | none => 0
    | some policy =>
      lineageAckPolicyKnown ||| (if policy.previous.isSome then lineagePreviousKnown else 0) |||
        if policy.change.unwitnessed then lineageUnwitnessed else 0

/-- The policy and genesis length of a version 4 or 5 header; an absent field must be zero. -/
def parseLineage (bytes : Bytes) : Except SnapshotError (Option Nat × Option LineagePolicy) :=
  let flags := bytes.getD 64 0
  let policy := bytes.getD 65 0
  let previous := bytes.getD 66 0
  let policyWireSeq := leNat (slice bytes 67 8)
  let genesis := leNat (slice bytes 56 8)
  let has := fun bit : UInt8 => flags &&& bit ≠ 0
  if flags &&& ~~~lineageFlags ≠ 0 ∨ (¬has lineageGenesisKnown ∧ genesis ≠ 0) ∨
      (¬has lineageAckPolicyKnown ∧ (policy ≠ 0 ∨ policyWireSeq ≠ 0 ∨
        has (lineagePreviousKnown ||| lineageUnwitnessed))) ∨
      (¬has lineagePreviousKnown ∧ previous ≠ 0) then .error (.malformedLineage flags)
  else
    .ok (if has lineageGenesisKnown then some genesis else none,
      if has lineageAckPolicyKnown then
        some { change := { policy := ⟨policy⟩, unwitnessed := has lineageUnwitnessed }
               wireSeq := policyWireSeq
               previous := if has lineagePreviousKnown then some ⟨previous⟩ else none }
      else none)

def SnapshotHeader.parse (bytes : Bytes) : Except SnapshotError SnapshotHeader :=
  if bytes.length < headerSizeV1 then .error .truncated
  else if leNat (slice bytes 0 4) ≠ snapMagic then .error .badMagic
  else
    let version := leNat (slice bytes 4 2)
    match headerLength version with
    | none => .error (.unsupportedTransportVersion version)
    | some len =>
      if bytes.length < len then .error .truncated
      else do
        let (genesisEntries, ackPolicy) ←
          if version = 4 ∨ version = transportVersion then parseLineage bytes
          else .ok (if version = 3 then some (leNat (slice bytes 56 8)) else none, none)
        return { appVersion := leNat (slice bytes 6 2)
                 sequence := leNat (slice bytes 8 8)
                 chainHash := readDigest bytes 16
                 lineage :=
                   { epoch := if version = 1 then 0 else UInt64.ofNat (leNat (slice bytes 48 8))
                     ackPolicy }
                 genesisEntries
                 tickWatermark :=
                   if version = transportVersion then
                     some ⟨UInt64.ofNat (leNat (slice bytes headerSizeV4 8))⟩
                   else none
                 len }

/-- The header a save writes, field by field. -/
def snapshotFields (appVersion : UInt16) (sequence : Nat) (chainHash : Digest) (lineage : Lineage)
    (genesisEntries : Option Nat) (tickWatermark : TickWatermark) : List Bytes :=
  [leBytes 4 snapMagic, leBytes 2 transportVersion, leBytes 2 appVersion.toNat, leBytes 8 sequence,
    chainHash.bytes, leBytes 8 lineage.epoch.toNat, leBytes 8 (genesisEntries.getD 0),
    [flagsOf genesisEntries lineage.ackPolicy],
    [(lineage.ackPolicy.map (·.change.policy.byte)).getD 0],
    [((lineage.ackPolicy.bind (·.previous)).map (·.byte)).getD 0],
    leBytes 8 ((lineage.ackPolicy.map (·.wireSeq)).getD 0),
    leBytes 8 tickWatermark.nanos.toNat]

section

variable {A E R : Type} [Application A E R] [Hashing]

/-- The file a save writes, refused when the matching load would refuse it. -/
def save (app : A) (journalSequence : Nat) (chainHash : Digest) (lineage : Lineage)
    (genesisEntries : Option Nat) (tickWatermark : TickWatermark) : Except SnapshotError Bytes :=
  let header := (snapshotFields (Application.appVersion A) journalSequence chainHash lineage
    genesisEntries tickWatermark).flatten
  let data := header ++ Application.snapshot app
  let file := data ++ leBytes 4 (Hashing.crc32c data).toNat
  if file.length > maxSnapshotSize then .error (.tooLarge file.length) else .ok file

def load (A : Type) {E R : Type} [Application A E R] (bytes : Bytes) :
    Except SnapshotError (A × SnapshotHeader) :=
  if bytes.length > maxSnapshotSize then .error (.tooLarge bytes.length)
  else if bytes.length < headerSizeV1 + crcSize then .error .truncated
  else
    let dataEnd := bytes.length - crcSize
    let expectedCrc := UInt32.ofNat (leNat (slice bytes dataEnd crcSize))
    let actualCrc := Hashing.crc32c (bytes.take dataEnd)
    if expectedCrc ≠ actualCrc then .error (.checksumMismatch expectedCrc actualCrc)
    else do
      let header ← SnapshotHeader.parse (bytes.take dataEnd)
      if header.appVersion ≠ (Application.appVersion A).toNat then
        .error (.unsupportedAppVersion header.appVersion)
      else
        match Application.restore ((bytes.take dataEnd).drop header.len) with
        | .error err => .error (.io err)
        | .ok (app, left) => if left ≠ [] then .error (.unreadPayload left.length)
                             else .ok (app, header)

end

end Melin
