import Melin.Journal.Reader
import Melin.Transport.Snapshot

/-! Recovery's walk over the segments: link checks, replay, and what it learns for the writer. -/

namespace Melin

open Lib

inductive JournaledAppError where
  | journal (err : JournalError)
  | snapshot (err : SnapshotError)
  | io (kind : IoErrorKind) (message : String)
  | snapshotAnchorMissing (snapSequence journalLastSeq : Nat)
  | snapshotChainMismatch (snapSequence : Nat) (expected actual : Digest)
  | missingHistoryPrefix (firstSegmentStart requiredFloor : Nat)
  | genesisLengthMismatch (index : Nat) (expected actual : Option Nat)

inductive ReplayClock where
  | settled (watermark : TickWatermark)
  /-- The snapshot whose watermark the entry at its sequence decides. -/
  | awaitingAnchor (header : SnapshotHeader)

namespace ReplayClock

def fromSnapshot (header : SnapshotHeader) : ReplayClock :=
  if header.tickWatermark.isSome ∨ header.sequence = 0 then
    .settled (header.resumeTickWatermark none)
  else .awaitingAnchor header

def atAnchor (timestampNs : UInt64) : ReplayClock → ReplayClock
  | .awaitingAnchor header => .settled (header.resumeTickWatermark (some timestampNs))
  | .settled watermark => .settled watermark

def running : ReplayClock → TickWatermark
  | .settled watermark => watermark
  | .awaitingAnchor header => header.resumeTickWatermark none

end ReplayClock

structure Replay (A E : Type) where
  app : A
  clock : ReplayClock
  lineage : Lineage
  /-- A record of the entries handed to the application, which nothing reads. -/
  dispatched : List (JournalEntry E)

abbrev SnapshotSource := Option SnapshotHeader

def snapSequenceOf (snapshot : SnapshotSource) : Nat := (snapshot.map (·.sequence)).getD 0

section

variable {A E R : Type} [Application A E R] [Hashing]

def replayEntry (snapshot : SnapshotSource) (chain : SegmentChain) (entry : JournalEntry E)
    (replay : Replay A E) : Replay A E × Except JournaledAppError Unit :=
  let snapSequence := snapSequenceOf snapshot
  match snapshot.map (·.chainHash) with
  | some expected =>
    if entry.sequence = snapSequence ∧ chain.value ≠ expected then
      (replay, .error (.snapshotChainMismatch snapSequence expected chain.value))
    else (advance snapSequence, .ok ())
  | none => (advance snapSequence, .ok ())
where
  /-- Settle the clock at the snapshot's entry, and dispatch an entry behind it. -/
  advance (snapSequence : Nat) : Replay A E :=
    let clock :=
      if entry.sequence = snapSequence then replay.clock.atAnchor entry.timestampNs
      else replay.clock
    if entry.sequence > snapSequence then
      let dispatched := dispatch replay.app entry.event
        { nowNs := entry.timestampNs, keyHash := entry.keyHash } clock.running
      { app := dispatched.app
        clock := .settled dispatched.watermark
        lineage := match dispatched.lineage with
          | none => replay.lineage
          | some event => replay.lineage.observe entry.sequence event
        dispatched := replay.dispatched ++ [entry] }
    else { replay with clock }

variable [AppEvent E]

def replaySegment (snapshot : SnapshotSource) (reader : JournalReader) (replay : Replay A E) :
    Replay A E × Except JournaledAppError JournalReader :=
  reader.forEachEntry .journal (replayEntry snapshot) replay

end

def verifySegmentLink (index : Nat) (header : FileHeaderInfo) (prevTail : Option Digest)
    (expectedStart : Option Nat) (historyFloor : Nat) (prevGenesis : Option (Option Nat)) :
    Except JournaledAppError Unit := do
  match prevGenesis with
  | some expected =>
    if expected ≠ header.genesisEntries then
      throw (.genesisLengthMismatch index expected header.genesisEntries)
  | none => pure ()
  match prevTail with
  | some expected =>
    if expected ≠ header.anchorHash then
      throw (.journal (.segmentChainBreak index expected header.anchorHash))
  | none => pure ()
  match expectedStart with
  | some expected =>
    if header.startingSequence ≠ expected then
      throw (.journal (.sequenceGap expected header.startingSequence))
  | none =>
    if header.startingSequence > historyFloor then
      throw (.missingHistoryPrefix header.startingSequence historyFloor)

/-- At a rotation boundary, the next segment's anchor stands in for the snapshot's own entry. -/
def verifyBoundarySnapshotAnchor (header : FileHeaderInfo) (snapshot : SnapshotSource) :
    Except JournaledAppError Unit :=
  match snapshot with
  | none => .ok ()
  | some taken =>
    if taken.sequence + 1 = header.startingSequence ∧ header.anchorHash ≠ taken.chainHash then
      .error (.snapshotChainMismatch taken.sequence taken.chainHash header.anchorHash)
    else .ok ()

structure Walk (A E : Type) where
  replay : Replay A E
  /-- Chain value at the end of the last segment. -/
  prevTailHash : Option Digest
  /-- Sequence the next segment must start at. -/
  expectedStart : Option Nat
  /-- Highest sequence seen in the archives, or covered by the snapshot. -/
  lastSeqSeen : Nat
  /-- Highest sequence the journal provably reaches. -/
  journalMaxSeq : Nat
  archivedGenesisEntries : Option (Option Nat)

/-- How the writer goes on where the walk ended. -/
inductive Opening where
  | create (startingSequence : Nat) (anchorHash : Digest) (genesisEntries : Option Nat)
  | append (lastSeq validEnd : Nat)
  deriving DecidableEq

section

variable {A E R : Type} [Application A E R] [AppEvent E] [Hashing]

def startWalk (app : A) (snapshot : SnapshotSource) : Walk A E :=
  { replay :=
      { app
        clock := match snapshot with
          | none => .settled .genesis
          | some header => .fromSnapshot header
        lineage := (snapshot.map (·.lineage)).getD .genesis
        dispatched := [] }
    prevTailHash := none, expectedStart := none
    lastSeqSeen := snapSequenceOf snapshot, journalMaxSeq := 0
    archivedGenesisEntries := none }

def walkSegment (snapshot : SnapshotSource) (reads : ReadSchedule) (path : SegmentPath)
    (kind : SegmentKind) (index : Nat) (content : Bytes) (walk : Walk A E) :
    Replay A E × Except JournaledAppError (FileHeaderInfo × SegmentEnd) :=
  match JournalReader.openSegment content (reads path) path kind with
  | .error err => (walk.replay, .error (.journal err))
  | .ok reader =>
    match verifySegmentLink index reader.headerInfo walk.prevTailHash walk.expectedStart
        (snapSequenceOf snapshot + 1) walk.archivedGenesisEntries with
    | .error err => (walk.replay, .error err)
    | .ok () =>
      match verifyBoundarySnapshotAnchor reader.headerInfo snapshot with
      | .error err => (walk.replay, .error err)
      | .ok () =>
        match replaySegment snapshot reader walk.replay with
        | (replay, .error err) => (replay, .error err)
        | (replay, .ok after) => (replay, .ok (reader.headerInfo, after.segmentEnd))

def reachAfter (journalMaxSeq : Nat) (header : FileHeaderInfo) (ending : SegmentEnd) : Nat :=
  let before := max journalMaxSeq (header.startingSequence - 1)
  match ending.lastSequence with
  | some last => max before last
  | none => before

def Walk.pass (walk : Walk A E) (replay : Replay A E) (header : FileHeaderInfo)
    (ending : SegmentEnd) : Walk A E :=
  { replay
    prevTailHash := some ending.chain.value
    expectedStart := some (nextStart header ending)
    lastSeqSeen := match ending.lastSequence with
      | some last => max walk.lastSeqSeen last
      | none => walk.lastSeqSeen
    journalMaxSeq := reachAfter walk.journalMaxSeq header ending
    archivedGenesisEntries := some header.genesisEntries }

def walkArchives (snapshot : SnapshotSource) (reads : ReadSchedule) :
    List (Nat × Bytes) → Walk A E → Walk A E × Except JournaledAppError Unit
  | [], walk => (walk, .ok ())
  | (index, content) :: archives, walk =>
    match walkSegment snapshot reads (.archive index) .archived index content walk with
    | (replay, .error err) => ({ walk with replay }, .error err)
    | (replay, .ok (header, ending)) =>
      walkArchives snapshot reads archives (walk.pass replay header ending)

def checkAnchorReached (snapshot : SnapshotSource) (journalMaxSeq : Nat) :
    Except JournaledAppError Unit :=
  let snapSequence := snapSequenceOf snapshot
  if snapshot.isSome ∧ snapSequence > 0 ∧ journalMaxSeq < snapSequence then
    .error (.snapshotAnchorMissing snapSequence journalMaxSeq)
  else .ok ()

def walkLive (snapshot : SnapshotSource) (reads : ReadSchedule) (dir : JournalDir)
    (walk : Walk A E) : Replay A E × Except JournaledAppError Opening :=
  match dir.live with
  | none =>
    if dir.archives = [] then
      (walk.replay, .error (.io .notFound "no live journal and no archives — nothing to recover"))
    else
      (walk.replay, do
        checkAnchorReached snapshot walk.journalMaxSeq
        return .create (walk.lastSeqSeen + 1) (walk.prevTailHash.getD .zero)
          (walk.archivedGenesisEntries.getD none))
  | some content =>
    match walkSegment snapshot reads .live .live 0 content walk with
    | (replay, .error err) => (replay, .error err)
    | (replay, .ok (header, ending)) =>
      let lastSeq := match ending.lastSequence with
        | some last => last
        | none => header.startingSequence - 1
      (replay, do
        checkAnchorReached snapshot (reachAfter walk.journalMaxSeq header ending)
        return .append lastSeq ending.validFileEnd)

/-- Read the whole journal onto an application, and learn how to go on writing it. -/
def recoverRead (app : A) (snapshot : SnapshotSource) (reads : ReadSchedule) (dir : JournalDir) :
    Replay A E × Except JournaledAppError Opening :=
  match walkArchives snapshot reads dir.archives (startWalk app snapshot) with
  | (walk, .error err) => (walk.replay, .error err)
  | (walk, .ok ()) => walkLive snapshot reads dir walk

end

end Melin
