import Melin.Journal.RawScanner
import Melin.Journal.VerifyLineage
import Melin.Replication.InputBatch

/-! Catch-up: the journal files a replica is served from, and what is streamed to it. -/

namespace Melin

open Lib

structure Handshake where
  /-- Its journal's last sequence; zero for a fresh replica. -/
  lastSequence : Nat
  /-- Its chain value there; zero for a replica without a chain. -/
  chainHash : Digest

inductive CatchUpError where
  | readHeader (path : SegmentPath) (err : JournalError)
  | chainValue (seq : Nat) (path : SegmentPath) (err : JournalError)
  | openJournal (path : SegmentPath) (err : JournalError)
  | journalDecode (batchEndSeq : Nat) (err : JournalBatchError)
  | publishRotate (kind : IoErrorKind)
  | publishBatch (kind : IoErrorKind)

inductive CatchUpResult where
  /-- The last sequence sent, or the one it started behind. -/
  | ok (sequence : Nat)
  /-- The replica's position predates all files. -/
  | needSnapshot
  deriving DecidableEq

def discoverJournalFiles (listed : Bool) (dir : JournalDir) : List SegmentSource :=
  (if listed then dir.archives.map (fun (index, content) => ⟨.archive index, .archived, content⟩)
    else []) ++ (dir.live.map fun content => ⟨.live, .live, content⟩).toList

def saturatingSucc (value : Nat) : Nat := min (value + 1) (2 ^ 64 - 1)

section

variable [Hashing]

def SegmentSource.headerInfo (source : SegmentSource) : Except CatchUpError FileHeaderInfo :=
  match readHeaderInfo source.content with
  | .ok info => .ok info
  | .error err => .error (.readHeader source.path err)

def newestAtOrBefore (seq : Nat) :
    List SegmentSource → Except CatchUpError (Option (Nat × FileHeaderInfo))
  | [] => .ok none
  | source :: older => do
    let info ← source.headerInfo
    if info.startingSequence ≤ seq then return some (older.length, info)
    else newestAtOrBefore seq older

def containingSegment (files : List SegmentSource) (seq : Nat) :
    Except CatchUpError (Option (Nat × FileHeaderInfo)) := newestAtOrBefore seq files.reverse

/-- Whether the files reach back far enough for a replica. -/
def canCatchUpFromJournal (listed : Bool) (dir : JournalDir) (lastSequence : Nat) :
    Except CatchUpError Bool :=
  match discoverJournalFiles listed dir with
  -- No files at all: nothing is streamed, which is correct.
  | [] => .ok true
  | oldest :: _ => do
    let info ← oldest.headerInfo
    return decide (info.startingSequence ≤ saturatingSucc lastSequence)

structure Streaming where
  frames : List Bytes
  /-- The publisher's next answers; behind them it accepts. -/
  publisher : List (Except IoErrorKind Unit)
  /-- The next looks at the shutdown flag; behind them it is down. -/
  shutdown : List Bool
  endSequence : Nat

def Streaming.publish (stream : Streaming) (frame : Bytes) : Streaming × Except IoErrorKind Unit :=
  ({ stream with frames := stream.frames ++ [frame], publisher := stream.publisher.tail },
    stream.publisher.headD (.ok ()))

def Streaming.stops (stream : Streaming) : Streaming × Bool :=
  ({ stream with shutdown := stream.shutdown.tail }, stream.shutdown.headD false)

def catchUpBatchBytes : Nat := 64 * 1024

def announceBoundary (info : FileHeaderInfo) (stream : Streaming) :
    Streaming × Except CatchUpError Unit :=
  if 1 < info.startingSequence ∧ stream.endSequence = info.startingSequence - 1 then
    match stream.publish (encodeRotate (info.startingSequence - 1) info.anchorHash) with
    | (stream, .ok _) => (stream, .ok ())
    | (stream, .error kind) => (stream, .error (.publishRotate kind))
  else (stream, .ok ())

variable (E : Type) [AppEvent E]

/-- Stream a file's entries batch by batch; each batch has at least one entry. False where the
shutdown flag was up. -/
def streamBatches : Nat → RawJournalScanner → Streaming → Streaming × Except CatchUpError Bool
  | 0, _, stream => (stream, .ok true)
  | fuel + 1, scanner, stream =>
    match stream.stops with
    | (stream, true) => (stream, .ok false)
    | (stream, false) =>
      match scanner.readRawBatch catchUpBatchBytes with
      | (_, _, none) => (stream, .ok true)
      | (scanner, batch, some batchEndSeq) =>
        match encodeInputBatchFromJournal E batch [] with
        | (_, .error err) => (stream, .error (.journalDecode batchEndSeq err))
        | (sendBuf, .ok _) =>
          match stream.publish sendBuf with
          | (stream, .error kind) => (stream, .error (.publishBatch kind))
          | (stream, .ok _) =>
            streamBatches fuel scanner { stream with endSequence := batchEndSeq }

def streamFile (grants : ReadSchedule) (source : SegmentSource) (stream : Streaming) :
    Streaming × Except CatchUpError Bool :=
  match source.headerInfo with
  | .error err => (stream, .error err)
  | .ok info =>
    match announceBoundary info stream with
    | (stream, .error err) => (stream, .error err)
    | (stream, .ok _) =>
      match RawJournalScanner.openSegment source.content (grants source.path) with
      | .error err => (stream, .error (.openJournal source.path err))
      | .ok scanner =>
        streamBatches E (source.content.length + 1) (scanner.skipToAfter stream.endSequence) stream

def streamFiles (grants : ReadSchedule) :
    List SegmentSource → Streaming → Streaming × Except CatchUpError Unit
  | [], stream => (stream, .ok ())
  | source :: sources, stream =>
    match stream.stops with
    | (stream, true) => (stream, .ok ())
    | (stream, false) =>
      match streamFile E grants source stream with
      | (stream, .error err) => (stream, .error err)
      | (stream, .ok false) => (stream, .ok ())
      | (stream, .ok true) => streamFiles grants sources stream

def streamJournal (grants : ReadSchedule) (listed : Bool) (dir : JournalDir) (lastSequence : Nat)
    (publisher : List (Except IoErrorKind Unit)) (shutdown : List Bool) :
    List Bytes × Except CatchUpError CatchUpResult :=
  let files := discoverJournalFiles listed dir
  if files = [] then ([], .ok (.ok lastSequence))
  else
    match containingSegment files (saturatingSucc lastSequence) with
    | .error err => ([], .error err)
    | .ok none => ([], .ok .needSnapshot)
    | .ok (some (startFile, _)) =>
      match streamFiles E grants (files.drop startFile)
          { frames := [], publisher, shutdown, endSequence := lastSequence } with
      | (stream, .error err) => (stream.frames, .error err)
      | (stream, .ok _) => (stream.frames, .ok (.ok stream.endSequence))

end

/-- Where a sequence falls in the files of a journal. -/
inductive ChainAtSequence where
  | value (chain : Digest)
  /-- It predates the oldest file, so the value cannot be recomputed. -/
  | predatesHistory
  /-- It lies beyond the last entry. -/
  | beyondTip
  deriving DecidableEq

inductive DivergenceKind where
  | chainMismatch
  | aheadOfTip
  deriving DecidableEq, Repr

inductive HandshakeValidation where
  | ok
  | divergent (kind : DivergenceKind)
  deriving DecidableEq, Repr

section

variable [Hashing]

def openerAnchor (files : List SegmentSource) (index seq : Nat) :
    Except CatchUpError (Option Digest) :=
  match files[index]? with
  | none => .ok none
  | some source => do
    let info ← source.headerInfo
    return if info.startingSequence = seq + 1 then some info.anchorHash else none

def chainAtSequence (grants : ReadSchedule) (files : List SegmentSource) (seq : Nat) :
    Except CatchUpError ChainAtSequence := do
  match ← containingSegment files seq with
  | none =>
    match ← openerAnchor files 0 seq with
    | some anchor => return .value anchor
    | none => return .predatesHistory
  | some (index, _) =>
    match ← openerAnchor files (index + 1) seq with
    | some anchor => return .value anchor
    | none =>
      match files[index]? with
      -- The place is one of the files.
      | none => return .predatesHistory
      | some source =>
        match chainValueAt source.content (grants source.path) seq with
        | .error err => .error (.chainValue seq source.path err)
        | .ok (.value chain) => return .value chain
        | .ok .beyondTip => return .beyondTip

def validateReplicaHandshake (grants : ReadSchedule) (listed : Bool) (dir : JournalDir)
    (handshake : Handshake) : Except CatchUpError HandshakeValidation :=
  if handshake.lastSequence = 0 then .ok .ok
  else do
    match ← chainAtSequence grants (discoverJournalFiles listed dir) handshake.lastSequence with
    | .value chain =>
      -- A peer without a chain reports zeros, and is judged by its position alone.
      if handshake.chainHash = .zero then return .ok
      else if chain = handshake.chainHash then return .ok
      else return .divergent .chainMismatch
    | .predatesHistory => return .ok
    | .beyondTip => return .divergent .aheadOfTip

/-- Judge again, as often as the attempts allow, before a divergence is final. -/
def revalidate (look : Nat → Except CatchUpError HandshakeValidation) :
    Nat → Nat → HandshakeValidation → Except CatchUpError HandshakeValidation
  | 0, _, verdict => .ok verdict
  | attempts + 1, attempt, verdict =>
    if verdict = .ok then .ok verdict
    else do
      let verdict ← look attempt
      revalidate look attempts (attempt + 1) verdict

/-- Judge a replica by files that may still be settling: each attempt finds a directory. -/
def validateReplicaHandshakeSettled (grants : ReadSchedule) (listed : Bool)
    (dirs : Nat → JournalDir) (handshake : Handshake) : Except CatchUpError HandshakeValidation := do
  let verdict ← validateReplicaHandshake grants listed (dirs 0) handshake
  revalidate (fun attempt => validateReplicaHandshake grants listed (dirs attempt) handshake) 7 1
    verdict

end

end Melin
