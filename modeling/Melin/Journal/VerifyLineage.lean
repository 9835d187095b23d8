import Melin.Journal.Reader

/-! The offline audit of a journal: every segment is read, and every link checked. -/

namespace Melin

open Lib

/-- Summary of a verified journal. -/
structure LineageReport where
  segments : Nat
  /-- Total entries across all segments. -/
  entries : Nat
  firstSequence : Option Nat
  lastSequence : Option Nat
  /-- Starting sequence of the oldest segment. -/
  lineageStart : Nat
  /-- Chain value after the last segment. -/
  tailChainHash : Option Digest
  liveTornTail : Option TornTail

/-- What the audit carries from segment to segment. -/
structure Audit where
  prevTail : Option Digest
  expectedStart : Option Nat
  lineageStart : Nat
  firstSequence : Option Nat
  lastSequence : Option Nat
  entries : Nat
  tailChainHash : Option Digest
  liveTornTail : Option TornTail

def Audit.start : Audit :=
  { prevTail := none, expectedStart := none, lineageStart := 0, firstSequence := none
    lastSequence := none, entries := 0, tailChainHash := none, liveTornTail := none }

def Audit.count {E : Type} (audit : Audit) (entry : JournalEntry E) : Audit :=
  { audit with
    firstSequence := audit.firstSequence.or (some entry.sequence)
    lastSequence := some entry.sequence
    entries := audit.entries + 1 }

structure SegmentSource where
  path : SegmentPath
  kind : SegmentKind
  content : Bytes

def JournalDir.sources (dir : JournalDir) : List SegmentSource :=
  dir.archives.map (fun (index, content) => ⟨.archive index, .archived, content⟩)
    ++ (dir.live.map fun content => ⟨.live, .live, content⟩).toList

section

variable [Hashing]

def Audit.checkLink (audit : Audit) (index : Nat) (header : FileHeaderInfo) :
    Except JournalError Unit := do
  match audit.prevTail with
  | some expected =>
    if expected ≠ header.anchorHash then
      throw (.segmentChainBreak index expected header.anchorHash)
  | none => pure ()
  match audit.expectedStart with
  | some expected =>
    if header.startingSequence ≠ expected then
      throw (.sequenceGap expected header.startingSequence)
  | none => pure ()

variable (E : Type) [AppEvent E]

def verifySegment (reads : ReadSchedule) (index : Nat) (source : SegmentSource) (audit : Audit) :
    Except JournalError Audit := do
  let reader ← JournalReader.openSegment source.content (reads source.path) source.path source.kind
  let header := reader.headerInfo
  let audit := if index = 0 then { audit with lineageStart := header.startingSequence } else audit
  audit.checkLink index header
  match reader.forEachEntry id (fun _ (entry : JournalEntry E) audit => (audit.count entry, .ok ()))
      audit with
  | (_, .error err) => throw err
  | (audit, .ok after) =>
    return { audit with
      liveTornTail := if source.kind = .live then after.tornTail else audit.liveTornTail
      prevTail := some after.chain.value
      tailChainHash := some after.chain.value
      expectedStart := some (nextStart header after.segmentEnd) }

def verifySegments (reads : ReadSchedule) :
    Nat → List SegmentSource → Audit → Except JournalError Audit
  | _, [], audit => .ok audit
  | index, source :: sources, audit => do
    let audit ← verifySegment E reads index source audit
    verifySegments reads (index + 1) sources audit

def verifyLineage (reads : ReadSchedule) (dir : JournalDir) : Except JournalError LineageReport := do
  if dir.sources = [] then throw (.io .notFound "no journal segments on disk")
  let audit ← verifySegments E reads 0 dir.sources .start
  return { segments := dir.sources.length, entries := audit.entries
           firstSequence := audit.firstSequence, lastSequence := audit.lastSequence
           lineageStart := audit.lineageStart, tailChainHash := audit.tailChainHash
           liveTornTail := audit.liveTornTail }

end

end Melin
