import Melin.Pipeline.JournalDiskLaws
import Melin.Pipeline.JournalStage

/-! A ledger of what the journal stage has encoded: on disk, handed over, and still pending. -/

namespace Melin

open Lib

section

variable {E : Type} [AppEvent E]

/-- What a stage starts from: the entries of its live segment, its next sequence, its cursors. -/
structure Origin (E : Type) where
  entries : List (JournalEntry E)
  first : Nat
  cursors : DurabilityCursors
  /-- Whether the batches carry the chain value. -/
  observed : Bool
  opening : FileHeaderInfo

def Origin.journal (origin : Origin E) (slots : List (InputSlot E)) : List (JournalEntry E) :=
  origin.entries ++ journaled origin.first slots

/-- What a batch publishes is what the ring's front up to its progress is journaled as. -/
structure Origin.Covers (origin : Origin E) (ring : List (InputSlot E)) (info : JournalWriteMeta)
    (entries : List (JournalEntry E)) (tail : Digest) : Prop where
  progress : info.ringProgress ≤ ring.length
  entries : entries = origin.journal (ring.take info.ringProgress)
  journalSeq : info.journalSeq = origin.first + wireSeqsTaken (ring.take info.ringProgress) - 1
  chain : origin.observed = true → info.chainHash = tail

theorem Origin.Covers.grow {origin : Origin E} {ring : List (InputSlot E)} {info : JournalWriteMeta}
    {entries : List (JournalEntry E)} {tail : Digest}
    (covers : origin.Covers ring info entries tail) (more : List (InputSlot E)) :
    origin.Covers (ring ++ more) info entries tail := by
  have front : (ring ++ more).take info.ringProgress = ring.take info.ringProgress :=
    List.take_append_of_le_length covers.progress
  refine ⟨covers.progress.trans (by simp), ?_, ?_, covers.chain⟩
  · rw [front]
    exact covers.entries
  · rw [front]
    exact covers.journalSeq

end

section

variable {E : Type} [AppEvent E] [Hashing]

def segmentEntries (content : Bytes) : List (JournalEntry E) :=
  match segmentHeader content with
  | .ok info => ((startPlace content .live .live info).scan (E := E)).1.map (·.entry)
  | .error _ => []

variable (E) in
def segmentTail (content : Bytes) : Digest :=
  match segmentHeader content with
  | .ok info =>
    (((startPlace content .live .live info).scan (E := E)).1.foldl
      (fun chain record => chain.absorb record.raw) (SegmentChain.new info.anchorHash)).value
  | .error _ => .zero

def syncedEntries (fs : Fs NodeFile) (file : Nat) : List (JournalEntry E) :=
  segmentEntries (fs.inodes file).synced

variable (E) in
def syncedTail (fs : Fs NodeFile) (files : List Nat) : Digest :=
  match files.getLast? with
  | some file => segmentTail E (fs.inodes file).synced
  | none => .zero

theorem WrittenSegment.segmentEntries_eq [LawfulAppEvent E] (written : WrittenSegment E)
    {content : Bytes} (padded : Padded written.bytes content) :
    segmentEntries content = written.entries.map (·.entry) := by
  obtain ⟨zeros, rfl⟩ := padded
  obtain ⟨header, tornTail, scanned⟩ := written.readsFrom zeros .live .live
  rw [segmentEntries, header]
  simp only [scanned]
  exact written.segment_entries

theorem WrittenSegment.segmentTail_eq [LawfulAppEvent E] (written : WrittenSegment E)
    {content : Bytes} (padded : Padded written.bytes content) :
    segmentTail E content = written.chain.value := by
  obtain ⟨zeros, rfl⟩ := padded
  obtain ⟨header, tornTail, scanned⟩ := written.readsFrom zeros .live .live
  rw [segmentTail, header]
  simp only [scanned]
  rw [← written.segment_tail, Segment.tail, Segment.chainAfter, List.take_length]

theorem HoldsFiles.syncedEntries_eq [LawfulAppEvent E] {fs : Fs NodeFile} {files : List Nat}
    {archived : List (WrittenSegment E)} {segment : SegmentFile} {live : WrittenSegment E}
    (holds : HoldsFiles fs files archived segment live) :
    (files ++ [segment.file]).flatMap (syncedEntries fs)
      = (archived.flatMap (·.entries) ++ live.entries).map (·.entry) := by
  obtain ⟨content, settled, padded⟩ := holds.liveFile
  have liveRead : syncedEntries fs segment.file = live.entries.map (·.entry) := by
    rw [syncedEntries, settled]
    exact live.segmentEntries_eq padded
  have sealedRead : ∀ {files : List Nat} {archived : List (WrittenSegment E)},
      List.Forall₂ (fun file written => (fs.inodes file).Keeps written.bytes) files archived →
      files.flatMap (syncedEntries fs) = (archived.flatMap (·.entries)).map (·.entry) := by
    intro files archived keeps
    induction keeps with
    | nil => rfl
    | cons keep _ ih =>
      rw [List.flatMap_cons, List.flatMap_cons, List.map_append, ih, syncedEntries,
        WrittenSegment.segmentEntries_eq _ keep.synced]
  rw [List.flatMap_append, List.flatMap_singleton, sealedRead holds.sealedFiles, liveRead,
    List.map_append]

theorem HoldsFiles.syncedTail_eq [LawfulAppEvent E] {fs : Fs NodeFile} {files : List Nat}
    {archived : List (WrittenSegment E)} {segment : SegmentFile} {live : WrittenSegment E}
    (holds : HoldsFiles fs files archived segment live) :
    syncedTail E fs (files ++ [segment.file]) = live.chain.value := by
  obtain ⟨content, settled, padded⟩ := holds.liveFile
  rw [syncedTail, List.getLast?_concat]
  simp only [settled]
  exact live.segmentTail_eq padded

def chainBehind (chain : SegmentChain) (entries : List (WrittenEntry E)) : SegmentChain :=
  entries.foldl (fun chain entry => chain.absorb entry.bytes) chain

theorem chainBehind_append (chain : SegmentChain) (front back : List (WrittenEntry E)) :
    chainBehind chain (front ++ back) = chainBehind (chainBehind chain front) back :=
  List.foldl_append

/-- Batches that carry these entries, each behind everything before it. -/
inductive HandedOver (origin : Origin E) (ring : List (InputSlot E)) :
    SegmentChain → List (WrittenEntry E) → List HandedBatch → List (List (WrittenEntry E)) → Prop
  where
  | nil (chain : SegmentChain) (before : List (WrittenEntry E)) :
      HandedOver origin ring chain before [] []
  | cons {chain : SegmentChain} {before part : List (WrittenEntry E)} {batch : HandedBatch}
      {batches : List HandedBatch} {parts : List (List (WrittenEntry E))}
      (bytes : batch.bytes = bytesOf part)
      (covers : origin.Covers ring batch.info ((before ++ part).map (·.entry))
        (chainBehind chain part).value)
      (rest : HandedOver origin ring (chainBehind chain part) (before ++ part) batches parts) :
      HandedOver origin ring chain before (batch :: batches) (part :: parts)

namespace HandedOver

variable {origin : Origin E} {ring : List (InputSlot E)} {chain : SegmentChain}
  {before part : List (WrittenEntry E)} {batches : List HandedBatch}
  {parts : List (List (WrittenEntry E))}

theorem grow (handed : HandedOver origin ring chain before batches parts)
    (more : List (InputSlot E)) :
    HandedOver origin (ring ++ more) chain before batches parts := by
  induction handed with
  | nil chain before => exact .nil chain before
  | cons bytes covers _ ih => exact .cons bytes (covers.grow more) ih

theorem length_eq (handed : HandedOver origin ring chain before batches parts) :
    batches.length = parts.length := by
  induction handed with
  | nil => rfl
  | cons _ _ _ ih => simp [ih]

theorem snoc (handed : HandedOver origin ring chain before batches parts) {batch : HandedBatch}
    (bytes : batch.bytes = bytesOf part)
    (covers : origin.Covers ring batch.info ((before ++ parts.flatten ++ part).map (·.entry))
      (chainBehind chain (parts.flatten ++ part)).value) :
    HandedOver origin ring chain before (batches ++ [batch]) (parts ++ [part]) := by
  induction handed with
  | nil chain before => exact .cons bytes (by simpa using covers) (.nil ..)
  | cons firstBytes firstCovers _ ih =>
    refine .cons firstBytes firstCovers (ih ?_)
    simpa [List.append_assoc, chainBehind, List.foldl_append] using covers

theorem drop (handed : HandedOver origin ring chain before batches parts) (count : Nat) :
    HandedOver origin ring (chainBehind chain (parts.take count).flatten)
      (before ++ (parts.take count).flatten) (batches.drop count) (parts.drop count) := by
  induction handed generalizing count with
  | nil chain before => simpa [chainBehind] using HandedOver.nil chain before
  | cons bytes covers rest ih =>
    cases count with
    | zero => simpa [chainBehind] using HandedOver.cons bytes covers rest
    | succ count =>
      rw [List.take_succ_cons, List.flatten_cons, chainBehind_append]
      simpa [List.append_assoc] using ih count

theorem take_bytes (handed : HandedOver origin ring chain before batches parts) (count : Nat) :
    ((batches.take count).map (·.bytes)).flatten = bytesOf (parts.take count).flatten := by
  induction handed generalizing count with
  | nil chain before => simp [bytesOf]
  | cons bytes covers rest ih =>
    cases count with
    | zero => simp [bytesOf]
    | succ count =>
      rw [List.take_succ_cons, List.map_cons, List.flatten_cons, bytes, ih count]
      simp [bytesOf]

theorem covers_last (handed : HandedOver origin ring chain before batches parts) {count : Nat}
    {last : HandedBatch} (isLast : (batches.take count).getLast? = some last) :
    origin.Covers ring last.info ((before ++ (parts.take count).flatten).map (·.entry))
      (chainBehind chain (parts.take count).flatten).value := by
  induction handed generalizing count with
  | nil chain before => simp at isLast
  | @cons chain before part batch batches parts bytes covers rest ih =>
    cases count with
    | zero => simp at isLast
    | succ count =>
      rw [List.take_succ_cons] at isLast ⊢
      rw [List.flatten_cons, ← List.append_assoc, chainBehind_append]
      cases none : batches.take count with
      | nil =>
        rw [none, List.getLast?_singleton, Option.some.injEq] at isLast
        have noParts : parts.take count = [] := by
          rw [← List.length_eq_zero_iff, List.length_take, ← rest.length_eq, ← List.length_take,
            none, List.length_nil]
        rw [noParts, List.flatten_nil, List.append_nil, ← isLast]
        exact covers
      | cons second others =>
        rw [none, List.getLast?_cons_cons, ← none] at isLast
        exact ih isLast

end HandedOver

/-- What the journal stage has encoded since it started, and how far each part of it has come. -/
structure Ledger (E : Type) [AppEvent E] [Hashing] where
  archived : List (WrittenSegment E)
  live : WrittenSegment E
  /-- The entries of the batches handed over. -/
  handed : List (List (WrittenEntry E))
  /-- The entries encoded and not handed over. -/
  pending : List (WrittenEntry E)

namespace Ledger

def onDisk (ledger : Ledger E) : List (WrittenEntry E) :=
  ledger.archived.flatMap (·.entries) ++ ledger.live.entries

def ahead (ledger : Ledger E) : List (WrittenEntry E) := ledger.handed.flatten ++ ledger.pending

def entries (ledger : Ledger E) : List (WrittenEntry E) := ledger.onDisk ++ ledger.ahead

def next (ledger : Ledger E) : Nat := ledger.live.next + ledger.ahead.length

def chain (ledger : Ledger E) : SegmentChain := chainBehind ledger.live.chain ledger.ahead

structure LinkedFrom (ledger : Ledger E) (opening : FileHeaderInfo) : Prop where
  links : ((ledger.archived ++ [ledger.live]).map (·.segment)).IsChain Segment.Links
  first : ∀ first ∈ (ledger.archived ++ [ledger.live]).head?, first.info = opening

end Ledger

/-- What the disk thread did is all true: each publication, and that none follows a failure. -/
structure HistoryOk (origin : Origin E) (ring : List (InputSlot E)) (history : List DiskEvent) :
    Prop where
  published : ∀ info files fs, DiskEvent.published info files fs ∈ history →
    origin.Covers ring info (files.flatMap (syncedEntries fs)) (syncedTail E fs files)
  failedLast : ∀ before err after, history = before ++ .failed err :: after → after = []

end

end Melin
