import Melin.Journal.Segment

/-! Segments as the writer leaves them, and that they read back. -/

namespace Melin

open Lib

/-- A segment as the writer writes it: its header fields, and the entries behind the header. -/
structure WrittenSegment (E : Type) [AppEvent E] [Hashing] where
  startingSequence : Nat
  anchorHash : Digest
  genesisEntries : Option Nat
  entries : List (WrittenEntry E)
  consecutive : Consecutive startingSequence (sequencesOf entries)
  startFits : startingSequence < 2 ^ 64
  genesisFits : ∀ count ∈ genesisEntries, count < 2 ^ 64

section

variable {E : Type} [AppEvent E] [Hashing]

namespace WrittenSegment

def info (written : WrittenSegment E) : FileHeaderInfo :=
  { sectorSize := maxSectorSize, startingSequence := written.startingSequence
    anchorHash := written.anchorHash, genesisEntries := written.genesisEntries }

def header (written : WrittenSegment E) : Bytes :=
  encodeFileHeader maxSectorSize written.startingSequence written.anchorHash written.genesisEntries

def bytes (written : WrittenSegment E) : Bytes := written.header ++ bytesOf written.entries

def segment (written : WrittenSegment E) : Segment E where
  info := written.info
  records := recordsOf written.entries
  consecutive := by
    rw [recordsOf_sequences]
    exact written.consecutive
  inRange := by
    intro record member
    obtain ⟨entry, -, rfl⟩ := List.mem_map.mp member
    exact entry.inRange

theorem header_length (written : WrittenSegment E) : written.header.length = maxSectorSize :=
  encodeFileHeader_length (.inr rfl)

theorem segmentHeader_eq (written : WrittenSegment E) (rest : Bytes) :
    segmentHeader (written.header ++ rest) = .ok written.info := by
  have width := written.header_length
  rw [segmentHeader, if_neg (by
    simp only [List.length_append, width, maxSectorSize, fileHeaderSize]; omega)]
  exact decodeFileHeader_encodeFileHeader _ _ (.inr rfl) written.startFits written.genesisFits

theorem drop_header (written : WrittenSegment E) (rest : Bytes) :
    (written.bytes ++ rest).drop maxSectorSize = bytesOf written.entries ++ rest := by
  rw [bytes, List.append_assoc]
  exact List.drop_left' written.header_length

theorem readsFrom [LawfulAppEvent E] (written : WrittenSegment E) (zeros : Nat)
    (path : SegmentPath) (kind : SegmentKind) :
    written.segment.ReadsFrom (written.bytes ++ List.replicate zeros 0) path kind := by
  have header : segmentHeader (written.bytes ++ List.replicate zeros 0) = .ok written.info := by
    rw [bytes, List.append_assoc]
    exact written.segmentHeader_eq _
  have behind : (startPlace (written.bytes ++ List.replicate zeros 0) path kind written.info).rest
      = bytesOf written.entries ++ List.replicate zeros 0 := written.drop_header _
  refine ⟨header, none, ?_⟩
  change (startPlace (written.bytes ++ List.replicate zeros 0) path kind written.info).scan
    = (recordsOf written.entries, .ok none)
  rw [Place.scan_written behind written.consecutive,
    Place.scan_zeros (Place.rest_advanceAll (by rw [recordsOf_raw, behind])), List.append_nil]

theorem segment_next (written : WrittenSegment E) :
    written.segment.next = written.startingSequence + written.entries.length := by
  simp [Segment.next, segment, recordsOf, info]

theorem segment_entries (written : WrittenSegment E) :
    written.segment.entries = written.entries.map (·.entry) :=
  recordsOf_entries written.entries

def chain (written : WrittenSegment E) : SegmentChain :=
  written.entries.foldl (fun chain entry => chain.absorb entry.bytes) (.new written.anchorHash)

theorem segment_tail (written : WrittenSegment E) :
    written.segment.tail = written.chain.value := by
  have absorbed : (recordsOf written.entries).foldl (fun chain record => chain.absorb record.raw)
      (.new written.anchorHash) = written.chain := List.foldl_map ..
  rw [Segment.tail, Segment.chainAfter, List.take_length, ← absorbed]
  rfl

end WrittenSegment

end

end Melin
