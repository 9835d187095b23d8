import Melin.Journal.RawScannerLaws
import Melin.Transport.WriterRun

/-! One chain value per entry: the writer, both scanners and a rebuild from the file agree on it. -/

namespace Melin

open Lib

section

variable {E : Type} [AppEvent E] [Hashing]

/-- Read entries until the one with a sequence was returned; each takes at least one byte. -/
def JournalReader.readUntil (E : Type) [AppEvent E] (sequence : Nat) :
    Nat → JournalReader → Except JournalError (Option JournalReader)
  | 0, _ => .ok none
  | fuel + 1, reader =>
    match reader.nextEntry (E := E) with
    | (_, .error err) => .error err
    | (_, .ok none) => .ok none
    | (reader, .ok (some entry)) =>
      if entry.sequence = sequence then .ok (some reader) else readUntil E sequence fuel reader

theorem Place.chain_advanceAll (place : Place) {entries : List (WrittenEntry E)} (some : entries ≠ []) :
    (place.advanceAll (recordsOf entries)).chain = place.chain.absorb (bytesOf entries) := by
  have folded : ∀ (records : List (Record E)) (place : Place),
      (place.advanceAll records).chain
        = records.foldl (fun chain record => chain.absorb record.raw) place.chain := by
    intro records
    induction records with
    | nil => exact fun _ => rfl
    | cons record records ih => exact fun place => ih (place.advance record)
  rw [folded, SegmentChain.foldl_absorb Record.raw (by simpa [recordsOf] using some), recordsOf_raw]

theorem Place.offset_advanceAll (place : Place) (entries : List (WrittenEntry E)) :
    (place.advanceAll (recordsOf entries)).offset = place.offset + (bytesOf entries).length := by
  rw [← recordsOf_raw]
  induction recordsOf entries generalizing place with
  | nil => rfl
  | cons record records ih =>
    rw [Place.advanceAll, List.foldl_cons]
    refine (ih (place.advance record)).trans ?_
    rw [List.flatMap_cons, List.length_append, Place.advance, Nat.add_assoc]

theorem JournalReader.readUntil_written [LawfulAppEvent E] {fuel : Nat} {reader : JournalReader}
    (tracks : reader.Tracks) {front back : List (WrittenEntry E)} {entry : WrittenEntry E}
    {rest : Bytes} (bytes : reader.place.rest = bytesOf (front ++ entry :: back) ++ rest)
    (continues : Consecutive (expectedSequence reader.place.startingSequence
      reader.place.lastSequence) (sequencesOf (front ++ entry :: back)))
    (early : ∀ other ∈ front, other.entry.sequence < entry.entry.sequence)
    (enough : front.length < fuel) :
    ∃ after, readUntil E entry.entry.sequence fuel reader = .ok (some after) ∧
      after.place = reader.place.advanceAll (recordsOf (front ++ [entry])) := by
  induction fuel generalizing reader front with
  | zero => omega
  | succ fuel ih =>
    have read := nextEntry_spec (E := E) tracks
    cases front with
    | nil =>
      simp only [List.nil_append, bytesOf, List.flatMap_cons, List.append_assoc] at bytes
      simp only [List.nil_append, sequencesOf, List.map_cons, consecutive_cons] at continues
      rw [Place.next_written bytes continues.1] at read
      obtain ⟨after, run, -, afterPlace⟩ := read
      refine ⟨after, ?_, afterPlace⟩
      rw [readUntil, run]
      exact if_pos rfl
    | cons first front =>
      simp only [List.cons_append, bytesOf, List.flatMap_cons, List.append_assoc] at bytes
      simp only [List.cons_append, sequencesOf, List.map_cons, consecutive_cons] at continues
      rw [Place.next_written bytes continues.1] at read
      obtain ⟨after, run, afterTracks, afterPlace⟩ := read
      have other : first.entry.sequence ≠ entry.entry.sequence := (early first (by simp)).ne
      obtain ⟨last, reaches, lastPlace⟩ := ih afterTracks
        (by
          rw [afterPlace, Place.rest_advance (show _ = first.record.raw ++ _ from bytes)]
          rfl)
        (by
          rw [afterPlace]
          simpa [Place.advance, expectedSequence, WrittenEntry.record, continues.1, sequencesOf]
            using continues.2)
        (fun later member => early later (by simp [member])) (by simpa using enough)
      refine ⟨last, ?_, by rw [lastPlace, afterPlace]; rfl⟩
      rw [readUntil, run]
      exact (if_neg other).trans reaches

theorem WrittenSegment.mem_stamps {written : WrittenSegment E} {stamp : Stamped E}
    (member : stamp ∈ written.stamps) :
    ∃ front entry back, written.entries = front ++ entry :: back ∧ stamp.entry = entry.entry ∧
      stamp.chain = ((SegmentChain.new written.anchorHash).absorb (bytesOf (front ++ [entry]))).value := by
  have found : ∀ (entries : List (WrittenEntry E)) (chain : SegmentChain),
      stamp ∈ stampsFrom chain entries →
      ∃ front entry back, entries = front ++ entry :: back ∧ stamp.entry = entry.entry ∧
        stamp.chain = (chain.absorb (bytesOf (front ++ [entry]))).value := by
    intro entries
    induction entries with
    | nil => simp [stampsFrom]
    | cons first entries ih =>
      intro chain member
      rcases List.mem_cons.mp member with rfl | later
      · exact ⟨[], first, entries, rfl, rfl, by simp [bytesOf]⟩
      · obtain ⟨front, entry, back, rfl, entryEq, chainEq⟩ := ih _ later
        refine ⟨first :: front, entry, back, rfl, entryEq, ?_⟩
        rw [chainEq, SegmentChain.absorb_append]
        simp [bytesOf]
  exact found _ _ member

theorem DiskHolds.exists_file {fs : Fs NodeFile} {archived : List (WrittenSegment E)} {inode : Nat}
    {live written : WrittenSegment E} (disk : DiskHolds fs archived inode live)
    (member : written ∈ archived ++ [live]) :
    ∃ path zeros, fs.content (.segment path) = some (written.bytes ++ List.replicate zeros 0) := by
  rcases List.mem_append.mp member with inArchives | isLive
  · obtain ⟨lengths, each⟩ := List.forall₂_iff_get.mp disk.archives
    obtain ⟨position, rfl⟩ := List.mem_iff_get.mp inArchives
    have inside : position < (archiveIndexes fs.table).length := by
      rw [lengths]
      exact position.2
    obtain ⟨file, found, keeps⟩ := each position inside position.2
    obtain ⟨zeros, content⟩ := keeps.content
    refine ⟨.archive ((archiveIndexes fs.table).get ⟨position, inside⟩), zeros, ?_⟩
    rw [Fs.content, Fs.file, found]
    exact congrArg some content
  · obtain rfl := List.mem_singleton.mp isLive
    obtain ⟨content, settled, zeros, rfl⟩ := disk.liveFile
    exact ⟨.live, zeros, by simp [Fs.content, Fs.file, disk.liveName, settled]⟩

theorem WrittenSegment.chain_agrees [LawfulAppEvent E] (written : WrittenSegment E) (zeros : Nat)
    {stamp : Stamped E} (member : stamp ∈ written.stamps) (path : SegmentPath) (kind : SegmentKind)
    (grants : Nat → Nat) :
    ∃ opened reader,
      JournalReader.openSegment (written.bytes ++ List.replicate zeros 0) grants path kind
        = .ok opened ∧
      JournalReader.readUntil E stamp.entry.sequence
        ((written.bytes ++ List.replicate zeros 0).length + 1) opened = .ok (some reader) ∧
      reader.chain.value = stamp.chain ∧
      (∀ file : ByteFile, reader.validFileEnd ≤ file.content.length →
        file.content.take reader.validFileEnd
          = (written.bytes ++ List.replicate zeros 0).take reader.validFileEnd →
        SegmentChain.rebuildFromFile file opened.headerInfo.anchorHash entryOffset
          reader.validFileEnd = .ok reader.chain) ∧
      chainValueAt (written.bytes ++ List.replicate zeros 0) grants stamp.entry.sequence
        = .ok (.value stamp.chain) := by
  obtain ⟨front, entry, back, split, entryEq, chainEq⟩ := WrittenSegment.mem_stamps member
  have opened := JournalReader.openSegment_spec (written.bytes ++ List.replicate zeros 0) grants path
    kind
  rw [(written.readsFrom zeros path kind).1] at opened
  obtain ⟨opened, openEq, tracks, placeEq, infoEq⟩ := opened
  have rest : opened.place.rest = bytesOf (front ++ entry :: back) ++ List.replicate zeros 0 := by
    rw [placeEq, ← split]
    exact written.drop_header _
  have continues : Consecutive (expectedSequence opened.place.startingSequence
      opened.place.lastSequence) (sequencesOf (front ++ entry :: back)) := by
    rw [placeEq, ← split]
    exact written.consecutive
  have count := length_le_bytesOf written.entries
  obtain ⟨reader, reaches, readerPlace⟩ := JournalReader.readUntil_written tracks rest continues
    (WrittenSegment.sequence_bounds split).1
    (show front.length < (written.bytes ++ List.replicate zeros 0).length + 1 by
      simp only [split, List.length_append, List.length_cons] at count
      simp only [List.length_append, WrittenSegment.bytes, split]
      omega)
  have chain : reader.chain = (SegmentChain.new written.anchorHash).absorb
      (bytesOf (front ++ [entry])) := by
    have placed := congrArg Place.chain readerPlace
    rw [Place.chain_advanceAll _ (by simp), placeEq] at placed
    exact placed
  have ends : reader.validFileEnd = entryOffset + (bytesOf (front ++ [entry])).length := by
    have placed := congrArg Place.offset readerPlace
    rw [Place.offset_advanceAll, placeEq] at placed
    exact placed
  refine ⟨opened, reader, openEq, by rw [entryEq]; exact reaches, by rw [chain, chainEq],
    fun file inside same => ?_, ?_⟩
  · -- The file has the segment's bytes up to the entry, so the rebuild absorbs the same ones.
    have some : 0 < (bytesOf (front ++ [entry])).length :=
      List.length_pos_iff.mpr fun empty => by simpa using bytesOf_eq_nil.mp empty
    have upTo : bytesOf (front ++ entry :: back) = bytesOf (front ++ [entry]) ++ bytesOf back := by
      simp [bytesOf]
    have bytes : slice file.content entryOffset (reader.validFileEnd - entryOffset)
        = bytesOf (front ++ [entry]) := by
      have window : slice file.content entryOffset (reader.validFileEnd - entryOffset)
          = (file.content.take reader.validFileEnd).drop entryOffset := by
        rw [slice, List.drop_take]
      rw [window, same, List.drop_take, show entryOffset = maxSectorSize from rfl,
        written.drop_header, ends, show entryOffset = maxSectorSize from rfl,
        Nat.add_sub_cancel_left, split, upTo, List.append_assoc, List.take_left]
    rw [SegmentChain.rebuildFromFile_eq _ inside, if_neg (by omega), bytes, chain, infoEq]
    rfl
  · rw [entryEq, chainValueAt_written written split, chainEq]

variable {A R : Type} [Application A E R] [LawfulAppEvent E]

/-- The chain value of every entry is one, whoever computes it, and rotating does not change it. -/
theorem WriterState.run_chain_agrees {fs : Fs NodeFile} (blank : Blank fs) (salt : Digest)
    (prealloc : Prealloc) (app : A) (ops : List (WriterOp E))
    (journalable : ∀ op ∈ ops, op.Journalable) (fits : (ops.map (·.appends)).sum + 1 < 2 ^ 64) :
    ∃ start state : WriterState E, create fs salt prealloc = .ok start ∧
      start.run app ops = .ok state ∧ state.written.map (·.appended) = flushedBy ops ∧
      -- The value the encoder had behind an entry is what every reader of its file finds there.
      (∀ stamp ∈ state.written, ∃ path content, state.fs.content (.segment path) = some content ∧
        ∀ kind grants, ∃ opened reader,
          JournalReader.openSegment content grants path kind = .ok opened ∧
          JournalReader.readUntil E stamp.entry.sequence (content.length + 1) opened
            = .ok (some reader) ∧
          reader.chain.value = stamp.chain ∧
          (∀ file : ByteFile, reader.validFileEnd ≤ file.content.length →
            file.content.take reader.validFileEnd = content.take reader.validFileEnd →
            SegmentChain.rebuildFromFile file opened.headerInfo.anchorHash entryOffset
              reader.validFileEnd = .ok reader.chain) ∧
          chainValueAt content grants stamp.entry.sequence = .ok (.value stamp.chain)) ∧
      -- Behind a rotation the new segment is empty, and its value is the old one's tail.
      ∃ rotated content, state.step app .rotate = .ok rotated ∧
        rotated.writer.chainHash = state.writer.chainHash ∧
        rotated.fs.content .live = some content ∧
        ∀ kind grants, ∃ reader, JournalReader.openSegment content grants .live kind = .ok reader ∧
          reader.chain.value = state.writer.chainHash := by
  obtain ⟨start, state, archived, inode, live, pending, created, ran, holds, flushed, bound⟩ :=
    run_holds blank salt prealloc app ops journalable fits
  refine ⟨start, state, created, ran, flushed, fun stamp member => ?_, ?_⟩
  · rw [holds.written] at member
    obtain ⟨written, inHistory, stamped⟩ := List.mem_flatMap.mp member
    obtain ⟨path, zeros, content⟩ := holds.disk.exists_file inHistory
    exact ⟨path, _, content, fun kind grants => written.chain_agrees zeros stamped path kind grants⟩
  · obtain ⟨fs, writer, file, sealedLive, fresh, rotates, after, -, anchor, -, chainEq⟩ :=
      holds.rotate bound
    obtain ⟨content, settled, zeros, contentEq⟩ := after.disk.liveFile
    refine ⟨_, content, by simp only [step, rotates]; rfl, chainEq, ?_, fun kind grants => ?_⟩
    · rw [Fs.content, Fs.file, after.disk.liveName]
      exact congrArg (fun file => some file.content) settled
    · have opened := JournalReader.openSegment_spec content grants .live kind
      rw [contentEq, (fresh.readsFrom zeros .live kind).1, ← contentEq] at opened
      obtain ⟨reader, openEq, -, placeEq, -⟩ := opened
      refine ⟨reader, openEq, ?_⟩
      have chain : reader.chain = .new fresh.anchorHash := congrArg Place.chain placeEq
      rw [chain, ← anchor]
      rfl

end

/-- In the sample run, both entries have the chain value the encoder had behind them. -/
theorem run_chain_agrees_sample :
    ∃ start state : WriterState CounterEvent,
      WriterState.create emptyFs .zero samplePrealloc = .ok start ∧
      start.run (⟨0⟩ : Counter) sampleOps = .ok state ∧ state.written.length = 2 ∧
      ∀ stamp ∈ state.written, ∃ path content, state.fs.content (.segment path) = some content ∧
        chainValueAt content (fun _ => 7) stamp.entry.sequence = .ok (.value stamp.chain) := by
  obtain ⟨start, state, created, ran, flushed, agrees, -⟩ :=
    WriterState.run_chain_agrees emptyFs_blank .zero samplePrealloc (⟨0⟩ : Counter) sampleOps
      (by simp [sampleOps, WriterOp.Journalable, JournalEvent.isShutdown]) (by decide)
  have count : state.written.length = 2 := by
    rw [← List.length_map, flushed]
    rfl
  refine ⟨start, state, created, ran, count, fun stamp member => ?_⟩
  obtain ⟨path, content, named, readers⟩ := agrees stamp member
  obtain ⟨-, -, -, -, -, -, value⟩ := readers .live fun _ => 7
  exact ⟨path, content, named, value⟩

end Melin
