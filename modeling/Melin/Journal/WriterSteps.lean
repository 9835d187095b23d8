import Melin.Journal.DiskHistory

/-! The writer against a written history: what it holds, and what each of its calls does. -/

namespace Melin

open Lib

section

variable {E : Type} [AppEvent E] [Hashing]

variable {room seq : Nat} {timestampNs keyHash : UInt64} {event : JournalEvent E}

theorem encode_length_le {sequence : Nat} {bytes : Bytes}
    (encoded : encode sequence timestampNs keyHash event room = .ok bytes) :
    entryFramingSize ≤ bytes.length ∧ bytes.length ≤ entrySize E := by
  obtain ⟨tag, -, -, width, metadata, size⟩ := encode_frame encoded
  have payload : maxEntryLength E (some tag)
      ≤ entryMetaSize + max (AppEvent.maxEncodedSize E) transportPayloadSize := by
    simp only [maxEntryLength, transportPayloadSize, ackPolicyChangePayloadSize]
    split_ifs <;> omega
  rw [size, entrySize, entryFramingSize]
  omega

theorem WrittenEntry.length_le (written : WrittenEntry E) : written.bytes.length ≤ entrySize E :=
  (encode_length_le written.encoded).2

theorem JournalEncoder.encodeEvent_ok {encoder : JournalEncoder} {bytes : Bytes}
    (ascends : encoder.lastEncodedSeq < seq)
    (encoded : encode seq timestampNs keyHash event maxEntrySize = .ok bytes)
    (fits : bytes.length ≤ room) :
    encoder.encodeEvent room seq timestampNs event keyHash
      = .ok { encoder with
          chain := encoder.chain.absorb bytes
          batch := encoder.batch ++ bytes
          lastEncodedSeq := seq } := by
  rw [JournalEncoder.encodeEvent, if_neg (Nat.not_le.mpr ascends), encoded]
  exact if_neg (Nat.not_lt.mpr fits)

theorem JournalEncoder.encodeEvent_eq_ok {encoder after : JournalEncoder}
    (encoded : encoder.encodeEvent room seq timestampNs event keyHash = .ok after) :
    ∃ bytes, encode seq timestampNs keyHash event maxEntrySize = .ok bytes ∧
      after = { encoder with
        chain := encoder.chain.absorb bytes
        batch := encoder.batch ++ bytes
        lastEncodedSeq := seq } := by
  unfold JournalEncoder.encodeEvent at encoded
  split at encoded
  · cases encoded
  · cases framed : encode seq timestampNs keyHash event maxEntrySize with
    | error err =>
      rw [framed] at encoded
      cases encoded
    | ok bytes =>
      rw [framed] at encoded
      by_cases fits : room < bytes.length
      · simp [bind, Except.bind, fits] at encoded
      · simp only [bind, Except.bind, if_neg fits] at encoded
        cases encoded
        exact ⟨bytes, rfl, rfl⟩

theorem BufferedWriter.batchAppendWithTs_eq_ok {writer after : BufferedWriter}
    (accepted : writer.batchAppendWithTs event timestampNs keyHash = (after, .ok seq)) :
    ∃ bytes, encode writer.nextSequence timestampNs keyHash event maxEntrySize = .ok bytes ∧
      seq = writer.nextSequence ∧ after.segment = writer.segment ∧
      after.encoder.batch = writer.encoder.batch ++ bytes ∧
      after.nextSequence = writer.nextSequence + 1 := by
  simp only [batchAppendWithTs, BufferedWriter.encodeEvent] at accepted
  split at accepted
  · simp at accepted
  · rename_i grown encoded
    simp only [Prod.mk.injEq, Except.ok.injEq] at accepted
    obtain ⟨rfl, rfl⟩ := accepted
    split at encoded
    · simp at encoded
    · rename_i encoder encodes
      simp only [Prod.mk.injEq, and_true] at encoded
      obtain ⟨bytes, framed, rfl⟩ := JournalEncoder.encodeEvent_eq_ok encodes
      subst encoded
      exact ⟨bytes, framed, rfl, rfl, rfl, rfl⟩

theorem BufferedWriter.encodeEvent_ok [LawfulAppEvent E] (writer : BufferedWriter)
    {written : WrittenEntry E} (ascends : writer.encoder.lastEncodedSeq < seq)
    (encoded : encode seq timestampNs keyHash event maxEntrySize = .ok written.bytes)
    (buffer : writer.encoder.batch.length ≤ writer.batchBufLen) :
    ∃ batchBufLen, writer.encoder.batch.length + written.bytes.length ≤ batchBufLen ∧
      writer.encodeEvent seq timestampNs event keyHash
        = ({ writer with
              batchBufLen
              encoder := { writer.encoder with
                chain := writer.encoder.chain.absorb written.bytes
                batch := writer.encoder.batch ++ written.bytes
                lastEncodedSeq := seq } }, .ok ()) := by
  have width := written.length_le
  have small : entrySize E ≤ batchBufCapacity := by
    have := LawfulAppEvent.entrySize_le (E := E)
    simp only [maxEntrySize] at this
    simp only [batchBufCapacity]
    omega
  unfold BufferedWriter.encodeEvent
  by_cases short : writer.batchBufLen - writer.encoder.batch.length < entrySize E
  · refine ⟨writer.batchBufLen + batchBufCapacity, by omega, ?_⟩
    simp only [if_pos short]
    rw [JournalEncoder.encodeEvent_ok ascends encoded (by omega)]
  · refine ⟨writer.batchBufLen, by omega, ?_⟩
    simp only [if_neg short]
    rw [JournalEncoder.encodeEvent_ok ascends encoded (by omega)]

theorem BufferedWriter.batchAppendWithTs_shutdown (writer : BufferedWriter) (timestampNs keyHash : UInt64)
    (ascends : writer.encoder.lastEncodedSeq < writer.encoder.nextSequence) :
    ∃ batchBufLen err, writer.batchBufLen ≤ batchBufLen ∧
      writer.batchAppendWithTs (JournalEvent.shutdown (E := E)) timestampNs keyHash
        = ({ writer with batchBufLen, encoder := writer.encoder.allocateSequence.2 }, .error err) := by
  have refused : ∃ err, ∀ room, writer.encoder.allocateSequence.2.encodeEvent room
      writer.encoder.nextSequence timestampNs (JournalEvent.shutdown (E := E)) keyHash
        = .error err := by
    refine ⟨.corruptEntry writer.encoder.nextSequence
      "JournalEvent::Shutdown must not reach the codec", fun room => ?_⟩
    have ascends' : ¬ writer.encoder.nextSequence
        ≤ writer.encoder.allocateSequence.2.lastEncodedSeq := Nat.not_le.mpr ascends
    rw [JournalEncoder.encodeEvent, if_neg ascends']
    rfl
  obtain ⟨err, refused⟩ := refused
  refine ⟨if writer.batchBufLen - writer.encoder.batch.length < entrySize E then
    writer.batchBufLen + batchBufCapacity else writer.batchBufLen, err, by split <;> omega, ?_⟩
  rw [BufferedWriter.batchAppendWithTs]
  simp only [BufferedWriter.encodeEvent, show writer.encoder.allocateSequence.1
    = writer.encoder.nextSequence from rfl, refused]
  rfl

structure BufferedWriter.Tracks (writer : BufferedWriter) (inode : Nat) (live : WrittenSegment E)
    (pending : List (WrittenEntry E)) : Prop where
  segment : writer.segment.At inode live
  continues : Consecutive live.next (sequencesOf pending)
  batch : writer.encoder.batch = bytesOf pending
  next : writer.encoder.nextSequence = live.next + pending.length
  lastEncoded : writer.encoder.lastEncodedSeq < writer.encoder.nextSequence
  chain : writer.encoder.chain = (live.extend pending continues).chain
  buffer : writer.encoder.batch.length ≤ writer.batchBufLen

namespace BufferedWriter.Tracks

variable {writer : BufferedWriter} {inode : Nat} {live : WrittenSegment E}
  {pending : List (WrittenEntry E)}

theorem chainHash (tracks : writer.Tracks inode live pending) :
    writer.chainHash = (live.extend pending tracks.continues).segment.tail := by
  rw [WrittenSegment.segment_tail, BufferedWriter.chainHash, JournalEncoder.chainHash, tracks.chain]

theorem append [LawfulAppEvent E] (tracks : writer.Tracks inode live pending)
    {event : JournalEvent E} (journaled : event.isShutdown = false)
    (fits : writer.nextSequence < 2 ^ 64) (timestampNs keyHash : UInt64) :
    ∃ (written : WrittenEntry E) (after : BufferedWriter),
      written.entry = { sequence := writer.nextSequence, timestampNs, keyHash, event } ∧
      writer.batchAppendWithTs event timestampNs keyHash = (after, .ok writer.nextSequence) ∧
      after.Tracks inode live (pending ++ [written]) ∧
      after.nextSequence = writer.nextSequence + 1 := by
  let entry : JournalEntry E := { sequence := writer.nextSequence, timestampNs, keyHash, event }
  let written := WrittenEntry.write entry fits journaled
  have encoded : encode writer.encoder.nextSequence timestampNs keyHash event maxEntrySize
      = .ok written.bytes := written.encoded
  obtain ⟨batchBufLen, room, encodes⟩ := BufferedWriter.encodeEvent_ok
    { writer with encoder := writer.encoder.allocateSequence.2 } tracks.lastEncoded encoded
    tracks.buffer
  have continues : Consecutive live.next (sequencesOf (pending ++ [written])) := by
    rw [sequencesOf, List.map_append, consecutive_append]
    refine ⟨tracks.continues, ?_⟩
    rw [List.map_cons, List.map_nil, consecutive_cons, List.length_map]
    exact ⟨tracks.next, rfl⟩
  let after : BufferedWriter :=
    { writer with
      batchBufLen
      encoder :=
        { writer.encoder with
          nextSequence := writer.encoder.nextSequence + 1
          chain := writer.encoder.chain.absorb written.bytes
          batch := writer.encoder.batch ++ written.bytes
          lastEncodedSeq := writer.encoder.nextSequence } }
  refine ⟨written, after, rfl, ?_, ⟨tracks.segment, continues, ?_, ?_, ?_, ?_, ?_⟩, rfl⟩
  · simp only [batchAppendWithTs, JournalEncoder.allocateSequence] at encodes ⊢
    rw [encodes]
    rfl
  · simp [after, tracks.batch, bytesOf]
  · simp [after, tracks.next, Nat.add_assoc]
  · exact Nat.lt_succ_self _
  · simp only [after, tracks.chain, WrittenSegment.extend_chain, List.foldl_append, List.foldl_cons,
      List.foldl_nil]
  · simpa [after, JournalEncoder.allocateSequence] using room

theorem flush (tracks : writer.Tracks inode live pending) {fs : Fs NodeFile}
    {archived : List (WrittenSegment E)} (disk : DiskHolds fs archived inode live) :
    ∃ file after, writer.flushBatchSync.run fs = (fs.setInode inode file, .ok after) ∧
      DiskHolds (fs.setInode inode file) archived inode (live.extend pending tracks.continues) ∧
      after.Tracks inode (live.extend pending tracks.continues) [] ∧
      after.encoder = writer.encoder.clearBatch := by
  obtain ⟨content, settled, padded⟩ := disk.liveFile
  have bytes := live.extend_bytes pending tracks.continues
  have next : (live.extend pending tracks.continues).next = live.next + pending.length := by
    simp [WrittenSegment.next, WrittenSegment.extend, Nat.add_assoc]
  -- Behind a flush the writer stands where it stood, with nothing left to write.
  have flushed : ∀ {segment : SegmentFile}, segment.At inode (live.extend pending tracks.continues) →
      BufferedWriter.Tracks { writer with segment, encoder := writer.encoder.clearBatch } inode
        (live.extend pending tracks.continues) [] := by
    intro segment opened
    have none : Consecutive (live.extend pending tracks.continues).next
        (sequencesOf ([] : List (WrittenEntry E))) := consecutive_nil _
    refine ⟨opened, none, rfl, ?_, tracks.lastEncoded, ?_, Nat.zero_le _⟩
    · rw [next]
      exact tracks.next
    · rw [WrittenSegment.extend_chain]
      exact tracks.chain
  by_cases empty : writer.encoder.batch.length = 0
  · have none : bytesOf pending = [] := by
      rw [← tracks.batch]
      exact List.length_eq_zero_iff.mp empty
    have cleared : writer.encoder.clearBatch = writer.encoder := by
      rw [JournalEncoder.clearBatch, ← List.length_eq_zero_iff.mp empty]
    have same : fs.setInode inode (.settled content) = fs := by
      rw [Fs.setInode, ← settled, Function.update_eq_self]
    rw [none, List.append_nil] at bytes
    have opened : writer.segment.At inode (live.extend pending tracks.continues) :=
      ⟨tracks.segment.file, tracks.segment.path, by rw [bytes]; exact tracks.segment.writePos,
        tracks.segment.genesis⟩
    have after := flushed opened
    rw [cleared] at after
    refine ⟨.settled content, writer, ?_, disk.setLive (by rw [bytes]; exact padded), after,
      cleared.symm⟩
    rw [flushBatchSync, if_pos empty, same]
    rfl
  · have position := tracks.segment.writePos
    obtain ⟨file, after, ran, written, fileEq, pathEq, positionEq, genesisEq⟩ :=
      SegmentFile.run_writeBatch position
        (show Padded live.bytes (fs.inodes writer.segment.file).content by
          rw [tracks.segment.file, settled]
          exact padded) writer.encoder.batch
    rw [tracks.batch, ← bytes] at written positionEq
    rw [tracks.segment.file] at ran fileEq
    have opened : after.At inode (live.extend pending tracks.continues) :=
      ⟨fileEq, pathEq.trans tracks.segment.path, positionEq, genesisEq.trans tracks.segment.genesis⟩
    refine ⟨file.sync, _, ?_, disk.setLive written, flushed opened, rfl⟩
    rw [flushBatchSync, if_neg empty]
    simp only [Prog.run_bind, ran, SegmentFile.sync, io, Prog.run_perform_sync, Prog.run_pure, fileEq,
      Fs.inodes_setInode, Fs.setInode_setInode]

theorem rotate (tracks : writer.Tracks inode live pending) {fs : Fs NodeFile}
    {archived : List (WrittenSegment E)} (disk : DiskHolds fs archived inode live)
    (fits : writer.nextSequence < 2 ^ 64) {prepared : Option PreparedSegment}
    (staged : ∀ ready ∈ prepared, Staged fs ready) :
    ∃ (after : Fs NodeFile) (next : BufferedWriter) (file : Nat) (fresh : WrittenSegment E),
      (writer.rotateSegment prepared).run fs = (after, .ok next) ∧
      fresh = .fresh writer.nextSequence writer.chainHash live.genesisEntries fits live.genesisFits ∧
      DiskHolds after (archived ++ [live.extend pending tracks.continues]) file fresh ∧
      next.Tracks file fresh [] ∧
      ∀ other, Staged fs other → (∀ ready ∈ prepared, ready.serial ≠ other.serial) →
        Staged after other := by
  obtain ⟨written, flushed, flushes, flushedDisk, flushedTracks, encoderEq⟩ := tracks.flush disk
  have nextEq : flushed.nextSequence = writer.nextSequence := by
    rw [nextSequence, encoderEq]
    rfl
  have chainEq : flushed.chainHash = writer.chainHash := by
    rw [BufferedWriter.chainHash, encoderEq]
    rfl
  obtain ⟨after, installed, file, rotates, rotatedDisk, opened, others⟩ :=
    SegmentFile.run_rotate flushedDisk flushedTracks.segment
      (fun ready isReady => disk.keepsStaged (staged ready isReady) written) writer.chainHash fits
  refine ⟨after, { flushed with
      segment := installed
      encoder := flushed.encoder.beginSegment writer.nextSequence writer.chainHash }, file, _, ?_,
    rfl, rotatedDisk, ⟨opened, consecutive_nil _, rfl, ?_, flushedTracks.lastEncoded, rfl,
      Nat.zero_le _⟩,
    fun other isStaged apart => others other (disk.keepsStaged isStaged written) apart⟩
  · rw [rotateSegment, Prog.run_bind, flushes]
    simp only [Prog.run_bind, nextEq, chainEq, rotates, Prog.run_pure]
  · simp only [JournalEncoder.beginSegment, WrittenSegment.next, WrittenSegment.fresh,
      List.length_nil, Nat.add_zero]
    exact nextEq

end BufferedWriter.Tracks

end

end Melin
