import Melin.Journal.SegmentFile
import Melin.Lib.Crc32c
import Melin.Lib.FailingDevice
import Melin.Replication.Protocol

/-! Bodies sent in pieces: a snapshot or a segment seed, its checksum, and the file it arrives in. -/

namespace Melin

open Lib

def bodyChunkSize : Nat := 64 * 1024

def encodeSnapshotChunk (data : Bytes) : Bytes := frame (msgSnapshotChunk :: data)

def encodeSnapshotEnd (crc32c : UInt32) : Bytes :=
  frame (msgSnapshotEnd :: leBytes 4 crc32c.toNat)

/--
Publish what is left of a body, piece by piece, and then its checksum.

Each look at the shutdown flag and each answer of the publisher is given; behind those given the flag
is down and the publisher accepts.
-/
def publishRest (crc32c : UInt32) (rest : Bytes) (shutdown : List Bool)
    (publisher : List (Except IoErrorKind Unit)) : List Bytes × Except IoErrorKind Bool :=
  if rest = [] then ([encodeSnapshotEnd crc32c], (publisher.headD (.ok ())).map fun _ => true)
  else if shutdown.headD false then ([], .ok false)
  else
    let chunk := encodeSnapshotChunk (rest.take bodyChunkSize)
    match publisher.headD (.ok ()) with
    | .error err => ([chunk], .error err)
    | .ok _ =>
      let (frames, sent) := publishRest crc32c (rest.drop bodyChunkSize) shutdown.tail publisher.tail
      (chunk :: frames, sent)
termination_by rest.length
decreasing_by
  have some : 0 < rest.length := List.length_pos_iff.mpr ‹_›
  rw [List.length_drop, bodyChunkSize]
  omega

/-- Ship a body: the frames handed to the publisher, and whether it went out whole. -/
def publishChunkedBody (body : Bytes) (shutdown : List Bool)
    (publisher : List (Except IoErrorKind Unit)) : List Bytes × Except IoErrorKind Bool :=
  publishRest (Crc32c.checksum body) body shutdown publisher

def readFrame (stream : Bytes) (maxSize : Nat) : Except String (Bytes × Bytes) :=
  if stream.length < prefixLen then .error "failed to fill whole buffer"
  else
    let len := leNat (stream.take prefixLen)
    if maxSize < len then
      .error ("frame too large: " ++ toString len ++ " > " ++ toString maxSize)
    else if len = 0 then .error "empty frame"
    else
      let rest := stream.drop prefixLen
      if rest.length < len then .error "failed to fill whole buffer"
      else .ok (rest.take len, rest.drop len)

theorem readFrame_shrinks {stream payload rest : Bytes} {maxSize : Nat}
    (read : readFrame stream maxSize = .ok (payload, rest)) : rest.length < stream.length := by
  rw [readFrame] at read
  split_ifs at read with short
  dsimp only at read
  split_ifs at read with large empty cut
  obtain ⟨-, rfl⟩ := Prod.mk.inj (Except.ok.inj read)
  have wide : prefixLen = 4 := rfl
  simp only [List.length_drop]
  omega

def readFrames (maxSize : Nat) (stream : Bytes) : List (Except String Bytes) :=
  match _read : readFrame stream maxSize with
  | .error message => [.error message]
  | .ok (payload, rest) => .ok payload :: readFrames maxSize rest
termination_by stream.length
decreasing_by exact readFrame_shrinks ‹_›

inductive TransferError where
  | io (err : FsError)
  | source (message : String)
  | undecodable (message : String)
  /-- A message that is neither a piece nor the end. -/
  | foreign (what : String) (other : PrimaryMessage)
  | lengthMismatch (what : String) (expected received : Nat)
  | crcMismatch (what : String) (expected running : UInt32)

abbrev TransferProg := Prog NodeFile TransferError

def transferIo (op : FsOp NodeFile) : TransferProg Nat := .perform op .io

def createFile (path : NodeFile) : TransferProg Nat :=
  .look fun fs =>
    if (fs.table.lookup path).isSome then do
      let file ← transferIo (.openFile path)
      let _ ← transferIo (.change file (.setLen 0))
      return file
    else transferIo (.create path)

def writePiece (file offset : Nat) (data : Bytes) : TransferProg Unit :=
  if data = [] then .ret ()
  else do
    let _ ← transferIo (.change file (.write offset data))

/-- Receive pieces until the end of the body, counting them and keeping their checksum. -/
def receiveChunks (file expectedLen : Nat) (what : String) :
    List (Except String Bytes) → Nat → UInt32 → TransferProg Unit
  | [], _, _ => .fail (.source "disconnected during transfer")
  | .error message :: _, _, _ => .fail (.source message)
  | .ok payload :: frames, received, runningCrc =>
    match decodePrimaryMessage payload with
    | .error message => .fail (.undecodable message)
    | .ok (.snapshotChunk data) => do
      writePiece file received data
      receiveChunks file expectedLen what frames (received + data.length)
        (Crc32c.append runningCrc data)
    | .ok (.snapshotEnd expectedCrc) => do
      let _ ← transferIo (.sync file)
      if received ≠ expectedLen then .fail (.lengthMismatch what expectedLen received)
      else if runningCrc ≠ expectedCrc then .fail (.crcMismatch what expectedCrc runningCrc)
      else return
    | .ok other => .fail (.foreign what other)

structure FailedTransfer where
  cause : TransferError
  /-- Whether the temporary file was removed; the answer is dropped. -/
  removed : Bool

def receiveChunkedBody (source : List (Except String Bytes)) (tmpPath : NodeFile)
    (expectedLen : Nat) (what : String) : Prog NodeFile FailedTransfer Unit :=
  ((do
    let file ← createFile tmpPath
    receiveChunks file expectedLen what source 0 0).mapError fun cause =>
      FailedTransfer.mk cause false).recover fun failed =>
        .step (.remove tmpPath) (fun _ => .fail { failed with removed := true })
          (fun _ => .fail failed)

inductive Delivers : List (Except String Bytes) → List Bytes → UInt32 → Prop where
  | done {payload : Bytes} {crc32c : UInt32} (rest : List (Except String Bytes))
      (decoded : decodePrimaryMessage payload = .ok (.snapshotEnd crc32c)) :
      Delivers (.ok payload :: rest) [] crc32c
  | chunk {payload data : Bytes} {frames : List (Except String Bytes)} {pieces : List Bytes}
      {crc32c : UInt32} (decoded : decodePrimaryMessage payload = .ok (.snapshotChunk data))
      (later : Delivers frames pieces crc32c) :
      Delivers (.ok payload :: frames) (data :: pieces) crc32c

theorem Delivers.unique {frames : List (Except String Bytes)} {pieces others : List Bytes}
    {crc32c another : UInt32} (delivers : Delivers frames pieces crc32c)
    (also : Delivers frames others another) : others = pieces := by
  induction delivers generalizing others with
  | done rest decoded =>
    cases also with
    | done _ again => rfl
    | chunk again later =>
      rw [decoded] at again
      cases again
  | chunk decoded later ih =>
    cases also with
    | done _ again =>
      rw [decoded] at again
      cases again
    | chunk again later =>
      rw [decoded] at again
      cases again
      rw [ih later]

theorem readFrame_frame {payload : Bytes} {maxSize : Nat} (some : payload ≠ [])
    (fits : payload.length ≤ maxSize) (small : payload.length < 256 ^ 4) (rest : Bytes) :
    readFrame (frame payload ++ rest) maxSize = .ok (payload, rest) := by
  have front : (frame payload ++ rest).take prefixLen = leBytes 4 payload.length := by
    simp [frame, prefixLen, List.append_assoc]
  have back : (frame payload ++ rest).drop prefixLen = payload ++ rest := by
    simp [frame, prefixLen, List.append_assoc]
  have long : ¬ (frame payload ++ rest).length < prefixLen := by
    simp [frame, prefixLen]
  have positive : payload.length ≠ 0 := by rwa [Ne, List.length_eq_zero_iff]
  rw [readFrame, if_neg long]
  simp only [front, back, leNat_leBytes 4 payload.length small, List.length_append]
  rw [if_neg (by omega), if_neg positive, if_neg (by omega), List.take_left, List.drop_left]

theorem readFrames_frame {payload : Bytes} {maxSize : Nat} (some : payload ≠ [])
    (fits : payload.length ≤ maxSize) (small : payload.length < 256 ^ 4) (rest : Bytes) :
    readFrames maxSize (frame payload ++ rest) = .ok payload :: readFrames maxSize rest := by
  have read := readFrame_frame some fits small rest
  rw [readFrames]
  split
  · rename_i failed
    rw [read] at failed
    cases failed
  · rename_i again
    rw [read] at again
    cases again
    rfl

theorem decode_snapshotChunk (data : Bytes) :
    decodePrimaryMessage (msgSnapshotChunk :: data) = .ok (.snapshotChunk data) := rfl

theorem decode_snapshotEnd (crc32c : UInt32) :
    decodePrimaryMessage (msgSnapshotEnd :: leBytes 4 crc32c.toNat)
      = .ok (.snapshotEnd crc32c) := by
  have width : (msgSnapshotEnd :: leBytes 4 crc32c.toNat).length = 5 := by simp
  have field : slice (msgSnapshotEnd :: leBytes 4 crc32c.toNat) 1 4 = leBytes 4 crc32c.toNat := by
    simp [slice, List.take_of_length_le]
  have read : UInt32.ofNat (leNat (leBytes 4 crc32c.toNat)) = crc32c := by
    rw [leNat_leBytes 4 _ crc32c.toNat_lt, UInt32.ofNat_toNat]
  simp only [decodePrimaryMessage, width, field, read]
  rfl

theorem delivers_publishRest {crc32c : UInt32} {rest : Bytes} {shutdown : List Bool}
    {publisher : List (Except IoErrorKind Unit)} {frames : List Bytes}
    (published : publishRest crc32c rest shutdown publisher = (frames, .ok true)) :
    ∃ pieces, pieces.flatten = rest ∧
      Delivers (readFrames maxDataFrame frames.flatten) pieces crc32c := by
  -- One piece goes out per round, so the induction is on what is left of the body.
  fun_induction publishRest crc32c rest shutdown publisher generalizing frames with
  | case1 shutdown publisher =>
    obtain ⟨rfl, -⟩ := Prod.mk.inj published
    refine ⟨[], rfl, ?_⟩
    rw [List.flatten_singleton, encodeSnapshotEnd, ← List.append_nil (frame _),
      readFrames_frame (by simp) (by simp [maxDataFrame]) (by simp)]
    exact .done _ (decode_snapshotEnd crc32c)
  | case2 rest shutdown publisher some down => simp at published
  | case3 rest shutdown publisher some up chunk err => simp at published
  | case4 rest shutdown publisher some up chunk accepted accepts later sent next =>
    rename_i ih
    obtain ⟨rfl, rfl⟩ := Prod.mk.inj published
    obtain ⟨pieces, split, delivers⟩ := ih next
    have small : (msgSnapshotChunk :: rest.take bodyChunkSize).length ≤ 65537 := by
      rw [List.length_cons, List.length_take, bodyChunkSize]
      omega
    refine ⟨rest.take bodyChunkSize :: pieces, ?_, ?_⟩
    · rw [List.flatten_cons, split, List.take_append_drop]
    · have read := @readFrames_frame (msgSnapshotChunk :: rest.take bodyChunkSize) maxDataFrame
        (by simp) (small.trans (by decide)) (small.trans_lt (by decide)) later.flatten
      rw [List.flatten_cons]
      show Delivers (readFrames maxDataFrame (frame _ ++ _)) _ _
      rw [read]
      exact .chunk (decode_snapshotChunk _) delivers

structure Arriving (path : NodeFile) (file : Nat) (data : Bytes) (fs : Fs NodeFile) : Prop where
  named : fs.table.lookup path = some file
  content : (fs.inodes file).content = data

section

variable {path : NodeFile} {file : Nat} {data : Bytes} {fs : Fs NodeFile}

theorem Arriving.change (arriving : Arriving path file data fs) (op : FileOp) :
    Arriving path file (op.apply data) (fs.setInode file ((fs.inodes file).change op)) := by
  refine ⟨arriving.named, ?_⟩
  rw [Fs.inodes_setInode, DurableFile.content_change, arriving.content]

theorem Arriving.write (arriving : Arriving path file data fs) (piece : Bytes) :
    Arriving path file (data ++ piece)
      (fs.setInode file ((fs.inodes file).change (.write data.length piece))) := by
  have changed := arriving.change (.write data.length piece)
  rwa [FileOp.apply, writeAt, Nat.sub_self, List.replicate_zero, List.append_nil, List.take_length,
    List.drop_eq_nil_of_le (Nat.le_add_right ..), List.append_nil] at changed

theorem Arriving.sync (arriving : Arriving path file data fs) :
    Arriving path file data (fs.setInode file (fs.inodes file).sync) := by
  refine ⟨arriving.named, ?_⟩
  rw [Fs.inodes_setInode, DurableFile.content_sync, arriving.content]

theorem createFile_always (path : NodeFile) (fs : Fs NodeFile) :
    (createFile path).Always (fun after result =>
      ∀ file, result = .ok file → Arriving path file [] after) fs := by
  refine Prog.always_look ?_
  split
  · refine Prog.always_bind (Prog.always_perform (fun file after opened => ?_)
      (fun err file same => by cases same) (fun err count file same => by cases same))
    -- The open file is the one under the path, and it is cut to nothing.
    rename_i found
    simp only [Fs.step] at opened
    cases named : fs.table.lookup path with
    | none => simp [named] at found
    | some inode =>
      rw [named] at opened
      obtain ⟨rfl, rfl⟩ := Prod.mk.inj (Except.ok.inj opened)
      refine Prog.always_bind (Prog.always_change ?_ (fun err count file same => by cases same))
      rintro file ⟨⟩
      exact (Arriving.mk named rfl).change (.setLen 0) |> fun cut => by
        simpa [FileOp.apply] using cut
  · refine Prog.always_perform (fun file after created => ?_)
      (fun err file same => by cases same) (fun err count file same => by cases same)
    rintro other ⟨⟩
    simp only [Fs.step] at created
    split at created
    · simp at created
    · obtain ⟨rfl, rfl⟩ := Prod.mk.inj (Except.ok.inj created)
      refine ⟨AList.lookup_insert _, ?_⟩
      exact congrArg DurableFile.content (Fs.inodes_setInode _ _ _)

theorem run_createFile (path : NodeFile) (fs : Fs NodeFile) :
    ∃ file after, (createFile path).run fs = (after, .ok file) := by
  cases named : fs.table.lookup path with
  | none =>
    refine ⟨fs.fresh, (createFile path).run fs |>.1, ?_⟩
    simp [createFile, Prog.run, named, transferIo, Prog.perform, Fs.step]
  | some inode =>
    refine ⟨inode, (createFile path).run fs |>.1, ?_⟩
    simp [createFile, Prog.run, named, transferIo, Prog.perform, Fs.step, Prog.run_bind]

theorem writePiece_always (arriving : Arriving path file data fs) (piece : Bytes) :
    (writePiece file data.length piece).Always (fun after result =>
      result = .ok () → Arriving path file (data ++ piece) after) fs := by
  rw [writePiece]
  split
  · rename_i empty
    refine Prog.always_ret fun _ => ?_
    rwa [empty, List.append_nil]
  · exact Prog.always_bind (Prog.always_change (fun _ => arriving.write piece)
      (fun err count same => by cases same))

theorem run_writePiece (file offset : Nat) (piece : Bytes) (fs : Fs NodeFile) :
    ∃ after, (writePiece file offset piece).run fs = (after, .ok ()) := by
  rw [writePiece]
  split
  · exact ⟨fs, rfl⟩
  · exact ⟨_, rfl⟩

theorem receiveChunks_always (frames : List (Except String Bytes)) (expectedLen : Nat)
    (what : String) (arriving : Arriving path file data fs) :
    (receiveChunks file expectedLen what frames data.length (Crc32c.checksum data)).Always
      (fun after result => result = .ok () → ∃ pieces, ∃ crc32c, Delivers frames pieces crc32c ∧
        Arriving path file (data ++ pieces.flatten) after ∧
        (data ++ pieces.flatten).length = expectedLen ∧
        Crc32c.checksum (data ++ pieces.flatten) = crc32c) fs := by
  -- What was received is in the file, and the count and the checksum are those of the file.
  induction frames generalizing data fs with
  | nil => exact fun same => by cases same
  | cons next frames ih =>
    cases next with
    | error message => exact fun same => by cases same
    | ok payload =>
      rw [receiveChunks]
      split
      · exact fun same => by cases same
      · rename_i piece decoded
        refine Prog.always_bind ((writePiece_always arriving piece).imp ?_)
        intro after result written
        cases result with
        | error err => exact fun same => by cases same
        | ok _ =>
          have next := ih (written rfl)
          rw [List.length_append, ← Crc32c.append_checksum] at next
          refine next.imp fun final result ends same => ?_
          obtain ⟨pieces, crc32c, delivers, holds⟩ := ends same
          rw [List.append_assoc] at holds
          exact ⟨piece :: pieces, crc32c, .chunk decoded delivers, holds⟩
      · rename_i crc32c decoded
        refine Prog.always_bind (Prog.always_sync ?_ (fun err same => by cases same))
        dsimp only
        split_ifs with long wrong
        · exact fun same => by cases same
        · exact fun same => by cases same
        · refine Prog.always_ret fun _ => ⟨[], crc32c, .done _ decoded, ?_⟩
          rw [List.flatten_nil, List.append_nil]
          exact ⟨arriving.sync, not_not.mp long, not_not.mp wrong⟩
      · exact fun same => by cases same

theorem run_receiveChunks {frames : List (Except String Bytes)} {pieces : List Bytes}
    {crc32c : UInt32} {expectedLen : Nat} (what : String) (file : Nat) {data : Bytes}
    (fs : Fs NodeFile) (delivers : Delivers frames pieces crc32c)
    (long : (data ++ pieces.flatten).length = expectedLen)
    (intact : Crc32c.checksum (data ++ pieces.flatten) = crc32c) :
    ∃ after, (receiveChunks file expectedLen what frames data.length (Crc32c.checksum data)).run fs
      = (after, .ok ()) := by
  induction delivers generalizing data fs with
  | done rest decoded =>
    rw [List.flatten_nil, List.append_nil] at long intact
    refine ⟨fs.setInode file (fs.inodes file).sync, ?_⟩
    simp only [receiveChunks, decoded, Prog.run_bind, transferIo, Prog.run_perform_sync, long,
      intact, ne_eq, not_true_eq_false, if_false]
    rfl
  | @chunk payload piece frames pieces crc32c decoded later ih =>
    rw [List.flatten_cons, ← List.append_assoc] at long intact
    obtain ⟨written, wrote⟩ := run_writePiece file data.length piece fs
    obtain ⟨after, ran⟩ := ih written long intact
    refine ⟨after, ?_⟩
    rw [List.length_append, ← Crc32c.append_checksum] at ran
    simp only [receiveChunks, decoded, Prog.run_bind, wrote, ran]

end

theorem remove_always (tmpPath : NodeFile) (failed : FailedTransfer) (fs : Fs NodeFile) :
    (Prog.step (.remove tmpPath) (fun _ => .fail { failed with removed := true })
      (fun _ => .fail { failed with removed := false }) : Prog NodeFile FailedTransfer Unit).Always
      (fun after result => ∃ failed, result = .error failed ∧
        (after.table.lookup tmpPath = none ∨ failed.removed = false)) fs := by
  refine Prog.always_step.mpr ⟨fun answer after removed => ⟨_, rfl, .inl ?_⟩,
    fun err absent => ⟨_, rfl, .inr rfl⟩, fun err count => ⟨_, rfl, .inr rfl⟩⟩
  simp only [Fs.step] at removed
  split at removed
  · cases removed
  · cases removed
    exact AList.lookup_erase _ _

theorem receiveChunkedBody_always (source : List (Except String Bytes)) (tmpPath : NodeFile)
    (expectedLen : Nat) (what : String) (fs : Fs NodeFile) :
    (receiveChunkedBody source tmpPath expectedLen what).Always (fun after result =>
      (result = .ok () ∧ ∃ pieces crc32c, Delivers source pieces crc32c ∧
        (∃ file, Arriving tmpPath file pieces.flatten after) ∧
        pieces.flatten.length = expectedLen ∧ Crc32c.checksum pieces.flatten = crc32c) ∨
      ∃ failed, result = .error failed ∧
        (after.table.lookup tmpPath = none ∨ failed.removed = false)) fs := by
  refine Prog.always_recover (Prog.always_mapError (Prog.always_bind
    ((createFile_always tmpPath fs).imp ?_)))
  intro created result arrives
  cases result with
  | error err => exact (remove_always tmpPath ⟨err, false⟩ created).imp fun _ _ => .inr
  | ok file =>
    have received := receiveChunks_always source expectedLen what (arrives file rfl)
    refine received.imp fun after result ends => ?_
    cases result with
    | error err => exact (remove_always tmpPath ⟨err, false⟩ after).imp fun _ _ => .inr
    | ok _ =>
      obtain ⟨pieces, crc32c, delivers, arriving, exact⟩ := ends rfl
      exact .inl ⟨rfl, pieces, crc32c, delivers, ⟨file, arriving⟩, exact⟩

theorem run_receiveChunkedBody {source : List (Except String Bytes)} {pieces : List Bytes}
    (delivers : Delivers source pieces (Crc32c.checksum pieces.flatten)) (tmpPath : NodeFile)
    (what : String) (fs : Fs NodeFile) :
    ∃ after file, (receiveChunkedBody source tmpPath pieces.flatten.length what).run fs
      = (after, .ok ()) ∧ Arriving tmpPath file pieces.flatten after := by
  obtain ⟨file, created, creates⟩ := run_createFile tmpPath fs
  obtain ⟨after, received⟩ : ∃ after, (receiveChunks file pieces.flatten.length what source 0 0).run
      created = (after, .ok ()) :=
    @run_receiveChunks _ _ _ _ what file [] created delivers rfl rfl
  have ran : (receiveChunkedBody source tmpPath pieces.flatten.length what).run fs
      = (after, .ok ()) := by
    rw [receiveChunkedBody, Prog.run_recover, Prog.run_mapError, Prog.run_bind, creates]
    simp only [received]
    rfl
  -- The frames deliver one body only, so it is the one in the file.
  obtain ⟨-, others, crc32c, also, ⟨file, arriving⟩, -⟩ | ⟨failed, fails, -⟩ :=
    (receiveChunkedBody_always source tmpPath pieces.flatten.length what fs).run ran
  · rw [delivers.unique also] at arriving
    exact ⟨after, file, ran, arriving⟩
  · cases fails

theorem publishRest_uninterrupted (crc32c : UInt32) (rest : Bytes) :
    ∃ frames, publishRest crc32c rest [] [] = (frames, .ok true) := by
  induction hlen : rest.length using Nat.strong_induction_on generalizing rest with
  | _ length ih =>
    rw [publishRest]
    split
    · exact ⟨_, rfl⟩
    · rename_i some
      have positive : 0 < rest.length := List.length_pos_iff.mpr some
      have shorter : (rest.drop bodyChunkSize).length < length := by
        rw [List.length_drop, bodyChunkSize]
        omega
      obtain ⟨frames, sent⟩ := ih _ shorter _ rfl
      exact ⟨encodeSnapshotChunk (rest.take bodyChunkSize) :: frames, by simp [sent]⟩

end Melin
