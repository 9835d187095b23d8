import Melin.Journal.SegmentSeed
import Melin.Lib.Crash
import Melin.Pipeline.JournalDiskLaws
import Melin.Pipeline.Sequencer
import Melin.Transport.WriterRun

/-! The first boot's journal: it holds the genesis whole, or it is not installed. -/

namespace Melin

open Lib

def appIoError : FsError → JournaledAppError
  | .notFound => .io .notFound "No such file or directory (os error 2)"
  | .alreadyExists => .io .alreadyExists "File exists (os error 17)"

/-- Remove what a first boot that was interrupted left staged, if it left anything. -/
def discardGenesisStaging : JournaledApp.AppProg Unit :=
  .step (.remove .genesisStaging) (fun _ => .ret ()) fun
    | .notFound => .ret ()
    | .alreadyExists => .fail (appIoError .alreadyExists)

section

variable {E : Type} [AppEvent E] [Hashing]

def appendGenesis (batch : Nat) (timestampNs : UInt64) :
    List E → Nat → BufferedWriter → JournalProg BufferedWriter
  | [], _, writer => .ret writer
  | event :: genesis, count, writer =>
    if AppEvent.isQuery event then appendGenesis batch timestampNs genesis count writer
    else
      match writer.batchAppendWithTs (.app event) timestampNs 0 with
      | (_, .error err) => .fail err
      | (writer, .ok _) => do
        let writer ← if (count + 1) % batch = 0 then writer.flushBatchSync else .ret writer
        appendGenesis batch timestampNs genesis (count + 1) writer

def genesisEvents (genesis : List E) : List E := genesis.filter fun event => !AppEvent.isQuery event

def genesisAnchor : Option Digest → Except JournalError Digest → JournaledApp.AppProg Digest
  | some anchor, _ => .ret anchor
  | none, .ok anchor => .ret anchor
  | none, .error err => .fail (.journal err)

def stageGenesis (anchor : Digest) (timestampNs : UInt64) (genesis : List E) (prealloc : Prealloc) :
    JournalProg BufferedWriter := do
  let writer ← BufferedWriter.createContinuing .genesisStaging 1 anchor
    (some (genesisEvents genesis).length) prealloc
  let writer ← appendGenesis (maxJournalBatch E) timestampNs genesis 0 writer
  writer.flushBatchSync

/--
Create the live journal with the genesis as its first entries.

`anchor` is the one to keep, and `fresh` is what drawing a new one gives.
-/
def writeGenesisJournal (anchor : Option Digest) (fresh : Except JournalError Digest)
    (timestampNs : UInt64) (genesis : List E) (prealloc : Prealloc) :
    JournaledApp.AppProg Unit := do
  discardGenesisStaging
  let anchor ← genesisAnchor anchor fresh
  let _ ← (stageGenesis anchor timestampNs genesis prealloc).mapError .journal
  let _ ← Prog.perform (.rename .genesisStaging .live) appIoError
  let _ ← Prog.perform .syncDir appIoError

def numbered (timestampNs : UInt64) : Nat → List E → List (JournalEntry E)
  | _, [] => []
  | sequence, event :: events =>
    { sequence, timestampNs, keyHash := 0, event := .app event }
      :: numbered timestampNs (sequence + 1) events

omit [AppEvent E] [Hashing] in
theorem consecutive_numbered (timestampNs : UInt64) (sequence : Nat) (events : List E) :
    Consecutive sequence ((numbered timestampNs sequence events).map (·.sequence)) := by
  induction events generalizing sequence with
  | nil => exact consecutive_nil sequence
  | cons event events ih => exact consecutive_cons.mpr ⟨rfl, ih (sequence + 1)⟩

def GenesisJournal (genesis : List E) (content : Bytes) : Prop :=
  ∃ info timestampNs, segmentHeader content = .ok info ∧ info.startingSequence = 1 ∧
    info.genesisEntries = some (genesisEvents genesis).length ∧
    ∀ grants path kind, ∃ reader, JournalReader.openSegment content grants path kind = .ok reader ∧
      ∀ calls, reader.callAfter calls = .ok (numbered timestampNs 1 (genesisEvents genesis))[calls]?

structure Builds (header : Bytes) (entries : List (JournalEntry E)) (file : Nat)
    (fs : Fs NodeFile) (writer : BufferedWriter) : Prop where
  isFile : writer.segment.file = file
  named : fs.table.lookup .genesisStaging = some file
  next : writer.nextSequence = entries.length + 1
  holds : ∃ (written : List (WrittenEntry E)) (flushed content : Bytes),
    written.map (·.entry) = entries ∧ fs.inodes file = .settled content ∧
    Padded flushed content ∧ writer.segment.writePos = flushed.length ∧
    flushed ++ writer.encoder.batch = header ++ bytesOf written

omit [Hashing] in
theorem SegmentFile.writeBatch_eq (segment : SegmentFile) (bytes : Bytes) :
    segment.writeBatch bytes = segment.writeVectored [bytes] := by
  have empty : bytes = [] ↔ ([bytes].map List.length).sum = 0 := by simp
  simp only [writeBatch, writeVectored, empty, List.map_cons, List.map_nil, List.sum_cons,
    List.sum_nil, Nat.add_zero, List.flatten_cons, List.flatten_nil, List.append_nil]

namespace Builds

variable {header : Bytes} {entries : List (JournalEntry E)} {file : Nat} {fs : Fs NodeFile}
  {writer after : BufferedWriter}

theorem append (builds : Builds header entries file fs writer) {event : E} {timestampNs : UInt64}
    {seq : Nat} (few : entries.length + 1 < 2 ^ 64)
    (accepted : writer.batchAppendWithTs (.app event) timestampNs 0 = (after, .ok seq)) :
    Builds header (entries ++ numbered timestampNs (entries.length + 1) [event]) file fs after := by
  obtain ⟨bytes, framed, -, segment, batch, next⟩ := BufferedWriter.batchAppendWithTs_eq_ok accepted
  obtain ⟨written, flushed, content, isEntries, settled, padded, writePos, holds⟩ := builds.holds
  rw [builds.next] at framed next
  refine ⟨by rw [segment]; exact builds.isFile, builds.named, by simp [next, numbered],
    written ++ [⟨⟨entries.length + 1, timestampNs, 0, .app event⟩, bytes, few, framed⟩], flushed,
    content, by simp [isEntries, numbered], settled, padded, by rw [segment]; exact writePos, ?_⟩
  rw [batch, ← List.append_assoc, holds]
  simp [bytesOf]

theorem flush (builds : Builds header entries file fs writer) :
    writer.flushBatchSync.Always (WhenOk fun later after =>
      Builds header entries file later after ∧ after.encoder.batch = []) fs := by
  obtain ⟨written, flushed, content, isEntries, settled, padded, writePos, holds⟩ := builds.holds
  rw [BufferedWriter.flushBatchSync]
  split
  · rename_i none
    exact ⟨builds, List.length_eq_zero_iff.mp none⟩
  · have start : Grown fs fs writer.segment writer.segment flushed :=
      ⟨fun _ _ => rfl, rfl, rfl, rfl, rfl, rfl, writePos, by
        rw [builds.isFile, settled]
        exact padded⟩
    rw [SegmentFile.writeBatch_eq]
    refine Prog.always_bind ((start.writeVectored _).imp fun later result ended => ?_)
    cases result with
    | error err => exact trivial
    | ok segment =>
      have grown : Grown fs later writer.segment segment
          (flushed ++ [writer.encoder.batch].flatten) := ended
      have isFile : segment.file = file := grown.file.trans builds.isFile
      rw [List.flatten_cons, List.flatten_nil, List.append_nil] at grown
      refine Prog.always_bind (Prog.always_bind (Prog.always_sync ?_ fun _ => trivial))
      refine ⟨⟨isFile, ?_, builds.next, written, flushed ++ writer.encoder.batch,
        (later.inodes file).content, isEntries, ?_, ?_, grown.writePos, ?_⟩, rfl⟩
      · exact grown.table ▸ builds.named
      · rw [isFile, Fs.inodes_setInode]
        rfl
      · exact builds.isFile ▸ grown.padded
      · rw [← holds]
        exact List.append_nil _

theorem appendGenesis (builds : Builds header entries file fs writer) (batch count : Nat)
    (timestampNs : UInt64) (genesis : List E)
    (few : entries.length + genesis.length < 2 ^ 64) :
    (Melin.appendGenesis batch timestampNs genesis count writer).Always (WhenOk fun later after =>
      Builds header (entries ++ numbered timestampNs (entries.length + 1) (genesisEvents genesis)) file
        later after) fs := by
  induction genesis generalizing entries fs writer count with
  | nil =>
    rw [Melin.appendGenesis, genesisEvents, List.filter_nil, numbered, List.append_nil]
    exact builds
  | cons event genesis ih =>
    rw [List.length_cons] at few
    rw [Melin.appendGenesis]
    cases query : AppEvent.isQuery event with
    | true =>
      rw [if_pos rfl]
      have skipped : genesisEvents (event :: genesis) = genesisEvents genesis := by simp [genesisEvents, query]
      rw [skipped]
      exact ih builds count (by omega)
    | false =>
      rw [if_neg Bool.false_ne_true]
      have taken : genesisEvents (event :: genesis) = event :: genesisEvents genesis := by
        simp [genesisEvents, query]
      cases appended : writer.batchAppendWithTs (.app event) timestampNs 0 with
      | mk after result =>
      cases result with
      | error err => exact trivial
      | ok seq =>
        have grown := builds.append (by omega) appended
        -- Whether or not it is flushed here, the entry is one of those behind the writer.
        have onwards : ∀ {later : Fs NodeFile} {next : BufferedWriter},
            Builds header (entries ++ numbered timestampNs (entries.length + 1) [event]) file later
              next →
            (Melin.appendGenesis batch timestampNs genesis (count + 1) next).Always
              (WhenOk fun later after => Builds header (entries
                ++ numbered timestampNs (entries.length + 1) (genesisEvents (event :: genesis))) file
                later after) later := by
          intro later next builds
          have longer : (entries ++ numbered timestampNs (entries.length + 1) [event]).length
              = entries.length + 1 := by simp [numbered]
          have more := ih builds (count + 1) (by omega)
          rwa [longer, List.append_assoc, show numbered timestampNs (entries.length + 1) [event]
            ++ numbered timestampNs (entries.length + 1 + 1) (genesisEvents genesis)
              = numbered timestampNs (entries.length + 1) (event :: genesisEvents genesis) from rfl,
            ← taken] at more
        dsimp only
        split
        · refine Prog.always_bind (grown.flush.imp fun later result ended => ?_)
          cases result with
          | error err => exact trivial
          | ok next => exact onwards ended.1
        · exact onwards grown

theorem genesisJournal {genesis : List E} {anchorHash : Digest} {timestampNs : UInt64}
    (inverse : ∀ event : E, AppEvent.decode (AppEvent.encode event) = .ok event)
    (few : genesis.length < 2 ^ 64)
    (builds : Builds (encodeFileHeader maxSectorSize 1 anchorHash
      (some (genesisEvents genesis).length)) (numbered timestampNs 1 (genesisEvents genesis)) file fs
        writer) (flushed : writer.encoder.batch = []) :
    ∃ content, fs.inodes file = .settled content ∧ GenesisJournal genesis content := by
  obtain ⟨written, bytes, content, isEntries, settled, ⟨zeros, rfl⟩, -, holds⟩ := builds.holds
  rw [flushed, List.append_nil] at holds
  have count : (genesisEvents genesis).length < 2 ^ 64 :=
    lt_of_le_of_lt (List.length_filter_le ..) few
  let segment : WrittenSegment E :=
    { startingSequence := 1, anchorHash, genesisEntries := some (genesisEvents genesis).length
      entries := written
      consecutive := by
        have sequences := consecutive_numbered timestampNs 1 (genesisEvents genesis)
        rwa [← isEntries, List.map_map] at sequences
      startFits := by decide
      genesisFits := fun _ member => Option.some.inj member ▸ count }
  have isBytes : bytes = segment.bytes := holds
  have header : segmentHeader (bytes ++ List.replicate zeros 0) = .ok segment.info := by
    rw [isBytes, WrittenSegment.bytes, List.append_assoc]
    exact segment.segmentHeader_eq _
  refine ⟨_, settled, segment.info, timestampNs, header, rfl, rfl, fun grants path kind => ?_⟩
  have run := segment.consecutive.entryRun inverse (List.replicate zeros 0)
  rw [← segment.drop_header, ← isBytes] at run
  rw [← isEntries]
  exact run.reads header grants path kind

end Builds

section

variable {ok : Option Bytes → Prop} {fs : Fs NodeFile} {file : Nat}

omit [Hashing] in
theorem fallocateChunk_only (file offset : Nat) (prealloc : Prealloc) :
    (fallocateChunk file offset prealloc).Only (Fs.Touches file) fun _ => True :=
  Prog.only_bind (Prog.only_perform (.inl ⟨_, rfl⟩)) fun _ _ => trivial

omit [Hashing] in
theorem SegmentFile.ensureAllocated_only {segment : SegmentFile} (isFile : segment.file = file)
    (adding : Nat) : (segment.ensureAllocated adding).Only (Fs.Touches file) (·.file = file) := by
  rw [ensureAllocated]
  split
  · exact isFile
  · subst isFile
    exact Prog.only_bind (fallocateChunk_only ..) fun _ _ => rfl

omit [Hashing] in
theorem SegmentFile.writeBatch_only {segment : SegmentFile} (isFile : segment.file = file)
    (bytes : Bytes) : (segment.writeBatch bytes).Only (Fs.Touches file) (·.file = file) := by
  rw [writeBatch]
  split
  · exact isFile
  · refine Prog.only_bind (ensureAllocated_only isFile _) fun roomy isFile => ?_
    subst isFile
    exact Prog.only_bind (Prog.only_perform (.inl ⟨_, rfl⟩)) fun _ _ => rfl

omit [Hashing] in
theorem BufferedWriter.flushBatchSync_only {writer : BufferedWriter}
    (isFile : writer.segment.file = file) :
    writer.flushBatchSync.Only (Fs.Touches file) (·.segment.file = file) := by
  rw [flushBatchSync]
  split
  · exact isFile
  · refine Prog.only_bind (SegmentFile.writeBatch_only isFile _) fun written isFile => ?_
    have synced : written.sync.Only (Fs.Touches file) fun _ => True :=
      Prog.only_bind (Prog.only_perform (.inr (isFile ▸ rfl))) fun _ _ => trivial
    exact Prog.only_bind synced fun _ _ => isFile

theorem appendGenesis_only (batch count : Nat) (timestampNs : UInt64) (genesis : List E)
    {writer : BufferedWriter} (isFile : writer.segment.file = file) :
    (appendGenesis batch timestampNs genesis count writer).Only (Fs.Touches file)
      (·.segment.file = file) := by
  induction genesis generalizing writer count with
  | nil => exact isFile
  | cons event genesis ih =>
    rw [appendGenesis]
    split
    · exact ih count isFile
    · cases appended : writer.batchAppendWithTs (.app event) timestampNs 0 with
      | mk after result =>
      cases result with
      | error err => exact trivial
      | ok seq =>
        obtain ⟨-, -, -, segment, -, -⟩ := BufferedWriter.batchAppendWithTs_eq_ok appended
        have same : after.segment.file = file := by rw [segment]; exact isFile
        dsimp only
        split
        · exact Prog.only_bind (BufferedWriter.flushBatchSync_only same) fun _ kept =>
            ih (count + 1) kept
        · exact ih (count + 1) same

def Whole (ok : Option Bytes → Prop) (fs : Fs NodeFile) : Prop := fs.Stable .live ok ∧ fs.Allocated

theorem createContinuing_passes (whole : Whole ok fs) (anchorHash : Digest) (count : Nat)
    (prealloc : Prealloc) :
    (BufferedWriter.createContinuing .genesisStaging 1 anchorHash (some count) prealloc).Passes
      (Whole ok) (fun after result => Whole ok after ∧ ∀ writer, result = .ok writer →
        ∃ file, after.Beside .live ok file ∧ Builds (E := E) (encodeFileHeader maxSectorSize 1
          anchorHash (some count)) [] file after writer) fs := by
  rw [BufferedWriter.createContinuing, SegmentFile.createContinuing]
  refine Prog.passes_bind (Prog.passes_bind (Prog.passes_step.mpr ⟨whole, fun answer created step => ?_,
    fun _ _ => ⟨whole, whole, by simp⟩, fun _ _ => ⟨whole, whole, by simp⟩⟩))
  obtain ⟨rfl, named, empty, beside⟩ := whole.1.create whole.2 (by decide) step
  -- Each later step changes the new file, or fails on it.
  have isWhole : ∀ {seen : Fs NodeFile}, seen.Beside .live ok fs.fresh → Whole ok seen :=
    fun beside => ⟨beside.stable, beside.allocated⟩
  have failed : ∀ {seen : Fs NodeFile} (op : FileOp) (count : Nat), seen.Beside .live ok fs.fresh →
      Whole ok (seen.afterFailed (.change fs.fresh op) count) :=
    fun op count beside => isWhole ((beside.touch (.inl ⟨op, rfl⟩)).2 count)
  have allocated := beside.setInode
    ((created.inodes fs.fresh).change (.allocate (0 + prealloc.chunkBytes)))
  refine ⟨isWhole beside, Prog.passes_bind (Prog.passes_bind (Prog.passes_change (isWhole beside)
    ⟨isWhole allocated, ?_⟩ fun err count => ⟨failed _ count beside, failed _ count beside, by simp⟩))⟩
  refine ⟨isWhole allocated, Prog.passes_bind (Prog.passes_bind (Prog.passes_change (isWhole allocated)
    ⟨isWhole (allocated.setInode _), ?_⟩
    fun err count => ⟨failed _ count allocated, failed _ count allocated, by simp⟩))⟩
  refine ⟨isWhole (allocated.setInode _), Prog.passes_bind (Prog.passes_sync
    (isWhole (allocated.setInode _)) ⟨isWhole ((allocated.setInode _).setInode _), ?_⟩
    fun err => ⟨isWhole (allocated.setInode _), by simp⟩)⟩
  have written := fun header synced => isWhole ((allocated.setInode header).setInode synced)
  refine And.intro (written ..) (And.intro (written ..) ⟨written .., ?_⟩)
  rintro writer ⟨rfl⟩
  have width : (encodeFileHeader maxSectorSize 1 anchorHash (some count)).length = entryOffset :=
    encodeFileHeader_length (.inr rfl)
  generalize encodeFileHeader maxSectorSize 1 anchorHash (some count) = header at width ⊢
  refine ⟨fs.fresh, (allocated.setInode _).setInode _, rfl, named, rfl, [], header, _, rfl,
    Fs.inodes_setInode .., ?_, width.symm, rfl⟩
  have reserved : Padded [] (FileOp.apply [] (.allocate (0 + prealloc.chunkBytes))) :=
    (Padded.refl []).allocate _
  rw [Fs.inodes_setInode, DurableFile.content_change, Fs.inodes_setInode,
    DurableFile.content_change, empty, DurableFile.content_settled]
  have filled := reserved.write header
  rw [List.nil_append, List.length_nil] at filled
  exact filled

theorem stageGenesis_passes (inverse : ∀ event : E, AppEvent.decode (AppEvent.encode event) = .ok event)
    {genesis : List E} (few : genesis.length < 2 ^ 64) (whole : Whole ok fs) (anchorHash : Digest)
    (timestampNs : UInt64) (prealloc : Prealloc) :
    (stageGenesis anchorHash timestampNs genesis prealloc).Passes (Whole ok)
      (fun after result => Whole ok after ∧ ∀ writer, result = .ok writer →
        ∃ file content, after.Beside .live ok file ∧
          after.table.lookup .genesisStaging = some file ∧
          after.inodes file = .settled content ∧ GenesisJournal genesis content) fs := by
  have touches := fun file (fs : Fs NodeFile) op (touched : Fs.Touches file op)
    (beside : fs.Beside .live ok file) => beside.touch touched
  have isWhole : ∀ {file : Nat} (fs : Fs NodeFile), fs.Beside .live ok file → Whole ok fs :=
    fun _ beside => ⟨beside.stable, beside.allocated⟩
  refine Prog.passes_bind ((createContinuing_passes (E := E) whole ..).imp (fun _ kept => kept)
    fun created result ended => ?_)
  cases result with
  | error err => exact ⟨ended.1, nofun⟩
  | ok writer =>
    obtain ⟨file, beside, builds⟩ := ended.2 writer rfl
    have appended := builds.appendGenesis (maxJournalBatch E) 0 timestampNs genesis
      (by rw [List.length_nil, Nat.zero_add]; exact few)
    refine Prog.passes_bind (((appendGenesis_only _ 0 timestampNs genesis builds.isFile).passes
      (touches file) beside appended).imp isWhole fun later result ended => ?_)
    obtain ⟨beside, ended⟩ := ended
    cases result with
    | error err => exact ⟨isWhole _ beside, nofun⟩
    | ok writer =>
      have builds : Builds _ _ file later writer := ended
      refine ((BufferedWriter.flushBatchSync_only builds.isFile).passes (touches file) beside
        builds.flush).imp isWhole fun after result ended => ?_
      obtain ⟨beside, ended⟩ := ended
      refine ⟨isWhole _ beside, ?_⟩
      rintro writer rfl
      obtain ⟨builds, flushed⟩ := ended
      obtain ⟨content, settled, holds⟩ := builds.genesisJournal inverse few flushed
      exact ⟨file, content, beside, builds.named, settled, holds⟩

omit [Hashing] in
theorem discardGenesisStaging_passes (whole : Whole ok fs) :
    discardGenesisStaging.Passes (Whole ok) (fun after _ => Whole ok after) fs := by
  refine Prog.passes_step.mpr ⟨whole, fun answer after step => ?_, fun err _ => ?_, fun err _ => ?_⟩
  · have kept : Whole ok after := whole.1.remove whole.2 (by decide) step
    exact ⟨kept, kept⟩
  all_goals cases err <;> exact ⟨whole, whole⟩

omit [Hashing] in
theorem genesisAnchor_passes (whole : Whole ok fs) (anchor : Option Digest)
    (fresh : Except JournalError Digest) :
    (genesisAnchor anchor fresh).Passes (Whole ok) (fun after _ => Whole ok after) fs := by
  cases anchor with
  | some anchor => exact ⟨whole, whole⟩
  | none => cases fresh <;> exact ⟨whole, whole⟩

theorem writeGenesisJournal_passes
    (inverse : ∀ event : E, AppEvent.decode (AppEvent.encode event) = .ok event)
    {genesis : List E} (few : genesis.length < 2 ^ 64) (whole : Whole ok fs)
    (isOk : ∀ content, GenesisJournal genesis content → ok (some content))
    (anchor : Option Digest) (fresh : Except JournalError Digest) (timestampNs : UInt64)
    (prealloc : Prealloc) :
    (writeGenesisJournal anchor fresh timestampNs genesis prealloc).Passes (Whole ok)
      (fun after result => result = .ok () →
        after.Stable .live (fun content => ∃ bytes, content = some bytes ∧
          GenesisJournal genesis bytes)) fs := by
  refine Prog.passes_bind ((discardGenesisStaging_passes whole).imp (fun _ kept => kept)
    fun discarded result whole => ?_)
  cases result with
  | error err => exact nofun
  | ok _ =>
    refine Prog.passes_bind ((genesisAnchor_passes whole anchor fresh).imp (fun _ kept => kept)
      fun anchored result whole => ?_)
    cases result with
    | error err => exact nofun
    | ok anchorHash =>
      refine Prog.passes_bind (Prog.passes_mapError ((stageGenesis_passes inverse few whole ..).imp
        (fun _ kept => kept) fun staged result ended => ?_))
      obtain ⟨whole, ended⟩ := ended
      cases result with
      | error err => exact nofun
      | ok writer =>
        obtain ⟨file, content, beside, named, settled, holds⟩ := ended writer rfl
        -- The rename is what changes the journal path, and the directory's sync makes it last.
        refine Prog.passes_bind (Prog.passes_step.mpr ⟨whole, fun answer renamed step => ?_,
          fun _ _ => ⟨whole, nofun⟩, fun _ _ => ⟨whole, nofun⟩⟩)
        obtain ⟨stable, allocated, placed, inodes⟩ := beside.rename named settled (isOk _ holds) step
        refine ⟨⟨stable, allocated⟩, Prog.passes_bind (Prog.passes_step.mpr ⟨⟨stable, allocated⟩,
          fun answer after synced => ?_, nofun, fun _ _ => ⟨⟨stable, allocated⟩, nofun⟩⟩)⟩
        cases synced
        have leads : ∀ {ok : Option Bytes → Prop}, ok (some content) →
            renamed.Leads .live ok renamed.table := fun isOk =>
          Fs.leads_of_lookup placed (inodes ▸ settled) isOk
        have kept : Whole ok { renamed with older := [] } :=
          ⟨Fs.Stable.syncDir (leads (isOk _ holds)), allocated.syncDir⟩
        exact And.intro kept (And.intro kept fun _ => Fs.Stable.syncDir (leads ⟨_, rfl, holds⟩))

end

inductive Boots (genesis : List E) (start : Fs NodeFile) : Bool → Fs NodeFile → Prop where
  | first : Boots genesis start false start
  /-- An attempt, each of whose steps may fail, and which may be stopped behind any of them. -/
  | attempt {done : Bool} {before : Fs NodeFile} (boots : Boots genesis start done before)
      (anchor : Option Digest) (fresh : Except JournalError Digest) (timestampNs : UInt64)
      (prealloc : Prealloc) (faults : List Fault) (steps : Nat) {after : Fs NodeFile}
      {ended : Option (Except JournaledAppError Unit)}
      (ran : (writeGenesisJournal anchor fresh timestampNs genesis prealloc).runUntil faults steps
        before = (after, ended)) :
      Boots genesis start (done || ended.any (·.isOk)) after
  | crash {done : Bool} {before after : Fs NodeFile} (boots : Boots genesis start done before)
      {lost : Nat} (crashes : before.Crashes lost after) : Boots genesis start done after

theorem Boots.whole (inverse : ∀ event : E, AppEvent.decode (AppEvent.encode event) = .ok event)
    {genesis : List E} (few : genesis.length < 2 ^ 64) {start after : Fs NodeFile} {done : Bool}
    (boots : Boots genesis start done after) {ok : Option Bytes → Prop} (whole : Whole ok start) :
    Whole (fun content => ok content ∨ ∃ bytes, content = some bytes ∧ GenesisJournal genesis bytes)
        after ∧
      (done = true → Whole (fun content => ∃ bytes, content = some bytes ∧
        GenesisJournal genesis bytes) after) := by
  induction boots with
  | first => exact ⟨⟨whole.1.imp fun _ => .inl, whole.2⟩, nofun⟩
  | crash boots crashes ih =>
    exact ⟨⟨ih.1.1.crashes crashes, ih.1.2.crashes crashes⟩,
      fun done => ⟨(ih.2 done).1.crashes crashes, (ih.2 done).2.crashes crashes⟩⟩
  | attempt boots anchor fresh timestampNs prealloc faults steps ran ih =>
    obtain ⟨kept, installed⟩ := (writeGenesisJournal_passes inverse few ih.1
      (fun _ holds => .inr ⟨_, rfl, holds⟩) anchor fresh timestampNs prealloc).runUntil faults steps
    rw [ran] at kept installed
    refine ⟨kept, fun done => ?_⟩
    rcases Bool.or_eq_true _ _ ▸ done with before | now
    · have again := (writeGenesisJournal_passes inverse few (ih.2 before)
        (fun _ holds => ⟨_, rfl, holds⟩) anchor fresh timestampNs prealloc).runUntil faults steps
      rw [ran] at again
      exact again.1
    · obtain ⟨result, ended, isOk⟩ := Option.any_eq_true _ _ |>.mp now
      cases result with
      | error err => cases isOk
      | ok _ => exact ⟨installed _ ended rfl, kept.2⟩

/--
Genesis is installed whole or not at all.

Whatever fails, wherever an attempt is stopped, and however many follow it, with crashes anywhere,
the journal path has what it had or a journal that is exactly the genesis; and once an attempt has
returned success it has the latter.
-/
theorem genesis_whole_or_absent
    (inverse : ∀ event : E, AppEvent.decode (AppEvent.encode event) = .ok event)
    {genesis : List E} (few : genesis.length < 2 ^ 64) {start after : Fs NodeFile} {done : Bool}
    {found : Option Bytes → Prop} (stable : start.Stable .live found) (allocated : start.Allocated)
    (boots : Boots genesis start done after) :
    (found (after.content .live) ∨
        ∃ content, after.content .live = some content ∧ GenesisJournal genesis content) ∧
      (done = true →
        ∃ content, after.content .live = some content ∧ GenesisJournal genesis content) := by
  obtain ⟨whole, installed⟩ := boots.whole inverse few ⟨stable, allocated⟩
  exact ⟨whole.1.content, fun isDone => (installed isDone).1.content⟩

end

def sampleGenesis : List CounterEvent := [.increment 3, .getValue, .increment 4]

/-- A first boot that is stopped behind the sync of its entries, and a second that is not. -/
def sampleBoots : Fs NodeFile × Option (Except JournaledAppError Unit) :=
  let boot := writeGenesisJournal none (.ok .zero) 7 sampleGenesis samplePrealloc
  boot.runUntil [] 100 (boot.runUntil [] 8 emptyFs).1

/-- The second boot installs the genesis that the first had staged, but not installed. -/
theorem genesis_whole_or_absent_sample :
    ∃ content, sampleBoots.1.content .live = some content ∧ GenesisJournal sampleGenesis content := by
  have stopped : Boots sampleGenesis emptyFs _ _ :=
    Boots.first.attempt none (.ok .zero) 7 samplePrealloc [] 8 rfl
  have second := stopped.attempt none (.ok .zero) 7 samplePrealloc [] 100 rfl
  have absent : emptyFs.Stable .live (· = none) := by
    intro table member
    rw [List.mem_singleton.mp member]
    rfl
  refine (genesis_whole_or_absent LawfulAppEvent.decode_encode (by decide) absent ?_ second).2 ?_
  · intro table member name inode found
    rw [List.mem_singleton.mp member] at found
    cases found
  · decide +kernel

end Melin
