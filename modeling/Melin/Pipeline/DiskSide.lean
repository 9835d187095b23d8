import Melin.Pipeline.Ledger

/-! The disk thread against the ledger: what holds of it, and that no act of any thread breaks it. -/

namespace Melin

open Lib

def DiskEvent.moves (cursors : DurabilityCursors) : DiskEvent → DurabilityCursors
  | .published info _ _ => cursors.publish info
  | .failed _ => cursors

structure Spare (disk : DiskState) (ready : PreparedSegment) : Prop where
  staged : Staged disk.fs ready
  apart : ready.file ∉ disk.segment.file :: disk.sealedFiles

namespace JournalStage

variable {E : Type} (stage : JournalStage E)

theorem rotation_drain (count : Nat) (retryDir : Bool) (faults : List Fault) :
    (stage.drain count retryDir faults).rotation = stage.rotation := by
  simp only [drain]
  split
  · rfl
  · split <;> rfl

theorem rotation_prepare (serial bytes window : Nat) (mode : StagingMode) (faults : List Fault) :
    (stage.prepare serial bytes window mode faults).rotation = stage.rotation := by
  simp only [prepare]
  split <;> rfl

theorem act_frame [Hashing] (act : Act E) :
    (stage.act act).core = stage.core ∧ (stage.act act).config = stage.config ∧
      (stage.act act).beats = stage.beats ∧ (stage.act act).ring = stage.ring ++ act.published := by
  cases act with
  | publish slot => exact ⟨rfl, rfl, rfl, rfl⟩
  | mark | shutdown | requestRotation | clock | sender =>
    exact ⟨rfl, rfl, rfl, (List.append_nil _).symm⟩
  | drain count retryDir faults =>
    simp only [JournalStage.act, drain, Act.published, List.append_nil]
    repeat' split
    all_goals exact ⟨rfl, rfl, rfl, rfl⟩
  | rotate faults =>
    simp only [JournalStage.act, rotate, Act.published, List.append_nil]
    repeat' split
    all_goals exact ⟨rfl, rfl, rfl, rfl⟩
  | prepare serial bytes window mode faults =>
    simp only [JournalStage.act, prepare, Act.published, List.append_nil]
    repeat' split
    all_goals exact ⟨rfl, rfl, rfl, rfl⟩

end JournalStage

section

variable {E : Type} [AppEvent E] [Hashing]

/-- A rotation that may be performed: nothing is ahead of the disk, and the numbering goes on. -/
structure RequestOk (ledger : Ledger E) (stage : JournalStage E) (request : RotateRequest) :
    Prop where
  drained : stage.batches = []
  quiesced : ledger.pending = []
  continues : request.startingSequence = ledger.next
  anchor : request.anchorHash = ledger.chain.value
  fits : request.startingSequence < 2 ^ 64
  taken : stage.preparer.join = none
  spare : ∀ ready ∈ request.prepared, Spare stage.disk ready

structure DiskSide (origin : Origin E) (ledger : Ledger E) (stage : JournalStage E) : Prop where
  handed : HandedOver origin stage.ring ledger.live.chain ledger.onDisk stage.batches ledger.handed
  continues : Consecutive ledger.live.next (sequencesOf ledger.ahead)
  files : stage.poisoned = false → HoldsFiles stage.disk.fs stage.disk.sealedFiles ledger.archived
    stage.disk.segment ledger.live
  spare : stage.poisoned = false → ∀ ready ∈ stage.preparer.join, Spare stage.disk ready
  request : ∀ request, stage.rotation = .requested request → RequestOk ledger stage request
  /-- A disk thread that failed released nothing. -/
  stuck : stage.poisoned = true → stage.batches ≠ []
  history : HistoryOk origin stage.ring stage.disk.history
  unfailed : stage.poisoned = false → ∀ err, .failed err ∉ stage.disk.history
  cursors : stage.disk.cursors = stage.disk.history.foldl DiskEvent.moves origin.cursors
  linked : ledger.LinkedFrom origin.opening

def Ledger.rotated (ledger : Ledger E) (startingSequence : Nat) (anchorHash : Digest)
    (fits : startingSequence < 2 ^ 64) : Ledger E where
  archived := ledger.archived ++ [ledger.live]
  live := .fresh startingSequence anchorHash ledger.live.genesisEntries fits ledger.live.genesisFits
  handed := []
  pending := []

/-- Entries that came further towards the disk, all of them in the same segment. -/
structure Ledger.Settles (before after : Ledger E) : Prop where
  entries : after.entries = before.entries
  next : after.next = before.next
  pending : after.pending = before.pending
  chain : after.chain = before.chain

theorem Ledger.Settles.refl (ledger : Ledger E) : ledger.Settles ledger := ⟨rfl, rfl, rfl, rfl⟩

theorem Ledger.LinkedFrom.extend {ledger : Ledger E} {opening : FileHeaderInfo}
    (linked : ledger.LinkedFrom opening) (entries : List (WrittenEntry E))
    (continues : Consecutive ledger.live.next (sequencesOf entries))
    {handed : List (List (WrittenEntry E))} {pending : List (WrittenEntry E)} :
    Ledger.LinkedFrom ⟨ledger.archived, ledger.live.extend entries continues, handed, pending⟩
      opening := by
  obtain ⟨links, first⟩ := linked
  rw [List.map_append] at links
  obtain ⟨front, -, joined⟩ := List.isChain_append.mp links
  refine ⟨?_, fun other isFirst => ?_⟩
  · rw [List.map_append]
    refine List.isChain_append.mpr ⟨front, .singleton _, fun before isLast after isNext => ?_⟩
    obtain ⟨start, anchor, genesis⟩ := joined before isLast ledger.live.segment rfl
    cases Option.mem_some_iff.mp isNext
    exact ⟨start, anchor, genesis⟩
  · cases front : ledger.archived with
    | nil =>
      rw [front] at isFirst first
      cases Option.mem_some_iff.mp isFirst
      exact first ledger.live rfl
    | cons head archived =>
      rw [front] at isFirst first
      exact first other isFirst

theorem Ledger.LinkedFrom.rotated {ledger : Ledger E} {opening : FileHeaderInfo}
    (linked : ledger.LinkedFrom opening) {startingSequence : Nat} {anchorHash : Digest}
    (continues : startingSequence = ledger.live.next) (anchor : anchorHash = ledger.live.chain.value)
    (fits : startingSequence < 2 ^ 64) :
    (ledger.rotated startingSequence anchorHash fits).LinkedFrom opening := by
  refine ⟨?_, fun other isFirst => linked.first other ?_⟩
  · rw [Ledger.rotated, List.map_append]
    refine List.isChain_append.mpr ⟨linked.links, .singleton _, fun before isLast after isNext => ?_⟩
    rw [List.map_append, List.map_singleton, List.getLast?_concat] at isLast
    cases Option.mem_some_iff.mp isLast
    cases Option.mem_some_iff.mp isNext
    refine ⟨?_, ?_, rfl⟩
    · rw [WrittenSegment.segment_next]
      exact continues
    · rw [WrittenSegment.segment_tail]
      exact anchor
  · rw [Ledger.rotated, List.head?_append_of_ne_nil _ (by simp)] at isFirst
    exact isFirst

theorem HistoryOk.grow {origin : Origin E} {ring : List (InputSlot E)} {history : List DiskEvent}
    (ok : HistoryOk origin ring history) (more : List (InputSlot E)) :
    HistoryOk origin (ring ++ more) history :=
  ⟨fun info files fs member => (ok.published info files fs member).grow more, ok.failedLast⟩

theorem HistoryOk.snoc {origin : Origin E} {ring : List (InputSlot E)} {history : List DiskEvent}
    (ok : HistoryOk origin ring history) (unfailed : ∀ err, .failed err ∉ history) {event : DiskEvent}
    (holds : ∀ info files fs, event = .published info files fs →
      origin.Covers ring info (files.flatMap (syncedEntries fs)) (syncedTail E fs files)) :
    HistoryOk origin ring (history ++ [event]) := by
  refine ⟨fun info files fs member => ?_, fun before err after split => ?_⟩
  · rcases List.mem_append.mp member with old | new
    · exact ok.published info files fs old
    · exact holds info files fs (List.mem_singleton.mp new).symm
  · -- A failure before the last event would be one of the history's.
    by_contra some
    have dropped := congrArg List.dropLast split
    rw [List.dropLast_concat, List.dropLast_append_cons, List.dropLast_cons_of_ne_nil some] at dropped
    exact unfailed err (dropped ▸ by simp)

namespace DiskSide

variable {origin : Origin E} {ledger : Ledger E} {stage next : JournalStage E}

theorem frame (side : DiskSide origin ledger stage) {more : List (InputSlot E)}
    (ring : next.ring = stage.ring ++ more) (batches : next.batches = stage.batches)
    (rotation : next.rotation = stage.rotation) (preparer : next.preparer = stage.preparer)
    (poisoned : next.poisoned = stage.poisoned) (disk : next.disk = stage.disk) :
    DiskSide origin ledger next where
  handed := by rw [ring, batches]; exact side.handed.grow more
  continues := side.continues
  files := by rw [poisoned, disk]; exact side.files
  spare := by rw [poisoned, preparer, disk]; exact side.spare
  request := by
    intro request requested
    rw [rotation] at requested
    obtain ⟨drained, quiesced, continues, anchor, fits, taken, spare⟩ := side.request request requested
    exact ⟨batches.trans drained, quiesced, continues, anchor, fits, by rw [preparer]; exact taken,
      by rw [disk]; exact spare⟩
  stuck := by rw [poisoned, batches]; exact side.stuck
  history := by rw [ring, disk]; exact side.history.grow more
  unfailed := by rw [poisoned, disk]; exact side.unfailed
  cursors := by rw [disk]; exact side.cursors
  linked := side.linked

theorem healthy (side : DiskSide origin ledger stage) (drained : stage.batches = []) :
    stage.poisoned = false := by
  cases poisoned : stage.poisoned with
  | false => rfl
  | true => exact absurd drained (side.stuck poisoned)

def drained (ledger : Ledger E) (count : Nat) : List (WrittenEntry E) :=
  (ledger.handed.take count).flatten

theorem consecutive_drained (side : DiskSide origin ledger stage) (count : Nat) :
    Consecutive ledger.live.next (sequencesOf (drained ledger count)) ∧
      Consecutive (ledger.live.next + (drained ledger count).length)
        (sequencesOf ((ledger.handed.drop count).flatten ++ ledger.pending)) := by
  have whole := side.continues
  have parted : ledger.ahead
      = drained ledger count ++ ((ledger.handed.drop count).flatten ++ ledger.pending) := by
    rw [drained, ← List.append_assoc, ← List.flatten_append, List.take_append_drop]
    rfl
  rw [parted, sequencesOf, List.map_append, consecutive_append, List.length_map] at whole
  exact whole

def afterDrain (side : DiskSide origin ledger stage) (count : Nat) : Ledger E where
  archived := ledger.archived
  live := ledger.live.extend (drained ledger count) (side.consecutive_drained count).1
  handed := ledger.handed.drop count
  pending := ledger.pending

theorem chain_afterDrain (side : DiskSide origin ledger stage) (count : Nat) :
    (side.afterDrain count).live.chain = chainBehind ledger.live.chain (drained ledger count) :=
  ledger.live.extend_chain _ (side.consecutive_drained count).1

theorem settles_afterDrain (side : DiskSide origin ledger stage) (count : Nat) :
    ledger.Settles (side.afterDrain count) := by
  have parted : ledger.ahead = drained ledger count ++ (side.afterDrain count).ahead := by
    rw [drained, Ledger.ahead, Ledger.ahead, afterDrain, ← List.append_assoc, ← List.flatten_append,
      List.take_append_drop]
  have live : (side.afterDrain count).live.entries
      = ledger.live.entries ++ drained ledger count := rfl
  refine ⟨?_, ?_, rfl, ?_⟩
  · rw [Ledger.entries, Ledger.entries, Ledger.onDisk, Ledger.onDisk, live, parted]
    simp [afterDrain, List.append_assoc]
  · rw [Ledger.next, Ledger.next, WrittenSegment.next, WrittenSegment.next, live, parted]
    simp only [List.length_append, afterDrain, WrittenSegment.extend]
    omega
  · rw [Ledger.chain, Ledger.chain, parted, chainBehind_append, side.chain_afterDrain]

/-- A drain of the oldest batches puts their entries on disk and publishes them, or is the last. -/
theorem drain [LawfulAppEvent E] (side : DiskSide origin ledger stage)
    (healthy : stage.poisoned = false) (count : Nat) (retryDir : Bool) (faults : List Fault) :
    ∃ later, DiskSide origin later (stage.drain count retryDir faults) ∧ ledger.Settles later := by
  simp only [JournalStage.drain]
  cases isLast : (stage.batches.take count).getLast? with
  | none => exact ⟨ledger, side, .refl ledger⟩
  | some last =>
    have holds := side.files healthy
    have drains := (holds.drainAndSync_always ((stage.batches.take count).map (·.bytes))
      retryDir).runFailing faults
    have nonempty : stage.batches ≠ [] := by
      rintro none
      simp [none] at isLast
    have idle : ∀ request, stage.rotation ≠ .requested request := fun request requested =>
      nonempty (side.request request requested).drained
    simp only
    generalize (drainAndSync stage.disk.segment ((stage.batches.take count).map (·.bytes))
      retryDir).runFailing faults stage.disk.fs = ended at drains
    obtain ⟨fs, result⟩ := ended
    cases result with
    | error err =>
      refine ⟨ledger, ?_, .refl ledger⟩
      refine ⟨side.handed, side.continues, by simp, by simp,
        fun request requested => absurd requested (idle request), fun _ => nonempty,
        side.history.snoc (side.unfailed healthy) (by simp), by simp, ?_, side.linked⟩
      simp only [List.foldl_append, List.foldl_cons, List.foldl_nil, DiskEvent.moves]
      exact side.cursors
    | ok segment =>
      obtain ⟨grown, settled⟩ := drains
      have bytes : ledger.live.bytes ++ ((stage.batches.take count).map (·.bytes)).flatten
          = (side.afterDrain count).live.bytes := by
        rw [side.handed.take_bytes]
        exact (ledger.live.extend_bytes _ (side.consecutive_drained count).1).symm
      rw [bytes] at grown
      have onDisk : HoldsFiles fs stage.disk.sealedFiles ledger.archived segment
          (side.afterDrain count).live := holds.append rfl grown settled
      have covers := side.handed.covers_last isLast
      have written : ledger.onDisk ++ (ledger.handed.take count).flatten
          = (side.afterDrain count).onDisk := by
        simp [Ledger.onDisk, afterDrain, drained, WrittenSegment.extend, List.append_assoc]
      rw [written, ← drained, ← side.chain_afterDrain] at covers
      refine ⟨side.afterDrain count, ?_, side.settles_afterDrain count⟩
      refine ⟨?_, (side.consecutive_drained count).2 |> fun rest => ?_, fun _ => onDisk,
        fun _ ready offered => ?_, fun request requested => absurd requested (idle request),
        by simp [healthy], ?_, fun _ err => ?_, ?_, side.linked.extend _ _⟩
      · rw [← written, side.chain_afterDrain]
        exact side.handed.drop count
      · have next : (side.afterDrain count).live.next
            = ledger.live.next + (drained ledger count).length := by
          simp [WrittenSegment.next, afterDrain, WrittenSegment.extend, Nat.add_assoc]
        rw [next]
        exact rest
      · obtain ⟨⟨named, zeros⟩, apart⟩ := side.spare healthy ready offered
        have isOther : ready.file ≠ stage.disk.segment.file :=
          fun same => apart (same ▸ List.mem_cons_self ..)
        refine ⟨⟨by rw [grown.table]; exact named, ?_⟩, by rw [grown.file]; exact apart⟩
        rw [grown.inodes ready.file isOther]
        exact zeros
      · refine side.history.snoc (side.unfailed healthy) fun info files fs same => ?_
        cases same
        rw [onDisk.syncedEntries_eq, onDisk.syncedTail_eq]
        exact covers
      · rw [List.mem_append, List.mem_singleton]
        simpa using side.unfailed healthy err
      · simp only [List.foldl_append, List.foldl_cons, List.foldl_nil, DiskEvent.moves]
        rw [side.cursors]

theorem ahead_eq_nil (side : DiskSide origin ledger stage) {request : RotateRequest}
    (requested : stage.rotation = .requested request) : ledger.ahead = [] := by
  obtain ⟨drained, quiesced, -⟩ := side.request request requested
  have noneHanded : ledger.handed = [] := by
    rw [← List.length_eq_zero_iff, ← side.handed.length_eq, drained, List.length_nil]
  rw [Ledger.ahead, noneHanded, quiesced]
  rfl

/-- A rotation that was asked for seals the live segment and opens the next, or changes nothing. -/
theorem rotate (side : DiskSide origin ledger stage) {request : RotateRequest}
    (requested : stage.rotation = .requested request) (faults : List Fault) :
    (∃ err, (stage.rotate faults).rotation = .done (.error err) ∧
      DiskSide origin ledger (stage.rotate faults)) ∨
    (stage.rotate faults).rotation = .done (.ok ()) ∧
      DiskSide origin (ledger.rotated request.startingSequence request.anchorHash
        (side.request request requested).fits) (stage.rotate faults) := by
  obtain ⟨drained, quiesced, continues, anchor, fits, taken, spare⟩ := side.request request requested
  have healthy := side.healthy drained
  have holds := side.files healthy
  have staged : ∀ ready ∈ request.prepared, Staged stage.disk.fs ready ∧
      ready.file ∉ stage.disk.segment.file :: stage.disk.sealedFiles :=
    fun ready isReady => ⟨(spare ready isReady).staged, (spare ready isReady).apart⟩
  have rotates := (holds.rotate_always staged request.anchorHash fits).runFailing faults
  simp only [JournalStage.rotate, requested]
  generalize (stage.disk.segment.rotate request.prepared request.startingSequence
    request.anchorHash).runFailing faults stage.disk.fs = ended at rotates
  obtain ⟨fs, result⟩ := ended
  cases result with
  | error err =>
    refine .inl ⟨err, rfl, side.handed, side.continues, fun _ => rotates, fun _ => by simp [taken],
      by simp, side.stuck, side.history, side.unfailed, side.cursors, side.linked⟩
  | ok segment =>
    have behind := side.ahead_eq_nil requested
    refine .inr ⟨rfl, ?_, consecutive_nil _, fun _ => rotates, fun _ => by simp [taken], by simp,
      side.stuck, side.history, side.unfailed, side.cursors, side.linked.rotated ?_ ?_ fits⟩
    · simp only [drained]
      exact .nil ..
    · rw [continues, Ledger.next, behind]
      rfl
    · rw [anchor, Ledger.chain, behind]
      rfl

theorem rotated_entries (side : DiskSide origin ledger stage) {request : RotateRequest}
    (requested : stage.rotation = .requested request) :
    (ledger.rotated request.startingSequence request.anchorHash
        (side.request request requested).fits).entries = ledger.entries ∧
      (ledger.rotated request.startingSequence request.anchorHash
        (side.request request requested).fits).next = ledger.next := by
  constructor
  · rw [Ledger.entries, Ledger.entries, side.ahead_eq_nil requested]
    simp [Ledger.onDisk, Ledger.rotated, Ledger.ahead, WrittenSegment.fresh]
  · rw [← (side.request request requested).continues]
    rfl

theorem prepare (side : DiskSide origin ledger stage) (idle : stage.rotationRequested = false)
    (free : stage.preparer.join = none) (serial bytes window : Nat) (mode : StagingMode)
    (faults : List Fault) : DiskSide origin ledger (stage.prepare serial bytes window mode faults) := by
  have prepares := (prepareOne_always stage.disk.fs serial bytes window mode).runFailing faults
  have sound := fun sound : stage.disk.fs.Sound =>
    ((prepareOne serial bytes window mode).always_sound sound).runFailing faults
  have none : ∀ request, stage.rotation ≠ .requested request := by
    intro request requested
    simp [JournalStage.rotationRequested, requested] at idle
  simp only [JournalStage.prepare]
  generalize (prepareOne serial bytes window mode).runFailing faults stage.disk.fs = ended
    at prepares sound
  obtain ⟨fs, result⟩ := ended
  obtain ⟨leaves, offered⟩ := prepares
  have files : stage.poisoned = false → HoldsFiles fs stage.disk.sealedFiles ledger.archived
      stage.disk.segment ledger.live := by
    intro healthy
    have holds := side.files healthy
    refine holds.frame (sound holds.sound) (fun file member =>
      leaves.inodes file (holds.allocated file member).ne) leaves.grown fun file member => ?_
    rw [leaves.liveName]
    exact holds.unnamed file member
  cases result with
  | error err =>
    exact ⟨side.handed, side.continues, files, fun _ => by simp [free],
      fun request requested => absurd requested (none request), side.stuck, side.history,
      side.unfailed, side.cursors, side.linked⟩
  | ok ready =>
    refine ⟨side.handed, side.continues, files, fun healthy other isOffered => ?_,
      fun request requested => absurd requested (none request), side.stuck, side.history,
      side.unfailed, side.cursors, side.linked⟩
    obtain ⟨staged, isFresh⟩ := offered ready rfl
    obtain rfl : ready = other := by simpa using isOffered
    refine ⟨staged, fun member => ?_⟩
    exact lt_irrefl _ (isFresh ▸ (side.files healthy).allocated _ member)

inductive Changes (ledger : Ledger E) (stage after : JournalStage E) (later : Ledger E) : Prop where
  /-- Entries came further, and no rotation was answered. -/
  | settles (settles : ledger.Settles later) (rotation : after.rotation = stage.rotation)
  | failed (request : RotateRequest) (requested : stage.rotation = .requested request)
      (err : JournalError) (answered : after.rotation = .done (.error err)) (same : later = ledger)
  | rotated (request : RotateRequest) (requested : stage.rotation = .requested request)
      (fits : request.startingSequence < 2 ^ 64) (answered : after.rotation = .done (.ok ()))
      (sealed : later = ledger.rotated request.startingSequence request.anchorHash fits)

theorem act [LawfulAppEvent E] (side : DiskSide origin ledger stage) (act : Act E) :
    ∃ later, DiskSide origin later (stage.act act) ∧ Changes ledger stage (stage.act act) later := by
  have unchanged : ∃ later, DiskSide origin later stage ∧ Changes ledger stage stage later :=
    ⟨ledger, side, .settles (.refl ledger) rfl⟩
  -- Most acts touch nothing the disk side is about.
  have framed : ∀ {next : JournalStage E} (more : List (InputSlot E)),
      next.ring = stage.ring ++ more → next.batches = stage.batches →
      next.rotation = stage.rotation → next.preparer = stage.preparer →
      next.poisoned = stage.poisoned → next.disk = stage.disk →
      ∃ later, DiskSide origin later next ∧ Changes ledger stage next later :=
    fun more ring batches rotation preparer poisoned disk =>
      ⟨ledger, side.frame ring batches rotation preparer poisoned disk,
        .settles (.refl ledger) rotation⟩
  cases act with
  | publish slot => exact framed [slot] rfl rfl rfl rfl rfl rfl
  | mark | shutdown | requestRotation | clock | sender =>
    exact framed [] (List.append_nil _).symm rfl rfl rfl rfl rfl
  | drain count retryDir faults =>
    simp only [JournalStage.act]
    split
    · exact unchanged
    · rename_i healthy
      obtain ⟨later, laterSide, settles⟩ :=
        side.drain (Bool.eq_false_iff.mpr healthy) count retryDir faults
      exact ⟨later, laterSide, .settles settles (JournalStage.rotation_drain ..)⟩
  | rotate faults =>
    simp only [JournalStage.act]
    split
    · exact unchanged
    · cases rotation : stage.rotation with
      | idle | done =>
        simp only [JournalStage.rotate, rotation]
        exact unchanged
      | requested request =>
        rcases side.rotate rotation faults with ⟨err, answered, still⟩ | ⟨answered, rotated⟩
        · exact ⟨ledger, still, .failed request rotation err answered rfl⟩
        · exact ⟨_, rotated, .rotated request rotation (side.request request rotation).fits answered
            rfl⟩
  | prepare serial bytes window mode faults =>
    simp only [JournalStage.act]
    split
    · rename_i free
      rw [Bool.and_eq_true, Bool.not_eq_true'] at free
      have noneReady : stage.preparer.join = none := by
        have free := free.1
        simp only [JournalStage.preparerFree] at free
        split at free <;> simp_all
      refine ⟨ledger, side.prepare free.2 noneReady serial bytes window mode faults,
        .settles (.refl ledger) (JournalStage.rotation_prepare ..)⟩
    · exact unchanged

end DiskSide

end

end Melin
