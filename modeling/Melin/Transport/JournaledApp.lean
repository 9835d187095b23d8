import Melin.Journal.BufferedWriter
import Melin.Journal.Directory
import Melin.Transport.Recovery

/-! The journaled application: the journal directory is read back, and its writer goes on. -/

namespace Melin

open Lib

def journalDir (fs : Fs NodeFile) : JournalDir where
  archives := (archiveIndexes fs.table).map fun index =>
    (index, (fs.content (.archive index)).getD [])
  live := fs.content .live
  ascending := by
    rw [List.pairwise_map]
    exact archiveIndexes_pairwise fs.table

structure JournaledApp (A : Type) where
  app : A
  writer : BufferedWriter
  recoveredLineage : Lineage
  tickWatermark : TickWatermark

structure RecoveryReads where
  segments : ReadSchedule
  chain : Nat → Nat

namespace JournaledApp

abbrev AppProg := Prog NodeFile JournaledAppError

variable {A E R : Type} [Application A E R] [AppEvent E] [Hashing]

def create (app : A) (salt : Digest) (prealloc : Prealloc) : AppProg (JournaledApp A) := do
  let writer ← (BufferedWriter.create .live salt prealloc).mapError .journal
  return { app, writer, recoveredLineage := .genesis, tickWatermark := .genesis }

def openWriter (opening : Opening) (prealloc : Prealloc) (grants : Nat → Nat) :
    JournalProg BufferedWriter :=
  match opening with
  | .create startingSequence anchorHash genesisEntries =>
    BufferedWriter.createContinuing .live startingSequence anchorHash genesisEntries prealloc
  | .append lastSeq validEnd => BufferedWriter.openAppend .live lastSeq validEnd prealloc grants

def recoverInner (app : A) (snapshot : SnapshotSource) (prealloc : Prealloc)
    (reads : RecoveryReads) : AppProg (JournaledApp A) :=
  .look fun fs =>
    match recoverRead app snapshot reads.segments (journalDir fs) with
    | (_, .error err) => .fail err
    | (replay, .ok opening) => do
      let writer ← (openWriter opening prealloc reads.chain).mapError .journal
      return { app := replay.app, writer, recoveredLineage := replay.lineage
               tickWatermark := replay.clock.running }

def recover (app : A) (prealloc : Prealloc) (reads : RecoveryReads) : AppProg (JournaledApp A) :=
  recoverInner app none prealloc reads

def recoverFromSnapshot (prealloc : Prealloc) (reads : RecoveryReads) : AppProg (JournaledApp A) :=
  .look fun fs =>
    match fs.content .snapshot with
    | none => .fail (.snapshot (.io ⟨.notFound, "No such file or directory (os error 2)"⟩))
    | some bytes =>
      match load A bytes with
      | .error err => .fail (.snapshot err)
      | .ok (app, header) => recoverInner app (some header) prealloc reads

end JournaledApp

end Melin
