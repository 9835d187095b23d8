import Melin.Journal.FailingDisk
import Melin.Pipeline.JournalDisk

/-! What the disk thread's drain leaves on disk, whatever fails in it. -/

namespace Melin

open Lib

def WhenOk {α : Type} (post : Fs NodeFile → α → Prop) (after : Fs NodeFile) :
    Except JournalError α → Prop
  | .ok value => post after value
  | .error _ => True

/-- A segment's file written up to the end of these bytes, and nothing else touched. -/
structure Grown (fs after : Fs NodeFile) (segment opened : SegmentFile) (bytes : Bytes) :
    Prop where
  inodes : ∀ other, other ≠ segment.file → after.inodes other = fs.inodes other
  table : after.table = fs.table
  fresh : after.fresh = fs.fresh
  file : opened.file = segment.file
  path : opened.path = segment.path
  genesis : opened.genesisEntries = segment.genesisEntries
  writePos : opened.writePos = bytes.length
  padded : Padded bytes (after.inodes segment.file).content

namespace Grown

variable {fs after : Fs NodeFile} {segment opened : SegmentFile} {bytes : Bytes}

theorem change (grown : Grown fs after segment opened bytes) {op : FileOp} {longer : Bytes}
    {next : SegmentFile} (file : next.file = opened.file) (path : next.path = opened.path)
    (genesis : next.genesisEntries = opened.genesisEntries) (writePos : next.writePos = longer.length)
    (padded : Padded longer (op.apply (after.inodes segment.file).content)) :
    Grown fs (after.setInode opened.file ((after.inodes opened.file).change op)) segment next
      longer where
  inodes := fun other apart =>
    (Function.update_of_ne (by rw [grown.file]; exact apart) ..).trans (grown.inodes other apart)
  table := grown.table
  fresh := grown.fresh
  file := file.trans grown.file
  path := path.trans grown.path
  genesis := genesis.trans grown.genesis
  writePos := writePos
  padded := by
    rw [grown.file, Fs.inodes_setInode, DurableFile.content_change]
    exact padded

theorem ensureAllocated (grown : Grown fs after segment opened bytes) (adding : Nat) :
    (opened.ensureAllocated adding).Always
      (WhenOk fun later next => Grown fs later segment next bytes) after := by
  rw [SegmentFile.ensureAllocated]
  split
  · exact grown
  · refine Prog.always_bind (Prog.always_bind (Prog.always_change ?_ fun _ _ => trivial))
    exact grown.change rfl rfl rfl grown.writePos (grown.padded.allocate _)

theorem writeVectored (grown : Grown fs after segment opened bytes) (bufs : List Bytes) :
    (opened.writeVectored bufs).Always
      (WhenOk fun later next => Grown fs later segment next (bytes ++ bufs.flatten)) after := by
  simp only [SegmentFile.writeVectored]
  have total : (bufs.map List.length).sum = bufs.flatten.length := List.length_flatten.symm
  split
  · rename_i none
    rw [total] at none
    rw [List.length_eq_zero_iff.mp none, List.append_nil]
    exact grown
  · refine Prog.always_bind ((grown.ensureAllocated _).imp fun later result ended => ?_)
    cases result with
    | error err => exact trivial
    | ok roomy =>
      have roomy : Grown fs later segment roomy bytes := ended
      refine Prog.always_bind (Prog.always_change ?_ fun _ _ => trivial)
      refine roomy.change rfl rfl rfl ?_ ?_
      · rw [total, List.length_append, roomy.writePos]
      · rw [roomy.writePos]
        exact roomy.padded.write _

theorem writeStaged (grown : Grown fs after segment opened bytes) (iov staged : List Bytes) :
    (Melin.writeStaged opened iov staged).Always
      (WhenOk fun later next =>
        Grown fs later segment next (bytes ++ (iov.flatten ++ staged.flatten))) after := by
  induction staged generalizing after opened bytes iov with
  | nil =>
    rw [Melin.writeStaged, List.flatten_nil, List.append_nil]
    split
    · rename_i none
      rw [none, List.flatten_nil, List.append_nil]
      exact grown
    · exact grown.writeVectored iov
  | cons batch staged ih =>
    rw [Melin.writeStaged]
    split
    · rename_i none
      rw [none, List.flatten_cons, List.nil_append]
      exact ih grown iov
    · have regrouped : bytes ++ (iov.flatten ++ (batch :: staged).flatten)
          = bytes ++ ((iov ++ [batch]).flatten ++ staged.flatten) := by simp
      rw [regrouped]
      split
      · refine Prog.always_bind ((grown.writeVectored _).imp fun later result ended => ?_)
        cases result with
        | error err => exact trivial
        | ok next =>
          rw [← List.append_assoc]
          exact ih ended []
      · exact ih grown (iov ++ [batch])

end Grown

theorem pollDirFsyncRetry_always {left : Fs NodeFile} (due : Bool) :
    (pollDirFsyncRetry due).Always (fun after result => result = .ok () ∧
      after.inodes = left.inodes ∧ after.table = left.table ∧ after.fresh = left.fresh) left := by
  cases due with
  | false => exact ⟨rfl, rfl, rfl, rfl⟩
  | true =>
    refine Prog.always_step.mpr ⟨fun answer after step => ?_, fun _ _ => ⟨rfl, rfl, rfl, rfl⟩,
      fun _ _ => ⟨rfl, rfl, rfl, rfl⟩⟩
    cases step
    exact ⟨rfl, rfl, rfl, rfl⟩

section

variable {E : Type} [AppEvent E] [Hashing] {fs after : Fs NodeFile} {files : List Nat}
  {archived : List (WrittenSegment E)} {segment opened : SegmentFile} {live : WrittenSegment E}

theorem HoldsFiles.grown (holds : HoldsFiles fs files archived segment live) :
    Grown fs fs segment segment live.bytes := by
  obtain ⟨content, settled, padded⟩ := holds.liveFile
  exact ⟨fun _ _ => rfl, rfl, rfl, rfl, rfl, rfl, holds.writePos, by rw [settled]; exact padded⟩

theorem HoldsFiles.append (holds : HoldsFiles fs files archived segment live)
    {longer : WrittenSegment E} (genesis : longer.genesisEntries = live.genesisEntries)
    (grown : Grown fs after segment opened longer.bytes)
    (settled : ∃ content, after.inodes segment.file = .settled content) :
    HoldsFiles after files archived opened longer := by
  obtain ⟨content, settled⟩ := settled
  have padded := grown.padded
  rw [settled, DurableFile.content_settled] at padded
  refine (holds.setLive grown.file grown.path
    (grown.genesis.trans (holds.genesis.trans genesis.symm)) grown.writePos padded).frame
      ?_ (fun file member => ?_) grown.fresh.ge ?_
  · constructor
    · rw [grown.table]
      exact holds.sound.distinct
    · rw [grown.table, grown.fresh]
      exact holds.sound.allocated
  · by_cases isLive : file = segment.file
    · rw [isLive, settled, Fs.inodes_setInode]
    · rw [grown.inodes file isLive]
      exact (Function.update_of_ne isLive ..).symm
  · rw [grown.table]
    exact holds.unnamed

theorem HoldsFiles.drainAndSync_always (holds : HoldsFiles fs files archived segment live)
    (staged : List Bytes) (retryDir : Bool) :
    (drainAndSync segment staged retryDir).Always (WhenOk fun after opened =>
      Grown fs after segment opened (live.bytes ++ staged.flatten) ∧
        ∃ content, after.inodes segment.file = .settled content) fs := by
  have total : (staged.map List.length).sum = staged.flatten.length := List.length_flatten.symm
  rw [drainAndSync]
  split
  · refine Prog.always_bind ((holds.grown.writeStaged [] staged).imp fun written result ended => ?_)
    cases result with
    | error err => exact trivial
    | ok opened =>
      have ended : Grown fs written segment opened (live.bytes ++ staged.flatten) := ended
      refine Prog.always_bind ((pollDirFsyncRetry_always retryDir).imp fun polled result kept => ?_)
      obtain ⟨rfl, inodes, table, fresh⟩ := kept
      refine Prog.always_bind (Prog.always_bind (Prog.always_sync ?_ fun _ => trivial))
      have polledEnds : Grown fs polled segment opened (live.bytes ++ staged.flatten) :=
        { ended with
          inodes := by rw [inodes]; exact ended.inodes
          table := table.trans ended.table
          fresh := fresh.trans ended.fresh
          padded := by rw [inodes]; exact ended.padded }
      refine ⟨{ polledEnds with
        inodes := fun other apart => (Function.update_of_ne (by rw [ended.file]; exact apart) ..).trans
          (polledEnds.inodes other apart)
        padded := ?_ }, (polled.inodes segment.file).content, ?_⟩
      · rw [ended.file, Fs.inodes_setInode, DurableFile.content_sync]
        exact polledEnds.padded
      · rw [ended.file, Fs.inodes_setInode]
        rfl
  · rename_i none
    rw [total, Nat.not_lt, Nat.le_zero] at none
    rw [List.length_eq_zero_iff.mp none, List.append_nil]
    refine Prog.always_bind ((pollDirFsyncRetry_always retryDir).imp fun polled result kept => ?_)
    obtain ⟨rfl, inodes, table, fresh⟩ := kept
    obtain ⟨content, settled, -⟩ := holds.liveFile
    refine ⟨{ holds.grown with
      inodes := fun other _ => by rw [inodes]
      table := table
      fresh := fresh
      padded := by rw [inodes]; exact holds.grown.padded }, content, ?_⟩
    rw [inodes]
    exact settled

end

end Melin
