import Melin.Journal.SegmentFile

/-! The segment preparer: segments are staged as zeros before a rotation needs them. -/

namespace Melin

open Lib

inductive StagingMode where
  | zeroFill
  | allocate
  deriving DecidableEq, Repr

def prepareAllocated (file bytes : Nat) : JournalProg Unit := do
  let _ ← io (.change file (.allocate bytes))
  let _ ← io (.sync file)

def prepareZeroFilled (file window : Nat) : Nat → Nat → JournalProg Unit
  | offset, bytes + 1 => do
    let taken := min (window + 1) (bytes + 1)
    let _ ← io (.change file (.write offset (List.replicate taken 0)))
    prepareZeroFilled file window (offset + taken) (bytes + 1 - taken)
  | _, 0 => do
    let _ ← io (.sync file)
termination_by _ bytes => bytes

def prepareOne (serial bytes window : Nat) (mode : StagingMode) :
    JournalProg PreparedSegment := do
  let file ← io (.create (.staging serial))
  match mode with
  | .zeroFill =>
    prepareZeroFilled file window 0 bytes
    return { file, serial, allocatedEnd := bytes, written := true }
  | .allocate =>
    prepareAllocated file bytes
    return { file, serial, allocatedEnd := bytes, written := false }

structure Staged (fs : Fs NodeFile) (prepared : PreparedSegment) : Prop where
  named : fs.table.lookup (.staging prepared.serial) = some prepared.file
  zeros : ∃ content, fs.inodes prepared.file = .settled content ∧ Padded [] content

theorem run_prepareZeroFilled (file window bytes : Nat) {offset : Nat} {fs : Fs NodeFile}
    (zeros : (fs.inodes file).content = List.replicate offset 0) :
    ∃ content, (prepareZeroFilled file window offset bytes).run fs
        = (fs.setInode file (.settled content), .ok ()) ∧ Padded [] content := by
  induction bytes using Nat.strong_induction_on generalizing offset fs with
  | _ bytes ih =>
    match bytes with
    | 0 =>
      refine ⟨List.replicate offset 0, ?_, offset, by simp⟩
      rw [prepareZeroFilled]
      simp [io, Prog.run_bind, DurableFile.sync, DurableFile.settled, zeros]
    | bytes + 1 =>
      let taken := min (window + 1) (bytes + 1)
      have positive : 0 < taken := by simp only [taken]; omega
      have written : ((fs.setInode file ((fs.inodes file).change
          (.write offset (List.replicate taken 0)))).inodes file).content
            = List.replicate (offset + taken) 0 := by
        simp [zeros, FileOp.apply, writeAt, List.replicate_append_replicate]
      obtain ⟨content, ran, padded⟩ := ih (bytes + 1 - taken) (by omega) written
      refine ⟨content, ?_, padded⟩
      rw [prepareZeroFilled]
      simp only [io, Prog.run_bind, Prog.run_perform_change]
      rw [ran, Fs.setInode_setInode]

theorem run_prepareOne {fs : Fs NodeFile} {serial : Nat}
    (free : fs.table.lookup (.staging serial) = none) (bytes window : Nat) (mode : StagingMode) :
    ∃ content prepared, (prepareOne serial bytes window mode).run fs
        = ({ (fs.setTable (fs.table.insert (.staging serial) fs.fresh)).setInode fs.fresh
              (.settled content) with fresh := fs.fresh + 1 }, .ok prepared) ∧
      prepared.file = fs.fresh ∧ prepared.serial = serial ∧ Padded [] content := by
  let created : Fs NodeFile := { (fs.setTable (fs.table.insert (.staging serial) fs.fresh)).setInode
    fs.fresh (.settled []) with fresh := fs.fresh + 1 }
  have creates : fs.step (.create (.staging serial)) = .ok (fs.fresh, created) := by
    simp [Fs.step, free, created]
  have empty : (created.inodes fs.fresh).content = List.replicate 0 0 := by
    simp [created, Fs.setInode]
  cases mode with
  | zeroFill =>
    obtain ⟨content, ran, padded⟩ := run_prepareZeroFilled fs.fresh window bytes empty
    refine ⟨content, { file := fs.fresh, serial, allocatedEnd := bytes, written := true }, ?_, rfl,
      rfl, padded⟩
    simp only [prepareOne, io, Prog.run_bind, Prog.run_perform, creates, ran, Prog.run_pure]
    simp [created, Fs.setInode]
  | allocate =>
    refine ⟨List.replicate bytes 0, { file := fs.fresh, serial, allocatedEnd := bytes
                                      written := false }, ?_, rfl, rfl, bytes, by simp⟩
    simp only [prepareOne, prepareAllocated, io, Prog.run_bind, Prog.run_perform, creates,
      Prog.run_pure]
    have zeros : ((DurableFile.settled []).change (.allocate bytes)).sync
        = .settled (List.replicate bytes 0) := by
      simp [DurableFile.sync, DurableFile.settled, DurableFile.content, DurableFile.change,
        FileOp.apply]
    simp [created, Fs.setInode, Fs.step, zeros]

end Melin
