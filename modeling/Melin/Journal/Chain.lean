import Melin.Journal.Event
import Melin.Lib.ByteFile

/-! The per-segment hash chain: a digest over a segment's entries and its anchor. -/

namespace Melin

open Lib

structure SegmentChain where
  anchor : Digest
  absorbed : Bytes
  dirty : Bool
  deriving DecidableEq

def SegmentChain.new (anchor : Digest) : SegmentChain := { anchor, absorbed := [], dirty := false }

def SegmentChain.absorb (chain : SegmentChain) (entryBytes : Bytes) : SegmentChain :=
  { chain with absorbed := chain.absorbed ++ entryBytes, dirty := true }

def SegmentChain.value [Hashing] (chain : SegmentChain) : Digest :=
  if chain.dirty then Hashing.blake3 (chain.absorbed ++ chain.anchor.bytes) else chain.anchor

def chainScratchSize : Nat := 2 ^ 20

def SegmentChain.rebuildLoop (validEnd : Nat) :
    Nat → ByteFile → Nat → SegmentChain → Except JournalError SegmentChain
  | 0, _, _, chain => .ok chain
  | fuel + 1, file, offset, chain =>
    if offset < validEnd then
      let (chunk, file) := file.readAt offset (min (validEnd - offset) chainScratchSize)
      if chunk.length = 0 then
        .error (.io .unexpectedEof "journal shorter than valid_end while rebuilding chain")
      else rebuildLoop validEnd fuel file (offset + chunk.length) (chain.absorb chunk)
    else .ok chain

def SegmentChain.rebuildFromFile (file : ByteFile) (anchor : Digest) (entryOffset validEnd : Nat) :
    Except JournalError SegmentChain :=
  if validEnd ≤ entryOffset then .ok (.new anchor)
  else rebuildLoop validEnd (validEnd - entryOffset) file entryOffset (.new anchor)

theorem SegmentChain.absorb_append (chain : SegmentChain) (front back : Bytes) :
    (chain.absorb front).absorb back = chain.absorb (front ++ back) := by
  simp [absorb]

theorem SegmentChain.foldl_absorb {α : Type} (bytes : α → Bytes) {pieces : List α}
    (some : pieces ≠ []) (chain : SegmentChain) :
    pieces.foldl (fun chain piece => chain.absorb (bytes piece)) chain
      = chain.absorb (pieces.flatMap bytes) := by
  induction pieces generalizing chain with
  | nil => exact absurd rfl some
  | cons piece pieces ih =>
    by_cases last : pieces = []
    · simp [last]
    · rw [List.foldl_cons, ih last, absorb_append, List.flatMap_cons]

theorem SegmentChain.rebuildLoop_eq {validEnd : Nat} (fuel : Nat) (file : ByteFile) (offset : Nat)
    (chain : SegmentChain) (inside : validEnd ≤ file.content.length)
    (enough : validEnd - offset ≤ fuel) (more : offset < validEnd) :
    rebuildLoop validEnd fuel file offset chain
      = .ok (chain.absorb (slice file.content offset (validEnd - offset))) := by
  induction fuel generalizing file offset chain with
  | zero => omega
  | succ fuel ih =>
    have room : 0 < min (validEnd - offset) chainScratchSize := by
      simp only [chainScratchSize]
      omega
    obtain ⟨chunk, nonempty, front, read⟩ := file.readAt_eq room (show offset < _ by omega)
    have bounded : chunk.length ≤ validEnd - offset := by
      have width := congrArg (fun result => result.1.length) read
      simp only [ByteFile.readAt, slice, List.length_take, ByteFile.granted] at width
      omega
    have rest : slice file.content offset (validEnd - offset)
        = chunk ++ slice file.content (offset + chunk.length)
          (validEnd - (offset + chunk.length)) := by
      simp only [slice, front, List.take_append, List.take_of_length_le bounded]
      rw [Nat.sub_sub]
    simp only [rebuildLoop, if_pos more, read, if_neg (show chunk.length ≠ 0 by omega)]
    by_cases last : offset + chunk.length < validEnd
    · rw [ih { file with calls := file.calls + 1 } _ _ inside (by omega) last, rest,
        absorb_append]
    · -- The chunk reached the end, and the next pass stops there.
      have stop : validEnd - (offset + chunk.length) = 0 := by omega
      rw [rest, stop]
      cases fuel with
      | zero => simp [rebuildLoop, slice]
      | succ fuel => simp [rebuildLoop, last, slice]

theorem SegmentChain.rebuildFromFile_eq {file : ByteFile} {entryOffset validEnd : Nat}
    (anchor : Digest) (inside : validEnd ≤ file.content.length) :
    rebuildFromFile file anchor entryOffset validEnd
      = .ok (if validEnd ≤ entryOffset then .new anchor
          else (SegmentChain.new anchor).absorb
            (slice file.content entryOffset (validEnd - entryOffset))) := by
  unfold rebuildFromFile
  split
  · rfl
  · exact rebuildLoop_eq _ _ _ _ inside le_rfl (by omega)

end Melin
