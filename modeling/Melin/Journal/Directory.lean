import Melin.Journal.SegmentFile
import Melin.Lib.Lists

/-! The archives of a journal directory: their indexes, and the next free one. -/

namespace Melin

open Lib

variable {index : Nat} {table : Table NodeFile}

theorem archiveIndex_eq_some {name : NodeFile} :
    archiveIndex name = some index ↔ name = .archive index ∧ index ≠ 0 := by
  cases name with
  | segment path =>
    cases path with
    | live => simp [archiveIndex]
    | archive other =>
      by_cases zero : other = 0
      · simp only [archiveIndex, zero, if_true]
        constructor
        · simp
        · rintro ⟨same, nonzero⟩
          simp at same
          omega
      · simp only [archiveIndex, zero, if_false, Option.some.injEq, NodeFile.segment.injEq,
          SegmentPath.archive.injEq]
        constructor
        · rintro rfl
          exact ⟨rfl, zero⟩
        · exact fun found => found.1
  | staging | genesisStaging | snapshot | snapshotTmp | snapshotPrev => simp [archiveIndex]

theorem archiveIndexes_pairwise (table : Table NodeFile) :
    (archiveIndexes table).Pairwise (· < ·) := by
  have sorted : (archiveIndexes table).Pairwise (· ≤ ·) := by
    have transitive : ∀ low mid high : Nat, decide (low ≤ mid) = true →
        decide (mid ≤ high) = true → decide (low ≤ high) = true := by
      intro low mid high front back
      simp only [decide_eq_true_eq] at front back ⊢
      exact Nat.le_trans front back
    have total : ∀ one other : Nat, (decide (one ≤ other) || decide (other ≤ one)) = true := by
      intro one other
      simpa using Nat.le_total one other
    exact (List.pairwise_mergeSort transitive total _).imp fun ordered => of_decide_eq_true ordered
  have distinct : (archiveIndexes table).Nodup := by
    refine (List.mergeSort_perm _ _).nodup_iff.mpr ?_
    refine List.Nodup.filterMap ?_ table.nodupKeys
    intro one other index oneIs otherIs
    rw [Option.mem_def, archiveIndex_eq_some] at oneIs otherIs
    rw [oneIs.1, otherIs.1]
  exact (sorted.and distinct).imp fun ⟨le, ne⟩ => Nat.lt_of_le_of_ne le ne

theorem mem_archiveIndexes :
    index ∈ archiveIndexes table ↔ index ≠ 0 ∧ (table.lookup (.archive index)).isSome := by
  rw [archiveIndexes, List.mem_mergeSort, List.mem_filterMap]
  constructor
  · rintro ⟨name, member, isIndex⟩
    obtain ⟨rfl, nonzero⟩ := archiveIndex_eq_some.mp isIndex
    exact ⟨nonzero, AList.lookup_isSome.mpr member⟩
  · rintro ⟨nonzero, found⟩
    exact ⟨.archive index, AList.lookup_isSome.mp found, archiveIndex_eq_some.mpr ⟨rfl, nonzero⟩⟩

theorem archiveIndexes_eq {indexes : List Nat} (ascending : indexes.Pairwise (· < ·))
    (listed : ∀ index, index ∈ indexes ↔ index ≠ 0 ∧ (table.lookup (.archive index)).isSome) :
    archiveIndexes table = indexes := by
  have same : ∀ index, index ∈ archiveIndexes table ↔ index ∈ indexes := fun index => by
    rw [mem_archiveIndexes, listed]
  have order := archiveIndexes_pairwise table
  exact (sublist_of_increasing id order ascending fun index => (same index).mp).antisymm
    (sublist_of_increasing id ascending order fun index => (same index).mpr)

theorem archiveIndexes_congr {before after : Table NodeFile}
    (same : ∀ index, after.lookup (.archive index) = before.lookup (.archive index)) :
    archiveIndexes after = archiveIndexes before :=
  archiveIndexes_eq (archiveIndexes_pairwise before) fun index => by
    rw [mem_archiveIndexes, same]

theorem lt_nextArchiveIndex (member : index ∈ archiveIndexes table) :
    index < nextArchiveIndex table := by
  have order := archiveIndexes_pairwise table
  unfold nextArchiveIndex
  rcases List.eq_nil_or_concat' (archiveIndexes table) with none | ⟨front, last, split⟩
  · simp [none] at member
  · rw [split] at member order
    simp only [split, List.getLast?_concat]
    rcases List.mem_append.mp member with early | isLast
    · have before := (List.pairwise_append.mp order).2.2 index early last (by simp)
      omega
    · rw [List.mem_singleton.mp isLast]
      exact Nat.lt_succ_self last

theorem nextArchiveIndex_ne_zero (table : Table NodeFile) : nextArchiveIndex table ≠ 0 := by
  unfold nextArchiveIndex
  split
  · exact Nat.one_ne_zero
  · exact Nat.succ_ne_zero _

theorem lookup_nextArchive (table : Table NodeFile) :
    table.lookup (.archive (nextArchiveIndex table)) = none := by
  by_contra taken
  have listed : nextArchiveIndex table ∈ archiveIndexes table :=
    mem_archiveIndexes.mpr ⟨nextArchiveIndex_ne_zero table, Option.isSome_iff_ne_none.mpr taken⟩
  exact lt_irrefl _ (lt_nextArchiveIndex listed)

theorem archiveIndexes_snoc {before after : Table NodeFile} {inode : Nat}
    (same : ∀ index, index ≠ nextArchiveIndex before →
      after.lookup (.archive index) = before.lookup (.archive index))
    (added : after.lookup (.archive (nextArchiveIndex before)) = some inode) :
    archiveIndexes after = archiveIndexes before ++ [nextArchiveIndex before] := by
  refine archiveIndexes_eq ?_ fun index => ?_
  · refine List.pairwise_append.mpr ⟨archiveIndexes_pairwise before, List.pairwise_singleton .., ?_⟩
    intro index member next isNext
    rw [List.mem_singleton.mp isNext]
    exact lt_nextArchiveIndex member
  · rw [List.mem_append, List.mem_singleton, mem_archiveIndexes]
    by_cases isNext : index = nextArchiveIndex before
    · rw [isNext, added]
      simp [nextArchiveIndex_ne_zero]
    · rw [same index isNext]
      simp [isNext]

end Melin
