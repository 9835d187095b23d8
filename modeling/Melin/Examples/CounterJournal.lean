import Melin.Examples.CounterEvent
import Melin.Journal.WrittenSegment

/-! A small journal of the counter application. -/

namespace Melin

open Lib

def sampleArchived : WrittenSegment CounterEvent where
  startingSequence := 1
  anchorHash := .zero
  genesisEntries := some 0
  entries := [.write { sequence := 1, timestampNs := 5, keyHash := 9, event := .app (.increment 7) }
    (by decide) rfl]
  consecutive := by decide
  startFits := by decide
  genesisFits := by simp

def sampleLive : WrittenSegment CounterEvent where
  startingSequence := 2
  anchorHash := sampleArchived.segment.tail
  genesisEntries := some 0
  entries := [.write { sequence := 2, timestampNs := 4, keyHash := 9, event := .epochBump 3 }
    (by decide) rfl]
  consecutive := by decide
  startFits := by decide
  genesisFits := by simp

theorem sampleArchived_links : sampleArchived.segment.Links sampleLive.segment :=
  ⟨by rw [WrittenSegment.segment_next]; rfl, rfl, rfl⟩

def sampleOpening : WrittenSegment CounterEvent where
  startingSequence := 1
  anchorHash := .zero
  genesisEntries := some 0
  entries := []
  consecutive := by decide
  startFits := by decide
  genesisFits := by simp

def sampleBetween : WrittenSegment CounterEvent where
  startingSequence := 2
  anchorHash := sampleArchived.segment.tail
  genesisEntries := some 0
  entries := []
  consecutive := by decide
  startFits := by decide
  genesisFits := by simp

theorem sampleOpening_links : sampleOpening.segment.Links sampleArchived.segment :=
  ⟨by rw [WrittenSegment.segment_next]; rfl, rfl, rfl⟩

theorem sampleArchived_links_between : sampleArchived.segment.Links sampleBetween.segment :=
  ⟨by rw [WrittenSegment.segment_next]; rfl, rfl, rfl⟩

theorem sampleBetween_links : sampleBetween.segment.Links sampleLive.segment :=
  ⟨by rw [WrittenSegment.segment_next]; rfl, rfl, rfl⟩

end Melin
