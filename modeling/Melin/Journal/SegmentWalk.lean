import Melin.Journal.Segment
import Melin.Journal.VerifyLineage

/-! Walks over the files of a journal that check each segment against the one before it. -/

namespace Melin

open Lib

def walkSources {ε σ : Type} (step : Nat → SegmentSource → σ → Except ε σ) :
    Nat → List SegmentSource → σ → Except ε σ
  | _, [], state => .ok state
  | index, source :: sources, state => do
    let state ← step index source state
    walkSources step (index + 1) sources state

section

variable {E : Type}

def FollowsAll (Follows : Option (Segment E) → Segment E → Prop) :
    Option (Segment E) → List (Segment E) → Prop
  | _, [] => True
  | before, segment :: segments => Follows before segment ∧ FollowsAll Follows (some segment) segments

theorem followsAll_iff {Relation : Segment E → Segment E → Prop}
    {Follows : Option (Segment E) → Segment E → Prop}
    (same : ∀ prior segment, Follows (some prior) segment ↔ Relation prior segment)
    {before : Segment E} {segments : List (Segment E)} :
    FollowsAll Follows (some before) segments ↔ (before :: segments).IsChain Relation := by
  induction segments generalizing before with
  | nil => simp [FollowsAll]
  | cons segment segments ih =>
    rw [FollowsAll, List.isChain_cons_cons, same, ih]

variable [AppEvent E] [Hashing]

def ReadAs (sources : List SegmentSource) (segments : List (Segment E)) : Prop :=
  List.Forall₂ (fun source segment => segment.ReadsFrom source.content source.path source.kind)
    sources segments

theorem Segment.ReadsFrom.unique {one other : Segment E} {content : Bytes}
    {path otherPath : SegmentPath} {kind otherKind : SegmentKind}
    (oneReads : one.ReadsFrom content path kind)
    (otherReads : other.ReadsFrom content otherPath otherKind) : one = other := by
  obtain ⟨oneInfo, oneRecords, oneCounts, oneFits⟩ := one
  obtain ⟨otherInfo, otherRecords, otherCounts, otherFits⟩ := other
  obtain ⟨oneHeader, oneTail, oneScan⟩ := oneReads
  obtain ⟨otherHeader, otherTail, otherScan⟩ := otherReads
  simp only at oneHeader oneScan otherHeader otherScan
  obtain rfl := Except.ok.inj (oneHeader.symm.trans otherHeader)
  have same := Place.scan_records_congr (E := E) (startPlace content path kind oneInfo) otherKind
    otherPath
  change ((startPlace content otherPath otherKind oneInfo).scan (E := E)).1 = _ at same
  rw [oneScan, otherScan] at same
  subst same
  rfl

theorem ReadAs.unique {sources : List SegmentSource} {one other : List (Segment E)}
    (oneReads : ReadAs sources one) (otherReads : ReadAs sources other) : one = other := by
  induction oneReads generalizing other with
  | nil =>
    cases otherReads
    rfl
  | cons file _ ih =>
    obtain _ | ⟨otherFile, others⟩ := otherReads
    rw [file.unique otherFile, ih others]

theorem segment_unreadable {source : SegmentSource} {info : FileHeaderInfo}
    (header : segmentHeader source.content = .ok info)
    (unreadable : ∀ segment : Segment E,
      ¬ segment.ReadsFrom source.content source.path source.kind) :
    ∃ records err, (startPlace source.content source.path source.kind info).scan (E := E)
      = (records, .error err) := by
  cases scanned : (startPlace source.content source.path source.kind info).scan (E := E) with
  | mk records verdict =>
    cases verdict with
    | error err => exact ⟨records, err, rfl⟩
    | ok tornTail =>
      obtain ⟨segment, -, -, reads⟩ := Segment.exists_readsFrom header scanned
      exact absurd reads (unreadable segment)

structure ChecksLinks {ε σ : Type} (step : Nat → SegmentSource → σ → Except ε σ)
    (Behind : σ → Option (Segment E) → Prop)
    (Follows : Option (Segment E) → Segment E → Prop) : Prop where
  follows : ∀ (index : Nat) {source state before} {segment : Segment E}, Behind state before →
    segment.ReadsFrom source.content source.path source.kind → Follows before segment →
    ∃ after, step index source state = .ok after ∧ Behind after (some segment)
  breaks : ∀ (index : Nat) {source state before} {segment : Segment E}, Behind state before →
    segment.ReadsFrom source.content source.path source.kind → ¬ Follows before segment →
    ∃ err, step index source state = .error err
  unreadable : ∀ (index : Nat) {source state}, (∀ segment : Segment E,
      ¬ segment.ReadsFrom source.content source.path source.kind) →
    ∃ err, step index source state = .error err

/-- A walk goes through exactly when the files read back as segments that follow one another. -/
theorem ChecksLinks.walkSources_ok_iff {ε σ : Type} {step : Nat → SegmentSource → σ → Except ε σ}
    {Behind : σ → Option (Segment E) → Prop} {Follows : Option (Segment E) → Segment E → Prop}
    (checks : ChecksLinks step Behind Follows) (index : Nat) (sources : List SegmentSource)
    {state : σ} {before : Option (Segment E)} (behind : Behind state before) :
    (∃ after, walkSources step index sources state = .ok after) ↔
      ∃ segments, ReadAs sources segments ∧ FollowsAll Follows before segments := by
  induction sources generalizing index state before with
  | nil => exact ⟨fun _ => ⟨[], .nil, trivial⟩, fun _ => ⟨state, rfl⟩⟩
  | cons source sources ih =>
    simp only [walkSources]
    constructor
    · rintro ⟨last, walked⟩
      -- The step went through, so the file reads back and follows.
      have readable : ∃ segment : Segment E,
          segment.ReadsFrom source.content source.path source.kind := by
        by_contra unreadable
        obtain ⟨err, failed⟩ := checks.unreadable index (not_exists.mp unreadable)
        rw [failed] at walked
        simp [bind, Except.bind] at walked
      obtain ⟨segment, file⟩ := readable
      have follows : Follows before segment := by
        by_contra breaks
        obtain ⟨err, failed⟩ := checks.breaks index behind file breaks
        rw [failed] at walked
        simp [bind, Except.bind] at walked
      obtain ⟨after, stepped, afterBehind⟩ := checks.follows index behind file follows
      rw [stepped] at walked
      obtain ⟨segments, files, rest⟩ := (ih (index + 1) afterBehind).mp ⟨last, walked⟩
      exact ⟨segment :: segments, .cons file files, follows, rest⟩
    · rintro ⟨segments, files, follow⟩
      obtain _ | ⟨file, others⟩ := files
      obtain ⟨after, stepped, afterBehind⟩ := checks.follows index behind file follow.1
      rw [stepped]
      exact (ih (index + 1) afterBehind).mpr ⟨_, others, follow.2⟩

end

end Melin
