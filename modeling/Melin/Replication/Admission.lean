import Melin.Journal.RawAgreement
import Melin.Replication.CatchUp
import Melin.Transport.LineageAgreement

/-! Admission to streaming: what a replica's handshake is judged by, on any lineage of files. -/

namespace Melin

open Lib

section

variable {E : Type} [AppEvent E] [Hashing]

structure Delimits (source : SegmentSource) (segment : Segment E) : Prop where
  reads : segment.ReadsFrom source.content source.path source.kind
  raw : rawEntries (source.content.drop segment.info.sectorSize)
    = segment.records.map (·.rawEntry)

/-- No torn write at the end of the live segment still reads as an entry by its header. -/
def JournalDir.NoTornEntry (E : Type) [AppEvent E] (dir : JournalDir) : Prop :=
  ∀ content ∈ dir.live, ∀ info, segmentHeader content = .ok info →
    rawEntries (content.drop info.sectorSize)
      = ((startPlace content .live .live info).scan (E := E)).1.map (·.rawEntry)

variable {dir : JournalDir} {source : SegmentSource} {segment : Segment E}
  {segments : List (Segment E)} {sources : List SegmentSource}

theorem JournalDir.noTornEntry_of_untorn
    (untorn : ∀ content ∈ dir.live, ∀ info, segmentHeader content = .ok info →
      ((startPlace content .live .live info).scan (E := E)).2 = .ok none) : dir.NoTornEntry E :=
  fun content isLive info header => (Place.scan_untorn _ (untorn content isLive info header)).2.2

theorem Place.scan_archived (place : Place) (archived : place.kind = .archived)
    {records : List (Record E)} {tornTail : Option TornTail}
    (scanned : place.scan = (records, .ok tornTail)) : tornTail = none := by
  induction place using Place.scan.induct (E := E) generalizing records with
  | case1 place record found later verdict scannedLater ih =>
    rw [Place.scan_record found] at scanned
    obtain ⟨-, verdictEq⟩ := Prod.mk.inj scanned
    exact ih archived (Prod.ext rfl verdictEq)
  | case2 place tail found =>
    -- Nothing of an archive may be torn, so there is nowhere to look for the end of it.
    rw [Place.scan_stop found] at scanned
    obtain ⟨-, tailEq⟩ := Prod.mk.inj scanned
    obtain rfl := Except.ok.inj tailEq
    simp only [Place.next] at found
    split at found
    · split at found <;> cases found
    · simp only [Place.verdict, archived, JournalReader.unsyncedReach, List.take_zero] at found
      split at found
      · cases found
      · rename_i clean
        split at clean
        · cases clean
        · obtain rfl := Except.ok.inj clean
          simpa [lastNonzero] using found.symm
    · cases found
  | case3 place err found =>
    rw [Place.scan_fail found] at scanned
    cases (Prod.mk.inj scanned).2

theorem delimits_archived (archived : source.kind = .archived)
    (reads : segment.ReadsFrom source.content source.path source.kind) :
    Delimits source segment := by
  obtain ⟨header, tornTail, scanned⟩ := reads
  obtain rfl := Place.scan_archived (startPlace source.content source.path source.kind segment.info)
    archived scanned
  have clean := (Place.scan_untorn (E := E) _ (by rw [scanned])).2.2
  rw [scanned] at clean
  exact ⟨⟨header, none, scanned⟩, clean⟩

theorem JournalDir.NoTornEntry.delimits (clean : dir.NoTornEntry E)
    (files : ReadAs dir.sources segments) :
    List.Forall₂ Delimits dir.sources segments := by
  have each : ∀ source ∈ dir.sources, ∀ segment : Segment E,
      segment.ReadsFrom source.content source.path source.kind → Delimits source segment := by
    intro source member segment reads
    rcases List.mem_append.mp member with archived | live
    · obtain ⟨⟨index, content⟩, -, rfl⟩ := List.mem_map.mp archived
      exact delimits_archived rfl reads
    · obtain ⟨content, isLive, rfl⟩ : ∃ content, dir.live = some content ∧
          (⟨.live, .live, content⟩ : SegmentSource) = source := by
        simpa using live
      obtain ⟨header, tornTail, scanned⟩ := reads
      have raw := clean content isLive segment.info header
      simp only at scanned
      rw [scanned] at raw
      exact ⟨⟨header, tornTail, scanned⟩, raw⟩
  generalize dir.sources = sources at files each
  induction files with
  | nil => exact .nil
  | cons file _ ih =>
    exact .cons (each _ List.mem_cons_self _ file)
      (ih fun source member => each source (List.mem_cons_of_mem _ member))

theorem Delimits.chainValueAt_eq (delimits : Delimits source segment) (grants : Nat → Nat)
    {seq : Nat} (inside : segment.info.startingSequence ≤ seq) :
    chainValueAt source.content grants seq = .ok (if seq < segment.next then
      .value (segment.valueAt seq) else .beyondTip) := by
  obtain ⟨⟨header, -⟩, raw⟩ := delimits
  have opened := RawJournalScanner.openSegment_spec source.content grants
  rw [header] at opened
  obtain ⟨scanner, openEq, tracks, -⟩ := opened
  have readEq : readHeaderInfo source.content = .ok segment.info := header
  have nothing : ∀ buf, (SegmentChain.new segment.info.anchorHash).absorb buf
      = (SegmentChain.new segment.info.anchorHash).absorb ([] ++ buf) := fun _ => rfl
  have value := chainValueLoop_eq seq (source.content.length + 1) scanner nothing
  rw [chainValueAt, readEq, openEq]
  simp only [bind, Except.bind, pure, Except.pure, Except.ok.injEq, value]
  split_ifs with reached
  · -- The record at the sequence is found behind those before it.
    have covers : segment.Covers seq := ⟨by omega, reached⟩
    obtain ⟨front, record, back, split, early, here, valueEq⟩ :=
      Segment.exists_record covers inside
    have late : ∀ other ∈ back, seq < other.entry.sequence := by
      intro other member
      have consecutive := segment.consecutive
      rw [split, List.map_append, consecutive_append, List.map_cons, consecutive_cons] at consecutive
      have bounds := consecutive.2.2.mem_bounds (List.mem_map_of_mem member)
      have first := consecutive.2.1
      omega
    have found : rawEntries (source.content.drop segment.info.sectorSize)
        = front.map (·.rawEntry) ++ record.rawEntry :: back.map (·.rawEntry) := by
      rw [raw, split, List.map_append, List.map_cons]
    have enough : (front.map (·.rawEntry)).length < source.content.length + 1 := by
      have bound := rawEntries_length_le (source.content.drop segment.info.sectorSize)
      rw [found, List.length_append, List.length_drop] at bound
      omega
    rw [prefixLoop_spec tracks found (by simpa [Record.rawEntry] using early) here
      (fun other isFirst => by
        obtain ⟨record, isRecord, rfl⟩ := List.mem_map.mp (List.mem_of_mem_head? isFirst)
        exact late record isRecord) enough]
    have bytes : rawBytes (front.map (·.rawEntry) ++ [record.rawEntry])
        = (front ++ [record]).flatMap (·.raw) := by
      simp [rawBytes, List.flatMap_map, Record.rawEntry]
    rw [valueEq, SegmentChain.foldl_absorb _ (by simp), List.nil_append, bytes]
  · have absent : ∀ entry ∈ rawEntries (source.content.drop segment.info.sectorSize),
        entry.sequence ≠ seq := by
      rw [raw]
      rintro entry member
      obtain ⟨record, isRecord, rfl⟩ := List.mem_map.mp member
      have bounds := segment.consecutive.mem_bounds (List.mem_map_of_mem isRecord)
      rw [List.length_map] at bounds
      simp only [Segment.next, Record.rawEntry] at *
      omega
    rw [prefixLoop_eq_none _ tracks absent]

theorem Delimits.headerInfo_eq (delimits : Delimits source segment) :
    source.headerInfo = .ok segment.info := by
  have header : readHeaderInfo source.content = .ok segment.info := delimits.reads.1
  rw [SegmentSource.headerInfo, header]

theorem Delimits.start_lt (delimits : Delimits source segment) :
    segment.info.startingSequence < 2 ^ 64 :=
  startingSequence_of_decodeFileHeader (segmentHeader_eq_ok.mp delimits.reads.1).2

structure HoldsLinked (sources : List SegmentSource) (segments : List (Segment E)) : Prop where
  files : List.Forall₂ Delimits sources segments
  links : segments.IsChain Segment.Links

theorem newestAtOrBefore_spec (files : List.Forall₂ Delimits sources segments) (seq : Nat) :
    (newestAtOrBefore seq sources = .ok none ∧
        ∀ segment ∈ segments, seq < segment.info.startingSequence) ∨
      ∃ newer segment older, segments = newer ++ segment :: older ∧
        newestAtOrBefore seq sources = .ok (some (older.length, segment.info)) ∧
        segment.info.startingSequence ≤ seq ∧
        ∀ later ∈ newer, seq < later.info.startingSequence := by
  induction files with
  | nil => exact .inl ⟨rfl, by simp⟩
  | @cons source newest sources segments file others ih =>
    simp only [newestAtOrBefore, file.headerInfo_eq, bind, Except.bind, pure, Except.pure,
      others.length_eq]
    split_ifs with starts
    · exact .inr ⟨[], newest, segments, rfl, rfl, starts, by simp⟩
    · have late := Nat.lt_of_not_le starts
      rcases ih with ⟨found, all⟩ | ⟨newer, segment, older, rfl, found, begins, behind⟩
      · exact .inl ⟨found, List.forall_mem_cons.mpr ⟨late, all⟩⟩
      · exact .inr ⟨newest :: newer, segment, older, rfl, found, begins,
          List.forall_mem_cons.mpr ⟨late, behind⟩⟩

theorem containingSegment_spec (files : List.Forall₂ Delimits sources segments) (seq : Nat) :
    (containingSegment sources seq = .ok none ∧
        ∀ segment ∈ segments, seq < segment.info.startingSequence) ∨
      ∃ front segment back, segments = front ++ segment :: back ∧
        containingSegment sources seq = .ok (some (front.length, segment.info)) ∧
        segment.info.startingSequence ≤ seq ∧
        ∀ later ∈ back, seq < later.info.startingSequence := by
  -- The files are looked at from the newest on.
  rcases newestAtOrBefore_spec (List.forall₂_reverse_iff.mpr files) seq with
    ⟨found, all⟩ | ⟨newer, segment, older, split, found, begins, behind⟩
  · exact .inl ⟨found, fun segment member => all segment (List.mem_reverse.mpr member)⟩
  · refine .inr ⟨older.reverse, segment, newer.reverse, ?_, ?_, begins, fun later member =>
      behind later (List.mem_reverse.mp member)⟩
    · rw [← List.reverse_reverse segments, split]
      simp
    · rw [List.length_reverse]
      exact found

theorem openerAnchor_eq (files : List.Forall₂ Delimits sources segments) (index seq : Nat) :
    openerAnchor sources index seq = .ok (segments[index]?.bind fun segment =>
      if segment.info.startingSequence = seq + 1 then some segment.info.anchorHash else none) := by
  induction files generalizing index with
  | nil => rfl
  | cons file _ ih =>
    cases index with
    | zero =>
      simp only [openerAnchor, List.getElem?_cons_zero, file.headerInfo_eq]
      rfl
    | succ index =>
      rw [List.getElem?_cons_succ, ← ih index]
      rfl

def FoundAt (segments : List (Segment E)) (seq : Nat) : ChainAtSequence → Prop
  | .value chain => ∃ segment ∈ segments, segment.Covers seq ∧ segment.valueAt seq = chain
  | .predatesHistory => ∀ segment ∈ segments, seq + 1 < segment.info.startingSequence
  | .beyondTip => ∀ segment ∈ segments, segment.next ≤ seq

theorem HoldsLinked.precedes (holds : HoldsLinked sources segments) :
    segments.Pairwise Segment.Precedes :=
  List.isChain_iff_pairwise.mp (holds.links.imp fun _ _ links => links.precedes)

theorem HoldsLinked.start_le {first : Segment E} (holds : HoldsLinked sources (first :: segments)) :
    ∀ segment ∈ first :: segments,
      first.info.startingSequence ≤ segment.info.startingSequence := by
  rintro segment (_ | ⟨_, later⟩)
  · exact le_rfl
  · exact (Nat.le_add_right ..).trans (List.rel_of_pairwise_cons holds.precedes later).1

theorem HoldsLinked.chainAtSequence_spec (holds : HoldsLinked sources segments)
    (grants : ReadSchedule) (seq : Nat) :
    ∃ found, chainAtSequence grants sources seq = .ok found ∧ FoundAt segments seq found := by
  rw [chainAtSequence]
  rcases containingSegment_spec holds.files seq with
    ⟨none, all⟩ | ⟨front, segment, back, split, found, begins, behind⟩
  · -- Every file starts behind the sequence: at best the oldest opens right there.
    rw [none]
    simp only [bind, Except.bind, openerAnchor_eq holds.files]
    cases segments with
    | nil => exact ⟨.predatesHistory, rfl, by simp [FoundAt]⟩
    | cons oldest segments =>
      by_cases opens : oldest.info.startingSequence = seq + 1
      · refine ⟨.value oldest.info.anchorHash, by simp [opens, pure, Except.pure], oldest,
          List.mem_cons_self, ⟨opens.le, ?_⟩, ?_⟩
        · rw [← opens]
          exact Nat.le_add_right ..
        · rw [Segment.valueAt, opens, Nat.sub_self, Segment.value_chainAfter_zero]
      · refine ⟨.predatesHistory, by simp [opens, pure, Except.pure], fun segment member => ?_⟩
        have oldestLate := all oldest List.mem_cons_self
        have ordered := holds.start_le segment member
        omega
  · rw [found]
    simp only [bind, Except.bind, openerAnchor_eq holds.files]
    have member : segment ∈ segments := by simp [split]
    have atPlace : segments[front.length]? = some segment := by simp [split]
    have behindPlace : segments[front.length + 1]? = back.head? := by
      rw [split, List.getElem?_append_right (by omega)]
      simp [List.head?_eq_getElem?]
    obtain ⟨source, sourceAt, delimits⟩ :=
      exists_getElem?_of_forall₂ holds.files atPlace
    rw [behindPlace, sourceAt]
    simp only [delimits.chainValueAt_eq _ begins]
    have linked : ∀ successor ∈ back.head?, segment.Links successor := by
      have whole := holds.links
      rw [split] at whole
      exact (List.isChain_cons.mp (List.isChain_append.mp whole).2.1).1
    cases next : back.head? with
    | none =>
      -- The newest segment: the sequence is one of its own, or beyond the tip.
      obtain rfl := List.head?_eq_none_iff.mp next
      simp only [Option.bind_none]
      by_cases reached : seq < segment.next
      · simp only [if_pos reached]
        exact ⟨_, rfl, segment, member, ⟨by omega, reached⟩, rfl⟩
      · simp only [if_neg reached]
        refine ⟨_, rfl, fun other isOther => ?_⟩
        have ordered := holds.precedes
        rw [split, List.pairwise_append] at ordered
        rw [split] at isOther
        rcases List.mem_append.mp isOther with early | last
        · have before := (ordered.2.2 other early segment List.mem_cons_self).1
          omega
        · rw [List.mem_singleton.mp last]
          omega
    | some successor =>
      -- A segment behind it: the sequence is before that one's opening.
      have link := linked successor next
      have late := behind successor (List.mem_of_mem_head? next)
      have reached : seq < segment.next := link.start ▸ late
      simp only [Option.bind_some, if_pos reached]
      by_cases opens : successor.info.startingSequence = seq + 1
      · simp only [if_pos opens]
        refine ⟨_, rfl, segment, member, ⟨by omega, reached⟩, ?_⟩
        rw [Segment.valueAt_end (opens.symm.trans link.start), link.anchor]
      · simp only [if_neg opens]
        exact ⟨_, rfl, segment, member, ⟨by omega, reached⟩, rfl⟩

theorem canCatchUp_eq {oldest : Segment E}
    (files : List.Forall₂ Delimits dir.sources (oldest :: segments)) (seq : Nat) :
    canCatchUpFromJournal true dir seq
      = .ok (decide (oldest.info.startingSequence ≤ seq + 1)) := by
  have discovered : discoverJournalFiles true dir = dir.sources := rfl
  rw [canCatchUpFromJournal, discovered]
  generalize dir.sources = sources at files
  obtain _ | ⟨file, -⟩ := files
  have fits := file.start_lt
  simp only [file.headerInfo_eq, saturatingSucc, bind, Except.bind, pure, Except.pure]
  congr 2
  exact propext ⟨fun low => by omega, fun low => by omega⟩

theorem HoldsLinked.beyondTip_iff {first : Segment E}
    (holds : HoldsLinked sources (first :: segments)) (seq : Nat) :
    (∀ segment ∈ first :: segments, segment.next ≤ seq) ↔
      (∀ entry ∈ entriesOf (first :: segments), entry.sequence < seq) ∧
        (entriesOf (first :: segments) = [] → first.info.startingSequence ≤ seq) := by
  have counts := consecutive_entriesOf holds.links
  constructor
  · intro passed
    refine ⟨fun entry member => ?_, fun _ => ?_⟩
    · -- Every entry is one of a segment that ends at or before the sequence.
      obtain ⟨segment, isSegment, inSegment⟩ := List.mem_flatMap.mp member
      obtain ⟨record, isRecord, rfl⟩ := List.mem_map.mp inSegment
      have bounds := segment.consecutive.mem_bounds (List.mem_map_of_mem isRecord)
      rw [List.length_map] at bounds
      exact bounds.2.trans_le (passed segment isSegment)
    · exact (Nat.le_add_right ..).trans (passed first List.mem_cons_self)
  · rintro ⟨entries, noEntries⟩ segment member
    have reach := next_le_of_links holds.links segment member
    rcases Nat.eq_zero_or_pos (entriesOf (first :: segments)).length with none | some
    · have start := noEntries (List.length_eq_zero_iff.mp none)
      omega
    · -- The last entry carries the sequence before the end of all segments.
      have last : first.info.startingSequence + (entriesOf (first :: segments)).length - 1
          ∈ (entriesOf (first :: segments)).map (·.sequence) := by
        rw [counts, List.mem_range'_1, List.length_map]
        omega
      obtain ⟨entry, isEntry, carries⟩ := List.mem_map.mp last
      have early := entries entry isEntry
      omega

def ChainAtSequence.judge (reported : Digest) : ChainAtSequence → HandshakeValidation
  | .value chain => if chain = reported then .ok else .divergent .chainMismatch
  | .predatesHistory => .ok
  | .beyondTip => .divergent .aheadOfTip

omit [AppEvent E] in
theorem validateReplicaHandshake_eq {grants : ReadSchedule} {dir : JournalDir}
    {handshake : Handshake} (placed : 1 ≤ handshake.lastSequence)
    (chained : handshake.chainHash ≠ .zero) {found : ChainAtSequence}
    (chain : chainAtSequence grants dir.sources handshake.lastSequence = .ok found) :
    validateReplicaHandshake grants true dir handshake
      = .ok (found.judge handshake.chainHash) := by
  have discovered : discoverJournalFiles true dir = dir.sources := rfl
  rw [validateReplicaHandshake, if_neg (by omega), discovered, chain]
  cases found with
  | value value =>
    simp only [bind, Except.bind, if_neg chained, ChainAtSequence.judge]
    split_ifs <;> rfl
  | predatesHistory => rfl
  | beyondTip => rfl

theorem streamJournal_ne_needSnapshot {oldest : Segment E}
    (files : List.Forall₂ Delimits dir.sources (oldest :: segments)) {seq : Nat}
    (reaches : oldest.info.startingSequence ≤ seq + 1) (grants : ReadSchedule)
    (publisher : List (Except IoErrorKind Unit)) (shutdown : List Bool) :
    (streamJournal E grants true dir seq publisher shutdown).2 ≠ .ok .needSnapshot := by
  have discovered : discoverJournalFiles true dir = dir.sources := rfl
  obtain ⟨source, -, file⟩ := exists_getElem?_of_forall₂ files (List.getElem?_cons_zero ..)
  have fits := file.start_lt
  simp only [streamJournal, discovered]
  split_ifs
  · simp
  · -- The oldest file starts at or before the next sequence, so some file does.
    rcases containingSegment_spec files (saturatingSucc seq) with
      ⟨none, all⟩ | ⟨front, segment, back, -, found, -⟩
    · have late := all oldest List.mem_cons_self
      rw [saturatingSucc] at late
      omega
    · rw [found]
      simp only
      split <;> simp

/--
Admission to streaming is sound and complete, on every lineage that recovery accepts.

Where the live segment ends in no torn write that still reads as an entry, a replica is served from
the journal exactly when some segment has its position, with the chain value that it reported.
-/
theorem admission_exact {A R : Type} [Application A E R] {app : A} {snapshot : SnapshotSource}
    {reads : ReadSchedule} {dir : JournalDir} {opening : Opening}
    (accepted : (recoverRead app snapshot reads dir).2 = .ok opening) (clean : dir.NoTornEntry E)
    (grants : ReadSchedule) (handshake : Handshake) (placed : 1 ≤ handshake.lastSequence)
    (chained : handshake.chainHash ≠ .zero) :
    ∃ segments : List (Segment E), ReadAs dir.sources segments ∧ segments.IsChain Segment.Links ∧
      (validateReplicaHandshake grants true dir handshake = .ok .ok ∧
          canCatchUpFromJournal true dir handshake.lastSequence = .ok true ↔
        ∃ segment ∈ segments, segment.Covers handshake.lastSequence ∧
          segment.valueAt handshake.lastSequence = handshake.chainHash) ∧
      (validateReplicaHandshake grants true dir handshake = .ok (.divergent .aheadOfTip) ↔
        (∀ entry ∈ entriesOf segments, entry.sequence < handshake.lastSequence) ∧
          (entriesOf segments = [] → ∀ first ∈ segments.head?,
            first.info.startingSequence ≤ handshake.lastSequence)) ∧
      (validateReplicaHandshake grants true dir handshake = .ok .ok →
        canCatchUpFromJournal true dir handshake.lastSequence = .ok true →
        ∀ publisher shutdown, (streamJournal E grants true dir handshake.lastSequence publisher
          shutdown).2 ≠ .ok .needSnapshot) := by
  obtain ⟨nonempty, segments, files, links⟩ := links_of_recoverRead (E := E) accepted
  have holds : HoldsLinked dir.sources segments := ⟨clean.delimits files, links⟩
  obtain ⟨found, chain, isFound⟩ := holds.chainAtSequence_spec grants handshake.lastSequence
  have judged := validateReplicaHandshake_eq placed chained chain
  cases segments with
  | nil => exact absurd (List.forall₂_nil_right_iff.mp files) nonempty
  | cons first segments =>
    have served := canCatchUp_eq holds.files handshake.lastSequence
    have forward : first.info.startingSequence ≤ first.next := Nat.le_add_right ..
    refine ⟨first :: segments, files, links, ?_, ?_, fun _ reaches => ?_⟩
    · rw [judged, served, Except.ok.injEq, Except.ok.injEq, decide_eq_true_eq]
      constructor
      · rintro ⟨matched, reaches⟩
        cases found with
        | value value =>
          -- The value found at the position is the one reported.
          obtain ⟨segment, member, covers, valueAt⟩ := isFound
          refine ⟨segment, member, covers, valueAt.trans ?_⟩
          by_contra other
          rw [ChainAtSequence.judge, if_neg other] at matched
          cases matched
        | predatesHistory =>
          have late := isFound first List.mem_cons_self
          omega
        | beyondTip => cases matched
      · rintro ⟨segment, member, covers, valueAt⟩
        have ordered := holds.start_le segment member
        refine ⟨?_, ordered.trans covers.1⟩
        cases found with
        | value value =>
          -- All segments that have the position have one chain value there.
          obtain ⟨other, otherIn, otherCovers, otherValue⟩ := isFound
          have same := Segment.valueAt_unique links otherIn member otherCovers covers
          rw [ChainAtSequence.judge, if_pos (otherValue.symm.trans (same.trans valueAt))]
        | predatesHistory => rfl
        | beyondTip =>
          have early := isFound segment member
          have reach := covers.2
          omega
    · rw [judged, Except.ok.injEq]
      simp only [List.head?_cons, Option.mem_some_iff, forall_eq']
      rw [← holds.beyondTip_iff]
      constructor
      · intro ahead
        cases found with
        | value value =>
          rw [ChainAtSequence.judge] at ahead
          split_ifs at ahead
          simp at ahead
        | predatesHistory => cases ahead
        | beyondTip => exact isFound
      · intro passed
        cases found with
        | value value =>
          obtain ⟨segment, member, covers, -⟩ := isFound
          have early := passed segment member
          have reach := covers.2
          omega
        | predatesHistory =>
          have late := isFound first List.mem_cons_self
          have early := passed first List.mem_cons_self
          omega
        | beyondTip => rfl
    · rw [served, Except.ok.injEq, decide_eq_true_eq] at reaches
      exact streamJournal_ne_needSnapshot holds.files reaches grants

end

def sampleSingleDir : JournalDir where
  archives := []
  live := some (sampleArchived.bytes ++ [0, 0, 0])
  ascending := by simp

def sampleDigest : Digest := ⟨List.replicate 32 7, by simp⟩

/-- Recovery accepts the single segment, which has no torn write. -/
theorem admission_exact_single :
    ∃ segments : List (Segment CounterEvent), ReadAs sampleSingleDir.sources segments ∧
      (validateReplicaHandshake (fun _ _ => 4096) true sampleSingleDir ⟨2, sampleDigest⟩
          = .ok (.divergent .aheadOfTip) ↔
        (∀ entry ∈ entriesOf segments, entry.sequence < 2) ∧
          (entriesOf segments = [] → ∀ first ∈ segments.head?,
            first.info.startingSequence ≤ 2)) := by
  have recovered : (recoverRead (⟨0⟩ : Counter) none (fun _ _ => 4096)
      sampleSingleDir).2.toOption.isSome = true := by decide +kernel
  have scanned : ((segmentHeader (sampleArchived.bytes ++ [0, 0, 0])).toOption.all fun info =>
      match ((startPlace (sampleArchived.bytes ++ [0, 0, 0]) .live .live info).scan
        (E := CounterEvent)).2 with
      | .ok none => true
      | _ => false) = true := by decide +kernel
  have clean : sampleSingleDir.NoTornEntry CounterEvent := by
    refine JournalDir.noTornEntry_of_untorn fun content isLive info header => ?_
    obtain rfl : _ = content := Option.mem_some_iff.mp isLive
    rw [header] at scanned
    simp only [Except.toOption, Option.all_some] at scanned
    split at scanned
    · assumption
    · cases scanned
  cases accepted : (recoverRead (⟨0⟩ : Counter) none (fun _ _ => 4096) sampleSingleDir).2 with
  | error err =>
    rw [accepted] at recovered
    cases recovered
  | ok opening =>
    obtain ⟨segments, files, -, -, ahead, -⟩ := admission_exact accepted clean (fun _ _ => 4096)
      ⟨2, sampleDigest⟩ (by decide) (by decide)
    exact ⟨segments, files, ahead⟩

/-- The same segment, with a write of the next entry behind it that lost its last byte. -/
def sampleTornDir : JournalDir where
  archives := []
  live := some (sampleArchived.bytes ++ (bytesOf sampleLive.entries).dropLast ++ [0, 0, 0])
  ascending := by simp

/-- Recovery accepts the torn journal, whose last entry is the first; a replica that claims the
second is not judged ahead of the tip. -/
theorem admission_takes_torn :
    (∃ opening, (recoverRead (⟨0⟩ : Counter) none (fun _ _ => 4096) sampleTornDir).2
        = .ok opening) ∧
      (∀ entry ∈ entriesIn CounterEvent sampleTornDir.sources, entry.sequence < 2) ∧
      validateReplicaHandshake (fun _ _ => 4096) true sampleTornDir ⟨2, sampleDigest⟩
        ≠ .ok (.divergent .aheadOfTip) := by
  have recovered : (recoverRead (⟨0⟩ : Counter) none (fun _ _ => 4096)
      sampleTornDir).2.toOption.isSome = true := by decide +kernel
  have found : (match chainAtSequence (fun _ _ => 4096) sampleTornDir.sources 2 with
      | .ok (.value _) => true
      | _ => false) = true := by decide +kernel
  refine ⟨?_, by decide +kernel, ?_⟩
  · cases accepted : (recoverRead (⟨0⟩ : Counter) none (fun _ _ => 4096) sampleTornDir).2 with
    | error err =>
      rw [accepted] at recovered
      cases recovered
    | ok opening => exact ⟨opening, rfl⟩
  · -- A value is found, so the answer is a match or a mismatch.
    generalize sampleTornDir = dir at found
    split at found
    · rename_i value chain
      have judged := @validateReplicaHandshake_eq _ (fun _ _ => 4096) dir ⟨2, sampleDigest⟩
        (by decide) (by decide) _ chain
      rw [judged, ChainAtSequence.judge]
      split_ifs <;> simp
    · cases found

end Melin
