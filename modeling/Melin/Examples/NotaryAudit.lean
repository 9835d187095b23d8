import Melin.Examples.Notary
import Melin.Transport.LineageAgreement

/-! The notary's auditor: the chain refolded from the journal, and receipts checked against it. -/

namespace Melin

open Lib

structure Receipt where
  entry : Nat
  timestampNs : UInt64
  leaf : Digest
  prev : Digest
  head : Digest
  deriving DecidableEq

def differences (claimed link : Receipt) : List String :=
  (if claimed.leaf ≠ link.leaf then ["leaf"] else []) ++
  (if claimed.timestampNs ≠ link.timestampNs then ["time_ns"] else []) ++
  (if claimed.prev ≠ link.prev then ["prev"] else []) ++
  if claimed.head ≠ link.head then ["head"] else []

/-- A receipt the log contradicts, by the path it was read from. -/
inductive Finding where
  | notAPosition (path : String)
  | differs (path : String) (entry : Nat) (fields : List String)
  | beyond (path : String) (entry notarized : Nat)
  deriving DecidableEq

structure Refold where
  notarized : Nat
  head : Digest
  findings : List Finding

structure Refolding extends Refold where
  receipts : List (String × Receipt)

/-- Receipts in the order of the positions they claim, those of one position as they were given. -/
def sortReceipts (receipts : List (String × Receipt)) : List (String × Receipt) :=
  receipts.mergeSort fun one other => one.2.entry ≤ other.2.entry

def Refolding.start (receipts : List (String × Receipt)) : Refolding where
  notarized := 0
  head := .zero
  findings := (receipts.takeWhile (·.2.entry = 0)).map fun item => .notAPosition item.1
  receipts := receipts.dropWhile (·.2.entry = 0)

def Refolding.finish (state : Refolding) : Refold :=
  let beyond := state.receipts.map fun item =>
    Finding.beyond item.1 item.2.entry state.notarized
  { state.toRefold with findings := state.findings ++ beyond }

def contradiction (link : Receipt) (item : String × Receipt) : Option Finding :=
  if differences item.2 link = [] then none
  else some (.differs item.1 link.entry (differences item.2 link))

def Refolding.pass (state : Refolding) (link : Receipt) : Refolding :=
  let due := state.receipts.takeWhile (·.2.entry = link.entry)
  { notarized := link.entry
    head := link.head
    findings := state.findings ++ due.filterMap (contradiction link)
    receipts := state.receipts.dropWhile (·.2.entry = link.entry) }

inductive WalkStop where
  | reached
  | failed (err : JournalError)

theorem differences_eq_nil {claimed link : Receipt} (same : claimed.entry = link.entry) :
    differences claimed link = [] ↔ claimed = link := by
  obtain ⟨_, claimedTime, claimedLeaf, claimedPrev, claimedHead⟩ := claimed
  obtain ⟨_, linkTime, linkLeaf, linkPrev, linkHead⟩ := link
  simp only at same
  simp only [differences, List.append_eq_nil_iff, ite_eq_right_iff, List.cons_ne_self,
    imp_false, not_not, Receipt.mk.injEq, same, true_and]
  tauto

theorem lt_of_mem_dropWhile {entry : Nat} {receipts : List (String × Receipt)}
    (sorted : receipts.Pairwise (·.2.entry ≤ ·.2.entry))
    (ahead : ∀ item ∈ receipts, entry ≤ item.2.entry) :
    ∀ item ∈ receipts.dropWhile (·.2.entry = entry), entry < item.2.entry := by
  induction receipts with
  | nil => simp
  | cons first receipts ih =>
    rw [List.pairwise_cons] at sorted
    rw [List.forall_mem_cons] at ahead
    rw [List.dropWhile_cons]
    split
    · exact ih sorted.2 ahead.2
    · rename_i other
      have later : entry < first.2.entry := by
        have differs : first.2.entry ≠ entry := by simpa using other
        omega
      exact List.forall_mem_cons.mpr ⟨later, fun item member => later.trans_le (sorted.1 item member)⟩

theorem sorted_sortReceipts (receipts : List (String × Receipt)) :
    (sortReceipts receipts).Pairwise (·.2.entry ≤ ·.2.entry) := by
  have ordered := @List.pairwise_mergeSort _ (fun one other : String × Receipt =>
    one.2.entry ≤ other.2.entry) (fun _ _ _ => by simpa using Nat.le_trans)
    (fun one other => by simpa using Nat.le_total one.2.entry other.2.entry) receipts
  simpa [sortReceipts] using ordered

theorem checked_iff {findings : List Finding} {receipts : List (String × Receipt)} {link : Receipt}
    {links : List Receipt} (sorted : receipts.Pairwise (·.2.entry ≤ ·.2.entry))
    (ahead : ∀ item ∈ receipts, link.entry ≤ item.2.entry)
    (behind : ∀ other ∈ links, link.entry < other.entry) :
    (findings ++ (receipts.takeWhile (·.2.entry = link.entry)).filterMap (contradiction link) = [] ∧
        ∀ item ∈ receipts.dropWhile (·.2.entry = link.entry), item.2 ∈ links) ↔
      findings = [] ∧ ∀ item ∈ receipts, item.2 ∈ link :: links := by
  have later := lt_of_mem_dropWhile sorted ahead
  have due : ∀ item ∈ receipts.takeWhile (·.2.entry = link.entry),
      contradiction link item = none ↔ item.2 ∈ link :: links := by
    intro item member
    have numbered : item.2.entry = link.entry := by simpa using List.mem_takeWhile_imp member
    have notBehind : item.2 ∉ links := fun among => by
      have := behind _ among
      omega
    simp [contradiction, differences_eq_nil numbered, notBehind]
  have rest : ∀ item ∈ receipts.dropWhile (·.2.entry = link.entry),
      item.2 ∈ links ↔ item.2 ∈ link :: links := by
    intro item member
    have differs : item.2 ≠ link := fun same => by
      have := later item member
      rw [same] at this
      omega
    simp [differs]
  conv_rhs => rw [← List.takeWhile_append_dropWhile (p := fun item : String × Receipt =>
    decide (item.2.entry = link.entry)) (l := receipts)]
  rw [List.append_eq_nil_iff, List.filterMap_eq_nil_iff, List.forall_mem_append, and_assoc,
    forall₂_congr due, forall₂_congr rest]

section

variable [Hashing]

def Refolding.visit (state : Refolding) (entry : JournalEntry NotaryEvent) : Refolding :=
  match entry.event with
  | .app (.notarize leaf) =>
    state.pass { entry := state.notarized + 1, timestampNs := entry.timestampNs, leaf
                 prev := state.head, head := Notary.fold state.head leaf entry.timestampNs }
  | .app .getHead | .tick _ | .epochBump _ | .ackPolicyChange _ | .shutdown => state

def visitUntil (through : Nat) (_ : SegmentChain) (entry : JournalEntry NotaryEvent)
    (state : Refolding) : Refolding × Except WalkStop Unit :=
  (state.visit entry, if entry.sequence = through then .error .reached else .ok ())

def refoldSegments (reads : ReadSchedule) (through : Nat) :
    List SegmentSource → Refolding → Except JournalError Refolding
  | [], state => .ok state
  | source :: sources, state => do
    let reader ← JournalReader.openSegment source.content (reads source.path) source.path source.kind
    match reader.forEachEntry WalkStop.failed (visitUntil through) state with
    | (state, .error .reached) => .ok state
    | (_, .error (.failed err)) => .error err
    | (state, .ok _) => refoldSegments reads through sources state

/-- Refold the notary's chain from a journal, checking receipts as their positions are reached. -/
def refold (reads : ReadSchedule) (dir : JournalDir) (through : Option Nat)
    (receipts : List (String × Receipt)) : Except JournalError Refold :=
  match through with
  | none => .ok (Refolding.start receipts).finish
  | some through =>
    (refoldSegments reads through dir.sources (.start receipts)).map Refolding.finish

/-- The links of a journal's leaves, as the server that starts from a state makes them. -/
def linksFrom : Notary → List (JournalEntry NotaryEvent) → List Receipt
  | _, [] => []
  | notary, entry :: entries =>
    match entry.event with
    | .app (.notarize leaf) =>
      let after := (notary.apply (.notarize leaf) ⟨entry.timestampNs, entry.keyHash⟩).1
      { entry := after.entries, timestampNs := entry.timestampNs, leaf, prev := notary.head
        head := after.head } :: linksFrom after entries
    | .app .getHead | .tick _ | .epochBump _ | .ackPolicyChange _ | .shutdown =>
      linksFrom notary entries

theorem visitRecords_visitUntil {through : Nat} (chain : SegmentChain)
    {records : List (Record NotaryEvent)} (state : Refolding)
    (ordered : (records.map (·.entry)).Pairwise (·.sequence < ·.sequence))
    (within : ∀ entry ∈ records.map (·.entry), entry.sequence ≤ through) :
    visitRecords (visitUntil through) chain records state
      = ((records.map (·.entry)).foldl Refolding.visit state,
        if ∃ entry ∈ records.map (·.entry), entry.sequence = through then .error .reached
        else .ok ()) := by
  induction records generalizing chain state with
  | nil => simp [visitRecords]
  | cons record records ih =>
    rw [List.map_cons, List.pairwise_cons] at ordered
    rw [List.map_cons, List.forall_mem_cons] at within
    rw [visitRecords, visitUntil]
    by_cases last : record.entry.sequence = through
    · -- What came behind it would have a higher sequence.
      have none : records.map (·.entry) = [] := by
        refine List.eq_nil_iff_forall_not_mem.mpr fun entry member => ?_
        have higher := ordered.1 entry member
        have bounded := within.2 entry member
        omega
      simp [last, none]
    · simp only [last, if_false]
      rw [ih _ _ ordered.2 within.2]
      simp [last]

theorem refoldSegments_eq {through : Nat} {sources : List SegmentSource}
    {segments : List (Segment NotaryEvent)} (files : ReadAs sources segments)
    (reads : ReadSchedule) (state : Refolding)
    (ordered : (entriesOf segments).Pairwise (·.sequence < ·.sequence))
    (within : ∀ entry ∈ entriesOf segments, entry.sequence ≤ through) :
    refoldSegments reads through sources state
      = .ok ((entriesOf segments).foldl Refolding.visit state) := by
  induction files generalizing state with
  | nil => rfl
  | @cons source segment sources segments file _ ih =>
    obtain ⟨header, tornTail, scanned⟩ := file
    have opened := JournalReader.openSegment_spec source.content (reads source.path) source.path
      source.kind
    rw [header] at opened
    obtain ⟨reader, openEq, tracks, placeEq, -⟩ := opened
    simp only [entriesOf, List.flatMap_cons, List.foldl_append, List.forall_mem_append,
      List.pairwise_append] at ordered within ih ⊢
    have walked := JournalReader.forEachEntry_eq WalkStop.failed (visitUntil through) tracks state
    rw [placeEq, Place.visit, scanned, visitRecords_visitUntil _ _ ordered.1 within.1] at walked
    rw [refoldSegments, openEq]
    simp only [bind, Except.bind]
    generalize reader.forEachEntry WalkStop.failed (visitUntil through) state = run at walked ⊢
    by_cases here : ∃ entry ∈ segment.records.map (·.entry), entry.sequence = through
    · -- The last entry is in this segment, so the segments behind it have none.
      have none : segments.flatMap (·.entries) = [] := by
        refine List.eq_nil_iff_forall_not_mem.mpr fun entry member => ?_
        obtain ⟨last, isLast, lastEq⟩ := here
        have higher := ordered.2.2 last isLast entry member
        have bounded := within.2 entry member
        omega
      rw [if_pos here] at walked
      obtain ⟨after, err | reader⟩ := run
      · obtain ⟨rfl, failedEq⟩ := Prod.mk.inj walked
        cases failedEq
        rw [none]
        rfl
      · cases (Prod.mk.inj walked).2
    · rw [if_neg here] at walked
      obtain ⟨after, err | reader⟩ := run
      · cases (Prod.mk.inj walked).2
      · obtain ⟨rfl, -⟩ := Prod.mk.inj walked
        exact ih _ ordered.2.1 within.2

theorem holds_of_readAs {E : Type} [AppEvent E] {dir : JournalDir} {segments : List (Segment E)}
    (files : ReadAs dir.sources segments) (linked : Linked segments) (nonempty : dir.sources ≠ []) :
    ∃ archived live, archived ++ live.toList = segments ∧ dir.Holds archived live := by
  have front := (List.forall₂_take_append _ _ _ files.flip).flip
  have back := (List.forall₂_drop_append _ _ _ files.flip).flip
  rw [List.forall₂_map_left_iff, List.length_map] at front
  rw [List.length_map] at back
  have whole := List.take_append_drop dir.archives.length segments
  have filled : segments ≠ [] := by
    rintro rfl
    exact nonempty (List.forall₂_nil_right_iff.mp files)
  cases live : dir.live with
  | none =>
    rw [live] at back
    have rest : segments.drop dir.archives.length = [] := by simpa using back
    rw [rest, List.append_nil] at whole
    refine ⟨segments, none, List.append_nil _, ?_, by rw [live]; exact .none, ?_, ?_⟩
    · rwa [whole] at front
    · simpa using linked
    · simpa using filled
  | some content =>
    rw [live] at back
    obtain ⟨last, others, file, none, rest⟩ := List.forall₂_cons_left_iff.mp back
    cases none
    rw [rest] at whole
    exact ⟨_, some last, whole, front, by rw [live]; exact .some file, by rwa [← whole] at linked,
      by rwa [← whole] at filled⟩

theorem entry_linksFrom {notary : Notary} {entries : List (JournalEntry NotaryEvent)}
    (fits : notary.entries + entries.length < 2 ^ 64) {place : Nat} {link : Receipt}
    (found : (linksFrom notary entries)[place]? = some link) :
    link.entry = notary.entries + 1 + place := by
  induction entries generalizing notary place with
  | nil => simp [linksFrom] at found
  | cons entry entries ih =>
    rw [List.length_cons] at fits
    rw [linksFrom] at found
    split at found
    · have counted : min (notary.entries + 1) (2 ^ 64 - 1) = notary.entries + 1 := by omega
      simp only [Notary.apply, counted] at found
      cases place with
      | zero =>
        cases found
        rfl
      | succ place =>
        have later := ih (by dsimp only; omega) found
        dsimp only at later
        omega
    all_goals exact ih (by omega) found

theorem app_step (state : NodeState Notary) (entry : JournalEntry NotaryEvent) :
    (state.step entry).app = match entry.event with
      | .app event => (state.app.apply event ⟨entry.timestampNs, entry.keyHash⟩).1
      | .tick _ | .epochBump _ | .ackPolicyChange _ | .shutdown => state.app := by
  have idle : (clockStep (R := NotaryReport) state.app entry.timestampNs state.watermark).1
      = state.app := by
    rw [clockStep]
    split <;> rfl
  obtain ⟨sequence, timestampNs, keyHash, event⟩ := entry
  simp only [NodeState.step, dispatch, idle]
  cases event <;> rfl

theorem foldl_visit {entries : List (JournalEntry NotaryEvent)} {walk : Refolding}
    {state : NodeState Notary} (same : state.app = ⟨walk.head, walk.notarized⟩)
    (fits : walk.notarized + entries.length < 2 ^ 64)
    (sorted : walk.receipts.Pairwise (·.2.entry ≤ ·.2.entry))
    (ahead : ∀ item ∈ walk.receipts, walk.notarized < item.2.entry) :
    (state.steps entries).app = ⟨(entries.foldl Refolding.visit walk).head,
        (entries.foldl Refolding.visit walk).notarized⟩ ∧
      ((entries.foldl Refolding.visit walk).finish.findings = [] ↔ walk.findings = [] ∧
        ∀ item ∈ walk.receipts, item.2 ∈ linksFrom state.app entries) := by
  induction entries generalizing walk state with
  | nil =>
    refine ⟨same, ?_⟩
    simp only [List.foldl_nil, Refolding.finish, List.append_eq_nil_iff, List.map_eq_nil_iff,
      linksFrom, List.not_mem_nil, imp_false]
    exact and_congr_right fun _ => List.eq_nil_iff_forall_not_mem
  | cons entry entries ih =>
    rw [List.length_cons] at fits
    have stepped := app_step state entry
    rw [NodeState.steps, List.foldl_cons, List.foldl_cons, linksFrom]
    -- Only a leaf moves the chain and takes receipts off the queue.
    split
    · rename_i leaf kind
      have counted : min (walk.notarized + 1) (2 ^ 64 - 1) = walk.notarized + 1 := by omega
      rw [kind] at stepped
      simp only [same, Notary.apply, counted] at stepped ⊢
      have visited : walk.visit entry = walk.pass ⟨walk.notarized + 1, entry.timestampNs, leaf,
          walk.head, Notary.fold walk.head leaf entry.timestampNs⟩ := by rw [Refolding.visit, kind]
      obtain ⟨sameAfter, found⟩ := @ih (walk.visit entry) (state.step entry)
        (by rw [stepped, visited]; rfl) (by rw [visited, Refolding.pass]; dsimp only; omega)
        (by rw [visited]; exact sorted.sublist (List.dropWhile_sublist _))
        (by rw [visited]; exact lt_of_mem_dropWhile sorted ahead)
      refine ⟨sameAfter, found.trans ?_⟩
      rw [stepped, visited]
      refine checked_iff sorted ahead fun other among => ?_
      obtain ⟨place, isOther⟩ := List.mem_iff_getElem?.mp among
      have otherEntry := entry_linksFrom (by dsimp only; omega) isOther
      dsimp only at otherEntry ⊢
      omega
    all_goals
      rename_i kind
      rw [kind] at stepped
      rw [Refolding.visit, kind]
      have behind := ih (stepped.trans same) (by omega) sorted ahead
      rwa [stepped] at behind

theorem refold_eq {dir : JournalDir} {segments : List (Segment NotaryEvent)}
    (files : ReadAs dir.sources segments) (linked : Linked segments) (reads : ReadSchedule)
    (receipts : List (String × Receipt)) :
    refold reads dir ((entriesOf segments).getLast?.map (·.sequence)) receipts
      = .ok ((entriesOf segments).foldl Refolding.visit (.start receipts)).finish := by
  have counts : ((entriesOf segments).map (·.sequence)).Pairwise (· < ·) := by
    rw [linked.consecutive]
    exact List.pairwise_lt_range' ..
  have ordered := List.pairwise_map.mp counts
  cases last : (entriesOf segments).getLast? with
  | none =>
    rw [List.getLast?_eq_none_iff.mp last]
    rfl
  | some entry =>
    obtain ⟨front, split⟩ := List.getLast?_eq_some_iff.mp last
    rw [Option.map_some, refold, refoldSegments_eq files _ _ ordered, Except.map]
    rw [split] at ordered ⊢
    intro other member
    rcases List.mem_append.mp member with before | isLast
    · exact ((List.pairwise_append.mp ordered).2.2 other before entry (by simp)).le
    · rw [List.mem_singleton.mp isLast]

theorem mem_linksFrom_default {entries : List (JournalEntry NotaryEvent)}
    (fits : entries.length < 2 ^ 64) (receipt : Receipt) :
    receipt ∈ linksFrom .default entries ↔
      0 < receipt.entry ∧ (linksFrom .default entries)[receipt.entry - 1]? = some receipt := by
  refine ⟨fun among => ?_, fun found => List.mem_of_getElem? found.2⟩
  obtain ⟨place, isReceipt⟩ := List.mem_iff_getElem?.mp among
  have numbered := entry_linksFrom (by simpa [Notary.default] using fits) isReceipt
  rw [numbered]
  simp only [Notary.default] at isReceipt ⊢
  exact ⟨by omega, by simpa using isReceipt⟩

/--
The auditor agrees with the server on every journal that both read through from the first sequence.

It ends with the head and the count of the server's state, and it finds nothing exactly when every
receipt is the link at the position it claims.
-/
theorem refold_agrees {auditReads reads : ReadSchedule} {dir : JournalDir} {report : LineageReport}
    (verified : verifyLineage NotaryEvent auditReads dir = .ok report)
    (fromStart : report.lineageStart = 1) {opening : Opening}
    (recovered : (recoverRead Notary.default none reads dir).2 = .ok opening)
    (refoldReads : ReadSchedule) (receipts : List (String × Receipt)) :
    ∃ (segments : List (Segment NotaryEvent)) (refolded : Refold), ReadAs dir.sources segments ∧
      refold refoldReads dir report.lastSequence (sortReceipts receipts) = .ok refolded ∧
      (recoverRead Notary.default none reads dir).1.app = ⟨refolded.head, refolded.notarized⟩ ∧
      (refolded.findings = [] ↔ ∀ item ∈ receipts, 0 < item.2.entry ∧
        (linksFrom .default (entriesOf segments))[item.2.entry - 1]? = some item.2) := by
  obtain ⟨nonempty, segments, files, links⟩ := links_of_recoverRead recovered
  obtain ⟨lastEq, startEq⟩ := verifyLineage_report verified files
  have linked : Linked segments := ⟨links, fun first isFirst =>
    (startEq first isFirst).symm.trans fromStart⟩
  obtain ⟨archived, live, rfl, holds⟩ := holds_of_readAs files linked nonempty
  have same : (recoverRead Notary.default none reads dir).1.app
      = ((NodeState.genesis Notary.default).steps (entriesOf (archived ++ live.toList))).app := by
    rw [recoverRead_none holds]
    rfl
  have sorted := sorted_sortReceipts receipts
  obtain ⟨sameEnd, found⟩ := @foldl_visit _ (entriesOf (archived ++ live.toList))
    (.start (sortReceipts receipts)) (NodeState.genesis Notary.default) rfl
    (by simpa [Refolding.start] using linked.length_lt)
    (sorted.sublist (List.dropWhile_sublist _))
    (lt_of_mem_dropWhile sorted fun _ _ => Nat.zero_le _)
  refine ⟨_, ((entriesOf (archived ++ live.toList)).foldl Refolding.visit
    (.start (sortReceipts receipts))).finish, files, ?_, same.trans sameEnd, found.trans ?_⟩
  · rw [lastEq]
    exact refold_eq files linked refoldReads _
  have members : ∀ item, item ∈ receipts ↔ item ∈ sortReceipts receipts :=
    fun _ => (List.mergeSort_perm ..).mem_iff.symm
  have none : ∀ item ∈ (sortReceipts receipts).takeWhile (·.2.entry = 0),
      item.2 ∉ linksFrom .default (entriesOf (archived ++ live.toList)) := by
    intro item member among
    have zero : item.2.entry = 0 := by simpa using List.mem_takeWhile_imp member
    have := ((mem_linksFrom_default linked.length_lt _).mp among).1
    omega
  simp only [members, ← mem_linksFrom_default linked.length_lt]
  conv_rhs => rw [← List.takeWhile_append_dropWhile (p := fun item : String × Receipt =>
    decide (item.2.entry = 0)) (l := sortReceipts receipts)]
  rw [List.forall_mem_append, Refolding.start, List.map_eq_nil_iff,
    List.eq_nil_iff_forall_not_mem]
  refine and_congr_left fun _ => forall_congr' fun item => ?_
  exact ⟨fun absent member => absurd member absent, fun among member => none item member (among member)⟩

end

def sampleSealed : WrittenSegment NotaryEvent where
  startingSequence := 1
  anchorHash := .zero
  genesisEntries := some 0
  entries := [.write { sequence := 1, timestampNs := 5, keyHash := 9, event := .app (.notarize .zero) }
    (by decide) rfl]
  consecutive := by decide
  startFits := sampleArchived.startFits
  genesisFits := sampleArchived.genesisFits

def sampleTicked : WrittenSegment NotaryEvent where
  startingSequence := 2
  anchorHash := sampleSealed.segment.tail
  genesisEntries := some 0
  entries := [.write { sequence := 2, timestampNs := 4, keyHash := 9, event := .tick 3 }
    (by decide) rfl]
  consecutive := by decide
  startFits := sampleLive.startFits
  genesisFits := sampleArchived.genesisFits

def sampleNotaryDir : JournalDir where
  archives := [(1, sampleSealed.bytes ++ List.replicate 0 0)]
  live := some (sampleTicked.bytes ++ List.replicate 5 0)
  ascending := by simp

def sampleReceipt : Receipt := ⟨1, 5, .zero, .zero, Notary.fold .zero .zero 5⟩

/-- The receipt of the one leaf is found in order. -/
theorem refold_agrees_sample : ∃ report opening refolded,
    verifyLineage NotaryEvent (fun _ _ => 1) sampleNotaryDir = .ok report ∧
    report.lineageStart = 1 ∧
    (recoverRead Notary.default none (fun _ _ => 1) sampleNotaryDir).2 = .ok opening ∧
    refold (fun _ _ => 1) sampleNotaryDir report.lastSequence (sortReceipts [("one", sampleReceipt)])
      = .ok refolded ∧ refolded.findings = [] := by
  have files : ReadAs sampleNotaryDir.sources [sampleSealed.segment, sampleTicked.segment] :=
    .cons (sampleSealed.readsFrom 0 (.archive 1) .archived)
      (.cons (sampleTicked.readsFrom 5 .live .live) .nil)
  have links : sampleSealed.segment.Links sampleTicked.segment :=
    ⟨by rw [WrittenSegment.segment_next]; rfl, rfl, rfl⟩
  have linked : Linked [sampleSealed.segment, sampleTicked.segment] :=
    ⟨by simpa using links, by rintro first ⟨⟩; rfl⟩
  have nonempty : sampleNotaryDir.sources ≠ [] := by simp [sampleNotaryDir, JournalDir.sources]
  obtain ⟨report, verified⟩ := (verifyLineage_ok_iff (fun _ _ => 1) sampleNotaryDir).mpr
    ⟨nonempty, _, files, linked.links.imp fun _ _ link => (Segment.links_iff.mp link).1⟩
  have fromStart : report.lineageStart = 1 := (verifyLineage_report verified files).2 _ rfl
  obtain ⟨archived, live, -, holds⟩ := holds_of_readAs files linked nonempty
  have recovered := congrArg Prod.snd
    (recoverRead_none holds (fun _ _ => 1) (Notary.default))
  obtain ⟨segments, refolded, otherFiles, ends, -, found⟩ :=
    refold_agrees verified fromStart recovered (fun _ _ => 1) [("one", sampleReceipt)]
  refine ⟨report, _, refolded, verified, fromStart, recovered, ends, found.mpr ?_⟩
  rw [← files.unique otherFiles]
  refine List.forall_mem_singleton.mpr ⟨Nat.one_pos, ?_⟩
  rfl

end Melin
