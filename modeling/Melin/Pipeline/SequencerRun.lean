import Melin.Journal.WriterSteps
import Melin.Pipeline.SequencerSteps

/-! The sequencing loop against the ledger: reading, encoding, and every way out of it. -/

namespace Melin

open Lib

section

variable {E : Type} [AppEvent E] [Hashing] {origin : Origin E} {ledger : Ledger E}
  {pos : Position E} {stage : JournalStage E}

theorem At.skip (stands : At origin pos stage) {slot : InputSlot E} {rest : List (InputSlot E)}
    (isNext : pos.ahead = slot :: rest) (skipped : slot.event.takesWireSeq = false) :
    At origin { pos with encoded := pos.encoded ++ [slot], ahead := rest } stage := by
  obtain ⟨feed, ledger, aligned⟩ := stands
  obtain ⟨entries, ledgerNext, next, batch, ascends⟩ := aligned.stream
  have taken : wireSeqsTaken [slot] = 0 := by simp [wireSeqsTaken, skipped]
  refine ⟨feed, ledger, ⟨aligned.stands.encoder, aligned.stands.nextRead, ?_⟩, aligned.disk,
    ⟨?_, ?_, next, batch, ascends⟩, aligned.chain, aligned.idle⟩
  · have known := aligned.stands.known
    rw [isNext] at known
    rw [List.append_assoc]
    exact known
  · rw [entries, Origin.journal, Origin.journal, journaled_append, journaled, if_neg (by simp [skipped]),
      journaled, List.append_nil]
  · rw [ledgerNext, wireSeqsTaken_append, taken, Nat.add_zero]

theorem At.fits (stands : At origin pos stage) (some : pos.ahead ≠ []) (whole : pos.extra = 0) :
    pos.encoder.nextSequence < 2 ^ 64 := by
  obtain ⟨feed, ledger, aligned⟩ := stands
  have known := aligned.stands.known.length_le
  have ahead := List.length_pos_iff.mpr some
  have taken := wireSeqsTaken_le pos.encoded
  have fits := feed.fits
  rw [JournalStage.fed, List.length_append] at fits
  rw [List.length_append] at known
  rw [aligned.stream.next, aligned.stream.ledgerNext, whole]
  omega

theorem At.number (stands : At origin pos stage) (whole : pos.extra = 0) :
    At origin { pos with extra := 1, encoder := pos.encoder.allocateSequence.2 }
      { stage with core := { stage.core with encoder := pos.encoder.allocateSequence.2 } } := by
  obtain ⟨feed, ledger, aligned⟩ := stands
  obtain ⟨entries, ledgerNext, next, batch, ascends⟩ := aligned.stream
  refine ⟨feed.frame rfl rfl rfl, ledger, ⟨rfl, aligned.stands.nextRead, aligned.stands.known⟩,
    aligned.disk.frame (List.append_nil _).symm rfl rfl rfl rfl rfl,
    ⟨entries, ledgerNext, ?_, batch, ascends⟩,
    aligned.chain, aligned.idle⟩
  show pos.encoder.nextSequence + 1 = ledger.next + 1
  rw [next, whole]

theorem At.encode (stands : At origin pos stage) {slot : InputSlot E} {rest : List (InputSlot E)}
    (isNext : pos.ahead = slot :: rest) (takes : slot.event.takesWireSeq = true)
    (numbered : pos.extra = 1) {written : WrittenEntry E}
    (entry : written.entry = slot.entry (pos.encoder.nextSequence - 1)) :
    At origin { pos with
        encoded := pos.encoded ++ [slot], ahead := rest, extra := 0
        encoder := { pos.encoder with
          chain := pos.encoder.chain.absorb written.bytes
          batch := pos.encoder.batch ++ written.bytes
          lastEncodedSeq := pos.encoder.nextSequence - 1 } }
      { stage with core := { stage.core with
        encoder := { pos.encoder with
          chain := pos.encoder.chain.absorb written.bytes
          batch := pos.encoder.batch ++ written.bytes
          lastEncodedSeq := pos.encoder.nextSequence - 1 } } } := by
  obtain ⟨feed, ledger, aligned⟩ := stands
  obtain ⟨entries, ledgerNext, next, batch, ascends⟩ := aligned.stream
  have sequence : pos.encoder.nextSequence - 1 = ledger.next := by rw [next, numbered]; rfl
  have taken : wireSeqsTaken [slot] = 1 := by simp [wireSeqsTaken, takes]
  have nextEncoded : (ledger.encode written).next = ledger.next + 1 := by
    rw [Ledger.next, Ledger.next, ledger.ahead_encode, List.length_append]
    rfl
  refine ⟨feed.frame rfl rfl rfl, ledger.encode written,
    ⟨rfl, aligned.stands.nextRead, ?_⟩,
    (aligned.disk.encode (by rw [entry, ← sequence]; rfl) aligned.idle).frame
      (List.append_nil _).symm rfl rfl rfl rfl rfl, ⟨?_, ?_, ?_, ?_, ?_⟩,
    ?_, aligned.idle⟩
  · have known := aligned.stands.known
    rw [isNext] at known
    rw [List.append_assoc]
    exact known
  · have appended : (ledger.encode written).entries = ledger.entries ++ [written] := by
      rw [Ledger.entries, Ledger.entries, ledger.ahead_encode, List.append_assoc]
      rfl
    rw [appended, List.map_append, entries, List.map_singleton, entry, sequence, ledgerNext,
      Origin.journal, Origin.journal, journaled_append, journaled, if_pos takes, journaled,
      List.append_assoc]
  · rw [nextEncoded, ledgerNext, wireSeqsTaken_append, taken, Nat.add_assoc]
  · show pos.encoder.nextSequence = (ledger.encode written).next
    rw [nextEncoded, next, numbered]
  · show pos.encoder.batch ++ written.bytes = bytesOf (ledger.pending ++ [written])
    rw [batch]
    simp [bytesOf]
  · rw [nextEncoded, sequence]
    exact Nat.lt_succ_self _
  · show pos.encoder.chain.absorb written.bytes = (ledger.encode written).chain
    rw [Ledger.chain, ledger.ahead_encode, chainBehind_append, aligned.chain]
    rfl

structure SpanEnds (span : List (InputSlot E)) (result : Nat × Bool) : Prop where
  whole : result.2 = false → result.1 = span.length
  atSentinel : result.2 = true → ∃ sentinel back, span.drop result.1 = sentinel :: back ∧
    sentinel.event.isShutdown = true

variable {holds : JournalEncoder → Prop}

theorem Reaches.throughSentinel {encoded : List (InputSlot E)} {sentinel : InputSlot E}
    {back : List (InputSlot E)}
    (reaches : Reaches origin { pos with encoded, ahead := sentinel :: back } holds stage)
    (isSentinel : sentinel.event.isShutdown = true) :
    back = [] ∧ Reaches origin { pos with encoded := encoded ++ [sentinel], ahead := [] } holds
      stage := by
  obtain ⟨encoder, held, stands⟩ := reaches
  have last : back = [] := by
    obtain ⟨feed, ledger, aligned⟩ := stands
    obtain ⟨more, ring⟩ := aligned.stands.known
    have behind := feed.sentinelLast encoded sentinel (back ++ (more ++ arrivals stage.beats))
      (by simp [JournalStage.fed, ← ring]) isSentinel
    exact (List.append_eq_nil_iff.mp behind).1
  subst last
  exact ⟨rfl, encoder, held,
    stands.skip rfl (by simp [JournalEvent.takesWireSeq, isSentinel])⟩

omit [AppEvent E] [Hashing] in
theorem markSplit_bounds (pendingMark : Option StreamMark) {batch : List (InputSlot E)} {start : Nat}
    (inside : start ≤ batch.length) :
    start ≤ markSplit pendingMark batch start ∧ markSplit pendingMark batch start ≤ batch.length := by
  cases pendingMark with
  | none => exact ⟨inside, le_rfl⟩
  | some mark =>
    have within := (List.takeWhile_prefix (l := batch.drop start)
      fun slot => slot.sequence ≤ mark.sequence).length_le
    rw [List.length_drop] at within
    simp only [markSplit]
    omega

def Position.upTo (encoded : List (InputSlot E)) (encoder : JournalEncoder) : Position E :=
  { encoded, ahead := [], extra := 0, encoder, nextRead := encoded.length }

def CaughtUp (origin : Origin E) (holds : JournalEncoder → Prop) (stage : JournalStage E) : Prop :=
  ∃ encoded encoder, holds encoder ∧ At origin (.upTo encoded encoder) stage

theorem Reaches.caughtUp (reaches : Reaches origin pos holds stage) (none : pos.ahead = [])
    (cursor : pos.nextRead = pos.encoded.length) :
    CaughtUp origin holds stage := by
  obtain ⟨encoder, held, stands⟩ := reaches
  refine ⟨pos.encoded, encoder, held, ?_⟩
  rw [Position.upTo, ← none, ← cursor]
  exact stands

theorem caughtUp_of_at {α : Type} {call : SequencerCall E α} {after : α → JournalStage E → Prop}
    {stopped : JournalStage E → Prop}
    (each : ∀ encoded encoder, holds encoder →
      call.Meets (At origin (.upTo encoded encoder)) after stopped) :
    call.Meets (CaughtUp origin holds) after stopped :=
  fun stage ⟨encoded, encoder, held, stands⟩ => each encoded encoder held stage stands

section

variable [LawfulAppEvent E]

theorem at_journalSlot (wrap : Nat → JournalError → JournalError) {slot : InputSlot E}
    {rest : List (InputSlot E)} (isNext : pos.ahead = slot :: rest)
    (takes : slot.event.takesWireSeq = true) (whole : pos.extra = 0) :
    (journalSlot wrap slot : SequencerCall E Unit).Meets (At origin pos)
      (fun _ => Reaches origin { pos with encoded := pos.encoded ++ [slot], ahead := rest }
        fun _ => True)
      (Stopped origin) := by
  refine Call.ends_looking fun seen seenAt => ?_
  have encoder : seen.core.encoder = pos.encoder := seenAt.2.choose_spec.stands.encoder
  have fits : pos.encoder.nextSequence < 2 ^ 64 := seenAt.fits (by simp [isNext]) whole
  dsimp only
  rw [encoder]
  -- Whichever way the slot is numbered, it takes the next sequence.
  refine Call.ends_bind (fun numbered stage =>
    numbered = pos.encoder.allocateSequence ∧ At origin pos stage)
    (Call.ends_ofExcept (fun numbered took stage stands => ⟨?_, stands⟩)
      fun _ _ _ => At.stopped) fun numbered => ?_
  · split at took
    · unfold JournalEncoder.adoptSequence at took
      split at took
      · cases took
      · exact (Except.ok.inj took).symm
    · exact (Except.ok.inj took).symm
  · refine Call.ends_and ?_
    rintro rfl
    refine Call.ends_bind
      (fun _ => At origin { pos with extra := 1, encoder := pos.encoder.allocateSequence.2 })
      (Call.ends_change fun _ stands => stands.number whole) fun _ =>
      Call.ends_bind _ (at_steady fun _ => At.stopped).claimSlot fun _ => ?_
    refine Call.ends_bind (fun encoded stage =>
      (∃ written : WrittenEntry E, written.entry = slot.entry pos.encoder.nextSequence ∧
        encoded = { pos.encoder.allocateSequence.2 with
          chain := pos.encoder.chain.absorb written.bytes
          batch := pos.encoder.batch ++ written.bytes
          lastEncodedSeq := pos.encoder.nextSequence }) ∧
      At origin { pos with extra := 1, encoder := pos.encoder.allocateSequence.2 } stage)
      (Call.ends_ofExcept (fun encoded took stage stands => ⟨?_, stands⟩)
        fun _ _ _ => At.stopped) fun encoded => Call.ends_and ?_
    · cases encodes : pos.encoder.allocateSequence.2.encodeEvent
          (chunkSize - pos.encoder.allocateSequence.2.batch.length)
          pos.encoder.allocateSequence.1 slot.timestampNs slot.event slot.keyHash with
      | error err =>
        rw [encodes] at took
        cases took
      | ok after =>
        rw [encodes] at took
        cases took
        obtain ⟨bytes, framed, isAfter⟩ := JournalEncoder.encodeEvent_eq_ok encodes
        exact ⟨⟨slot.entry pos.encoder.nextSequence, bytes, fits, framed⟩, rfl, isAfter⟩
    · rintro ⟨written, entry, rfl⟩
      exact Call.ends_bind _
        (Call.ends_change fun _ stands => ⟨_, trivial, stands.encode isNext takes rfl entry⟩)
        fun _ => reaches_of_keeps fun _ => at_recordSlotForReplication _

theorem at_readContiguous (most : Nat) (caughtUp : pos.ahead = [])
    (cursor : pos.nextRead = pos.encoded.length) :
    (readContiguous most : SequencerCall E (List (InputSlot E))).Meets (At origin pos)
      (fun slots => At origin { pos with ahead := slots, nextRead := pos.nextRead + slots.length })
      (Stopped origin) := by
  refine (at_steady fun _ => At.stopped).access ?_
  rintro stage ⟨feed, ledger, aligned⟩
  have encoder := aligned.stands.encoder
  have nextRead := aligned.stands.nextRead
  obtain ⟨behind, ring⟩ := aligned.stands.known
  rw [caughtUp, List.append_nil] at ring
  simp only [nextRead]
  generalize hcount : min (min (stage.ring.length - pos.nextRead) most)
    (stage.config.ringCapacity - pos.nextRead % stage.config.ringCapacity) = count
  have unread : stage.ring.drop pos.nextRead = behind := by
    rw [← ring, cursor, List.drop_left]
  have length : ((stage.ring.drop pos.nextRead).take count).length = count := by
    rw [List.length_take, List.length_drop]
    omega
  refine ⟨feed.frame rfl rfl rfl, ledger, ⟨encoder, ?_, ?_⟩,
    aligned.disk.frame (List.append_nil _).symm rfl rfl rfl rfl rfl,
    ⟨aligned.stream.entries, aligned.stream.ledgerNext, aligned.stream.next, aligned.stream.batch,
      aligned.stream.ascends⟩, aligned.chain, aligned.idle⟩
  · rw [length]
  · rw [unread, ← ring]
    exact List.prefix_append_right_inj _ |>.mpr (List.take_prefix ..)

theorem at_encodeSpan (span rest : List (InputSlot E)) (isNext : pos.ahead = span ++ rest)
    (numbered : pos.extra = 0) :
    (encodeSpan span : SequencerCall E (Nat × Bool)).Meets (At origin pos)
      (fun result stage => SpanEnds span result ∧ Reaches origin { pos with
          encoded := pos.encoded ++ span.take result.1, ahead := span.drop result.1 ++ rest }
        (fun encoder => result.1 = 0 → encoder = pos.encoder) stage) (Stopped origin) := by
  have nothing : ∀ {stage}, At origin pos stage → Reaches origin { pos with
      encoded := pos.encoded ++ [], ahead := span ++ rest }
      (fun encoder => 0 = 0 → encoder = pos.encoder) stage := by
    intro stage stands
    rw [List.append_nil, ← isNext]
    exact stands.reaches numbered fun _ => rfl
  induction span generalizing pos with
  | nil => exact Call.ends_pure fun _ stands => ⟨⟨fun _ => rfl, by simp⟩, nothing stands⟩
  | cons slot slots ih =>
    refine Call.ends_ite (fun sentinel => Call.ends_pure fun _ stands =>
      ⟨⟨by simp, fun _ => ⟨slot, slots, rfl, sentinel⟩⟩, nothing stands⟩) fun journaled => ?_
    -- One slot further, the rest of the span is encoded from there.
    have onwards : (do
        let result ← encodeSpan slots
        return (result.1 + 1, result.2) : SequencerCall E (Nat × Bool)).Meets
        (Reaches origin { pos with encoded := pos.encoded ++ [slot], ahead := slots ++ rest }
          fun _ => True)
        (fun result stage => SpanEnds (slot :: slots) result ∧ Reaches origin { pos with
            encoded := pos.encoded ++ (slot :: slots).take result.1
            ahead := (slot :: slots).drop result.1 ++ rest }
          (fun encoder => result.1 = 0 → encoder = pos.encoder) stage) (Stopped origin) := by
      refine reaches_of_at fun encoder _ => Call.ends_bind _ (ih rfl rfl fun stands => ?_)
        fun result => Call.ends_and fun ends => Call.ends_pure fun stage reaches => ⟨⟨?_, ?_⟩, ?_⟩
      · rw [List.append_nil]
        exact stands.reaches rfl fun _ => rfl
      · exact fun saw => congrArg (· + 1) (ends.whole saw)
      · exact ends.atSentinel
      · obtain ⟨last, -, stands⟩ := reaches
        refine ⟨last, by simp, ?_⟩
        rw [List.append_assoc] at stands
        exact stands
    refine Call.ends_ite (fun takes => Call.ends_bind _
      (at_journalSlot sequencerEncodeError isNext takes numbered) fun _ => onwards) fun skips => ?_
    refine onwards.imp (fun stage stands => ?_) (fun _ _ done => done) fun _ stopped => stopped
    exact (stands.skip isNext (by simpa using skips)).reaches numbered trivial

theorem reaches_submitBatch {holds : JournalEncoder → Prop} {progress : Nat}
    (covered : progress = pos.encoded.length) :
    (submitBatch progress : SequencerCall E Unit).Meets (Reaches origin pos holds)
      (fun _ => Quiesced origin pos) (Stopped origin) :=
  reaches_of_at fun encoder _ =>
    (@at_submitBatch E _ _ origin { pos with extra := 0, encoder } _ rfl _ covered).imp
      (fun _ stands => stands) (fun _ _ stands => ⟨_, rfl, stands⟩) fun _ stopped => stopped

theorem at_encodeBatch {slots : List (InputSlot E)} (isNext : pos.ahead = slots)
    (numbered : pos.extra = 0) {readStart : Nat} (base : readStart = pos.encoded.length)
    (turn : SequenceLoop) (flushed : turn.pending = 0 → pos.encoder.batch = []) :
    (encodeBatch readStart slots turn : SequencerCall E (SequenceLoop × Bool)).Meets (At origin pos)
      (fun result => Reaches origin { pos with encoded := pos.encoded ++ slots, ahead := [] }
        fun encoder => result.1.pending = 0 → encoder.batch = []) (Stopped origin) := by
  -- Every round starts behind the slots encoded so far.
  refine Call.ends_bind (fun _ stage => 0 ≤ slots.length ∧ Reaches origin { pos with
      encoded := pos.encoded ++ slots.take 0, ahead := slots.drop 0 }
      (fun encoder => turn.pending = 0 → encoder.batch = []) stage)
    ((at_steady fun _ => At.stopped).refreshPendingMark.imp (fun _ stands => stands)
      (fun _ stage stands => ⟨Nat.zero_le _, ?_⟩) (fun _ _ stopped => stopped)
      fun _ stopped => stopped) fun _ => ?_
  · rw [List.take_zero, List.append_nil, List.drop_zero, ← isNext]
    exact stands.reaches numbered flushed
  refine ends_loop (fun (turn : Nat × SequenceLoop) stage => turn.1 ≤ slots.length ∧
    Reaches origin { pos with
      encoded := pos.encoded ++ slots.take turn.1, ahead := slots.drop turn.1 }
      (fun encoder => turn.2.pending = 0 → encoder.batch = []) stage) ?_
    (fun _ _ holds => holds.2.stopped) (0, turn)
  rintro ⟨start, turn⟩
  refine Call.ends_and fun inside => reaches_of_at fun encoder flushed => Call.ends_looking fun seen _ => ?_
  dsimp only at inside flushed ⊢
  obtain ⟨behind, within⟩ := markSplit_bounds seen.core.pendingMark inside
  generalize markSplit seen.core.pendingMark slots start = stop at behind within
  have parted : slots.drop start = (slots.take stop).drop start ++ slots.drop stop := by
    conv_lhs => rw [← List.take_append_drop stop slots]
    exact List.drop_append_of_le_length (by rw [List.length_take]; omega)
  have joined : slots.take start ++ (slots.take stop).drop start = slots.take stop := by
    have front : slots.take start = (slots.take stop).take start := by
      rw [List.take_take, Nat.min_eq_left behind]
    rw [front, List.take_append_drop]
  refine Call.ends_bind _ (at_encodeSpan _ (slots.drop stop) parted rfl) fun result =>
    Call.ends_and fun ends => Call.ends_bind _
      (reaches_of_keeps fun _ => (at_steady fun _ => At.stopped).observe) fun now => ?_
  obtain ⟨consumed, sawShutdown⟩ := result
  dsimp only at ends ⊢
  cases sawShutdown with
  | true =>
    -- The span ended at the sentinel, behind which there is nothing.
    obtain ⟨sentinel, back, isBehind, isSentinel⟩ := ends.atSentinel rfl
    dsimp only at isBehind
    rw [Bool.or_true, if_pos rfl]
    refine Call.ends_pure fun stage reaches => ?_
    rw [isBehind, List.cons_append] at reaches
    obtain ⟨nothing, through⟩ := reaches.throughSentinel isSentinel
    obtain ⟨noBack, noMore⟩ := List.append_eq_nil_iff.mp nothing
    have all : slots.take start ++ ((slots.take stop).drop start).take consumed ++ [sentinel]
        = slots := by
      rw [noBack] at isBehind
      rw [List.append_assoc, ← isBehind, List.take_append_drop, joined]
      conv_rhs => rw [← List.take_append_drop stop slots, noMore, List.append_nil]
    refine through.move ?_ rfl rfl fun last same none => ?_
    · rw [List.append_assoc, List.append_assoc, ← List.append_assoc (slots.take start), all]
    · rw [same (by simp only at none; omega)]
      exact flushed (by simp only at none; omega)
  | false =>
    have consumedAll : consumed = ((slots.take stop).drop start).length := ends.whole rfl
    -- The span is encoded whole.
    have encodedSpan : ∀ {stage}, Reaches origin
          { encoded := pos.encoded ++ slots.take start ++ ((slots.take stop).drop start).take consumed
            ahead := ((slots.take stop).drop start).drop consumed ++ slots.drop stop
            extra := 0, encoder, nextRead := pos.nextRead }
          (fun last => consumed = 0 → last = encoder) stage →
        Reaches origin { pos with encoded := pos.encoded ++ slots.take stop, ahead := slots.drop stop }
          (fun last => turn.pending + consumed = 0 → last.batch = []) stage := by
      intro stage reaches
      refine reaches.move ?_ ?_ rfl fun last same none => ?_
      · rw [consumedAll, List.take_length, List.append_assoc, joined]
      · rw [consumedAll, List.drop_length, List.nil_append]
      · rw [same (by omega)]
        exact flushed (by omega)
    refine Call.ends_ite (fun isLast => Call.ends_pure fun stage reaches => ?_) fun isBarrier => ?_
    · obtain rfl : stop = slots.length := by simpa using isLast
      refine (encodedSpan reaches).move ?_ ?_ rfl fun _ held => held
      · rw [List.take_length]
      · rw [List.drop_length]
    · refine Call.ends_bind (fun _ => Reaches origin { pos with
          encoded := pos.encoded ++ slots.take stop, ahead := slots.drop stop }
          fun last => turn.pending + consumed = 0 → last.batch = [])
        ((reaches_of_keeps fun _ => at_applyStreamMarks).imp
          (fun _ reaches => encodedSpan reaches)
          (fun _ _ reaches => reaches) fun _ stopped => stopped) fun _ => ?_
      -- The batch ends at the boundary, where the marks are acted at.
      have atBoundary : ∀ turn' : SequenceLoop, (do
          let _ ← applyStreamMarks true
          return .inl (stop, turn') : SequencerCall E (Nat × SequenceLoop ⊕ SequenceLoop × Bool)).Meets
          (Quiesced origin { pos with
            encoded := pos.encoded ++ slots.take stop, ahead := slots.drop stop })
          (fun next stage => Sum.elim
            (fun turn => turn.1 ≤ slots.length ∧ Reaches origin { pos with
                encoded := pos.encoded ++ slots.take turn.1, ahead := slots.drop turn.1 }
              (fun encoder => turn.2.pending = 0 → encoder.batch = []) stage)
            (fun result => Reaches origin { pos with encoded := pos.encoded ++ slots, ahead := [] }
              (fun encoder => result.1.pending = 0 → encoder.batch = []) stage) next)
          (Stopped origin) := fun turn' =>
        Call.ends_bind _ (quiesced_applyStreamMarks true) fun _ => Call.ends_pure fun _ quiesced =>
          ⟨within, quiesced.move rfl rfl rfl fun _ empty _ => empty⟩
      refine Call.ends_look_bind fun seen seenReaches => Call.ends_ite (fun _ => ?_) fun _ => ?_
      · refine Call.ends_ite (fun _ => ?_) fun none => ?_
        · exact Call.ends_bind _
            ((reaches_submitBatch (by rw [base, List.length_append, List.length_take]; omega)).imp
              (fun _ same => same ▸ seenReaches) (fun _ _ quiesced => quiesced)
              fun _ stopped => stopped) fun _ => atBoundary _
        · refine (atBoundary _).imp (fun _ same => ?_) (fun _ _ met => met) fun _ stopped => stopped
          rw [same]
          exact seenReaches.move rfl rfl rfl fun _ flushed => flushed (by omega)
      · exact Call.ends_pure fun _ same => ⟨within, same ▸ seenReaches⟩

theorem reaches_journalAll (encoder : JournalEncoder) (nextRead : Nat)
    (slots encoded : List (InputSlot E)) :
    (slots.forM fun slot => do
        if slot.event.takesWireSeq then journalSlot (fun _ err => err) slot :
      SequencerCall E Unit).Meets
      (Reaches origin ⟨encoded, slots, 0, encoder, nextRead⟩ fun _ => True)
      (fun _ => Reaches origin ⟨encoded ++ slots, [], 0, encoder, nextRead⟩ fun _ => True)
      (Stopped origin) := by
  induction slots generalizing encoded with
  | nil =>
    rw [List.append_nil]
    exact Call.ends_pure fun _ reaches => reaches
  | cons slot slots ih =>
    refine Call.ends_bind (fun _ => Reaches origin
      ⟨encoded ++ [slot], slots, 0, encoder, nextRead⟩ fun _ => True)
      (reaches_of_at fun _ _ => ?_) fun _ => ?_
    · refine Call.ends_ite (fun takes => ?_) fun skips => Call.ends_pure fun stage stands => ?_
      · exact (at_journalSlot _ rfl takes rfl).imp (fun _ stands => stands)
          (fun _ _ reaches => reaches) fun _ stopped => stopped
      · exact (stands.skip rfl (by simpa using skips)).reaches rfl trivial
    · refine (ih (encoded ++ [slot])).imp (fun _ reaches => reaches) (fun _ _ reaches => ?_)
        fun _ stopped => stopped
      rw [List.append_assoc] at reaches
      exact reaches

theorem caughtUp_drainRemaining :
    (drainRemaining : SequencerCall E Unit).Meets (CaughtUp origin (·.batch = []))
      (fun _ => CaughtUp origin (·.batch = [])) (Stopped origin) := by
  refine ends_loop (fun _ => CaughtUp origin (·.batch = [])) (fun _ => ?_)
    (fun _ _ ⟨_, _, _, stands⟩ => stands.stopped) ()
  refine caughtUp_of_at fun encoded encoder empty => Call.ends_looking fun seen seenAt => ?_
  have readStart : seen.core.nextRead = encoded.length := seenAt.2.choose_spec.stands.nextRead
  dsimp only
  rw [readStart]
  refine Call.ends_bind _ (at_readContiguous _ rfl rfl) fun slots =>
    Call.ends_ite (fun none => Call.ends_pure fun stage stands => ?_) fun _ => ?_
  · obtain rfl : slots = [] := List.isEmpty_iff.mp none
    exact ⟨encoded, encoder, empty, stands⟩
  · refine Call.ends_bind _
      ((reaches_journalAll encoder (encoded.length + slots.length) slots encoded).imp
        (fun _ stands => stands.reaches rfl trivial) (fun _ _ reaches => reaches)
        fun _ stopped => stopped) fun _ =>
      Call.ends_bind _ (reaches_submitBatch ?_) fun _ => Call.ends_pure fun _ quiesced =>
        quiesced.caughtUp rfl ?_
    · simp
    · simp

/-- The batch is handed over if it holds anything, and what is due behind it is done. -/
theorem reaches_syncPoint {readEnd : Nat} (covered : readEnd = pos.encoded.length)
    (turn : SequenceLoop) :
    (syncPoint readEnd turn : SequencerCall E SequenceLoop).Meets
      (Reaches origin pos fun encoder => turn.pending = 0 → encoder.batch = [])
      (fun next => Reaches origin pos fun encoder => next.pending = 0 → encoder.batch = [])
      (Stopped origin) := by
  refine Call.ends_ite (fun _ => ?_) fun none => ?_
  · refine Call.ends_look_bind fun seen seenReaches => Call.ends_bind _
      ((reaches_of_keeps fun _ => (at_steady fun _ => At.stopped).observe).imp
        (fun _ same => same ▸ seenReaches) (fun _ _ reaches => reaches) fun _ stopped => stopped)
      fun now => Call.ends_ite (fun _ => ?_) fun _ => Call.ends_pure fun _ reaches => reaches
    refine Call.ends_bind _ (reaches_submitBatch covered) fun _ => Call.ends_bind _
      (reaches_of_keeps fun _ => (at_steady fun _ => At.stopped).maybePublishChainCheck) fun _ =>
      Call.ends_bind _ quiesced_maybeRotate fun _ =>
      Call.ends_bind _ (quiesced_applyStreamMarks true) fun _ =>
      Call.ends_pure fun _ quiesced => quiesced.move rfl rfl rfl fun _ empty _ => empty
  · -- Without anything pending the batch is empty, so a rotation may be performed.
    have marks : ∀ {rest : SequencerCall E SequenceLoop},
        rest.Meets (Quiesced origin pos) (fun next => Reaches origin pos fun encoder =>
          next.pending = 0 → encoder.batch = []) (Stopped origin) →
        (do
          if ← marksOutstanding then
            let _ ← applyStreamMarks true
          rest : SequencerCall E SequenceLoop).Meets (Quiesced origin pos)
          (fun next => Reaches origin pos fun encoder => next.pending = 0 → encoder.batch = [])
          (Stopped origin) := fun restMeets =>
      Call.ends_bind _ (reaches_of_keeps fun _ => (at_steady fun _ => At.stopped).marksOutstanding)
        fun _ => Call.ends_ite
          (fun _ => Call.ends_bind _ (quiesced_applyStreamMarks true) fun _ => restMeets)
          fun _ => restMeets
    have done : (pure { turn with idleCount := turn.idleCount + 1 } :
        SequencerCall E SequenceLoop).Meets (Quiesced origin pos) (fun next => Reaches origin pos
          fun encoder => next.pending = 0 → encoder.batch = []) (Stopped origin) :=
      Call.ends_pure fun _ quiesced => quiesced.move rfl rfl rfl fun _ empty _ => empty
    refine Call.ends_look_bind fun seen reaches => ?_
    have quiesced : Quiesced origin pos seen :=
      reaches.move rfl rfl rfl fun _ flushed => flushed (by omega)
    refine Call.Meets.imp (Call.ends_ite
      (fun _ => marks (Call.ends_ite (fun _ => marks done) fun _ => done))
      fun _ => Call.ends_ite (fun _ => marks done) fun _ => done)
      (fun _ same => same ▸ quiesced) (fun _ _ reaches => reaches) fun _ stopped => stopped

variable {encoded : List (InputSlot E)}

theorem caughtUp_submitBatch (holds : JournalEncoder → Prop) {encoder : JournalEncoder}
    {progress : Nat} (covered : progress = encoded.length) :
    (submitBatch progress : SequencerCall E Unit).Meets
      (Reaches origin (.upTo encoded encoder) holds)
      (fun _ => CaughtUp origin (·.batch = [])) (Stopped origin) :=
  (@reaches_submitBatch E _ _ origin (.upTo encoded encoder) _ _ _ covered).imp
    (fun _ reaches => reaches) (fun _ _ quiesced => quiesced.caughtUp rfl rfl)
    fun _ stopped => stopped

def BetweenRounds (origin : Origin E) (turn : SequenceLoop) : JournalStage E → Prop :=
  CaughtUp origin fun encoder => turn.pending = 0 → encoder.batch = []

/-- A round that goes on ends between rounds; the last one ends with everything handed over. -/
def RoundEnds (origin : Origin E) (next : SequenceLoop ⊕ Unit) (stage : JournalStage E) : Prop :=
  Sum.elim (fun turn => BetweenRounds origin turn stage)
    (fun _ => CaughtUp origin (·.batch = []) stage) next

theorem roundEnds_syncPoint (encoder : JournalEncoder) {readEnd : Nat}
    (covered : readEnd = encoded.length) (turn : SequenceLoop) (sawShutdown : Bool) :
    (do
      let turn ← syncPoint readEnd turn
      if sawShutdown then
        if 0 < turn.pending then submitBatch readEnd
        return .inr ()
      return .inl turn : SequencerCall E (SequenceLoop ⊕ Unit)).Meets
      (Reaches origin (.upTo encoded encoder) fun encoder => turn.pending = 0 → encoder.batch = [])
      (RoundEnds origin) (Stopped origin) := by
  refine Call.ends_bind _
    (@reaches_syncPoint E _ _ origin (.upTo encoded encoder) _ _ covered turn) fun turn =>
    Call.ends_ite (fun _ => ?_) fun _ => Call.ends_pure fun _ reaches => reaches.caughtUp rfl rfl
  refine Call.ends_ite (fun _ => Call.ends_bind _ (caughtUp_submitBatch _ covered) fun _ =>
    Call.ends_pure fun _ caughtUp => caughtUp) fun none => Call.ends_pure fun _ reaches => ?_
  have quiesced : Quiesced origin (.upTo encoded encoder) _ :=
    reaches.move rfl rfl rfl fun _ flushed => flushed (by omega)
  exact quiesced.caughtUp rfl rfl

theorem roundEnds_encodeBatch {slots : List (InputSlot E)} {encoder : JournalEncoder}
    (turn : SequenceLoop) (flushed : turn.pending = 0 → encoder.batch = []) :
    (do
      let (turn, sawShutdown) ← if slots.isEmpty then pure (turn, false)
        else encodeBatch encoded.length slots turn
      let turn ← syncPoint (encoded.length + slots.length) turn
      if sawShutdown then
        if 0 < turn.pending then submitBatch (encoded.length + slots.length)
        return .inr ()
      return .inl turn : SequencerCall E (SequenceLoop ⊕ Unit)).Meets
      (At origin ⟨encoded, slots, 0, encoder, encoded.length + slots.length⟩)
      (RoundEnds origin) (Stopped origin) := by
  have covered : encoded.length + slots.length = (encoded ++ slots).length := by simp
  refine Call.ends_ite (fun none => (roundEnds_syncPoint encoder covered turn false).imp
    (fun stage stands => ?_) (fun _ _ met => met) fun _ stopped => stopped) fun _ =>
    Call.ends_bind _ (at_encodeBatch rfl rfl rfl turn flushed) fun result =>
      (roundEnds_syncPoint encoder covered result.1 result.2).imp
        (fun _ reaches => reaches.move rfl rfl covered.symm fun _ held => held) (fun _ _ met => met)
        fun _ stopped => stopped
  obtain rfl : slots = [] := List.isEmpty_iff.mp none
  rw [List.append_nil]
  exact stands.reaches rfl flushed

theorem roundEnds_sequenceRound (turn : SequenceLoop) :
    (sequenceRound turn : SequencerCall E (SequenceLoop ⊕ Unit)).Meets (BetweenRounds origin turn)
      (RoundEnds origin) (Stopped origin) := by
  refine caughtUp_of_at fun encoded encoder flushed => (at_steady fun _ => At.stopped).unlessPoisoned ?_
  refine Call.ends_bind _ ((at_steady fun _ => At.stopped).observe) fun shutdown =>
    Call.ends_ite (fun _ => ?_) fun _ => Call.ends_looking fun seen seenAt => ?_
  · have drains : (do
        drainRemaining
        return .inr () : SequencerCall E (SequenceLoop ⊕ Unit)).Meets (CaughtUp origin (·.batch = []))
        (RoundEnds origin) (Stopped origin) :=
      Call.ends_bind _ caughtUp_drainRemaining fun _ => Call.ends_pure fun _ caughtUp => caughtUp
    refine Call.ends_ite (fun _ => Call.ends_looking fun seen seenAt => ?_) fun none => drains.imp
      (fun _ stands => ⟨encoded, encoder, flushed (by omega), stands⟩) (fun _ _ met => met)
      fun _ stopped => stopped
    have covered : seen.core.nextRead = encoded.length := seenAt.2.choose_spec.stands.nextRead
    exact Call.ends_bind _ ((caughtUp_submitBatch (fun _ => True) covered).imp
      (fun _ stands => stands.reaches rfl trivial) (fun _ _ caughtUp => caughtUp)
      fun _ stopped => stopped) fun _ => drains
  · have readStart : seen.core.nextRead = encoded.length := seenAt.2.choose_spec.stands.nextRead
    rw [readStart]
    exact Call.ends_ite (fun _ => Call.ends_bind _ (at_readContiguous _ rfl rfl) fun _ =>
      roundEnds_encodeBatch turn flushed) fun _ => roundEnds_encodeBatch turn flushed

theorem caughtUp_sequence :
    (sequence : SequencerCall E Unit).Meets (CaughtUp origin (·.batch = []))
      (fun _ => CaughtUp origin (·.batch = [])) (Stopped origin) := by
  have loops := ends_loop (BetweenRounds origin) roundEnds_sequenceRound
    (fun _ _ ⟨_, _, _, stands⟩ => stands.stopped)
    { pending := 0, firstWriteTs := none, idleCount := 0 }
  exact Call.Meets.imp loops
    (fun _ ⟨encoded, encoder, empty, stands⟩ => ⟨encoded, encoder, fun _ => empty, stands⟩)
    (fun _ _ caughtUp => caughtUp) fun _ stopped => stopped

theorem stopped_joinDisk :
    (joinDisk : SequencerCall E SegmentFile).Meets (Stopped origin) (fun _ => Stopped origin)
      (Stopped origin) := by
  refine ends_loop (fun _ => Stopped origin) (fun _ => ?_) (fun _ _ stopped => stopped) ()
  refine Call.ends_bind _ stopped_beat fun _ => Call.ends_update fun stage stopped => ?_
  dsimp only
  split
  · exact stopped
  · exact stopped

theorem stopped_joinDisk_fail {α : Type} {after : α → JournalStage E → Prop} (err : JournalError) :
    (do
      let _ ← joinDisk
      Call.fail err : SequencerCall E α).Meets (Stopped origin) after (Stopped origin) :=
  Call.ends_bind _ stopped_joinDisk fun _ => Call.ends_fail err fun _ stopped => stopped

theorem drained_joinDisk :
    (joinDisk : SequencerCall E SegmentFile).Meets (Drained origin pos) (fun _ => Drained origin pos)
      (Stopped origin) := by
  refine ends_loop (fun _ => Drained origin pos) (fun _ => ?_)
    (fun _ _ drained => drained.stands.stopped) ()
  refine Call.ends_bind _ (drained_beat.imp (fun _ drained => drained) (fun _ _ drained => drained)
    fun _ drained => drained.stands.stopped) fun _ => Call.ends_update fun stage drained => ?_
  dsimp only
  split
  · exact drained
  · exact drained

def Finished (origin : Origin E) (stage : JournalStage E) : Prop :=
  ∃ encoded encoder, encoder.batch = [] ∧ Drained origin (.upTo encoded encoder) stage

theorem finished_finish :
    (finish : SequencerCall E BufferedWriter).Meets (CaughtUp origin (·.batch = []))
      (fun _ => Finished origin) (Stopped origin) := by
  refine caughtUp_of_at fun encoded encoder empty => Call.ends_bind _
    (Call.ends_recover (Call.Ends.imp at_drainDisk (fun _ stands => stands)
      (fun _ _ drained => drained) (fun _ => At.stopped) fun _ => At.stopped)
      stopped_joinDisk_fail) fun _ => Call.ends_bind _ drained_joinDisk fun segment => ?_
  have returns : (do
      return { encoder := (← Call.look).core.encoder, segment, batchBufLen := batchBufCapacity } :
      SequencerCall E BufferedWriter).Meets (Drained origin (.upTo encoded encoder))
      (fun _ => Finished origin) (Stopped origin) :=
    Call.ends_look_bind fun seen drained => Call.ends_pure fun _ same =>
      ⟨encoded, encoder, empty, same ▸ drained⟩
  refine Call.ends_bind (fun _ => Drained origin (.upTo encoded encoder))
    (Call.ends_bind _ (drained_beat.imp (fun _ drained => drained) (fun _ _ drained => drained)
      fun _ drained => drained.stands.stopped) fun _ => Call.ends_update fun _ drained => drained)
    fun poisoned => Call.ends_ite (fun _ => Call.ends_bind _ ?_ fun _ => returns) fun _ => returns
  exact (at_takePoison fun _ => At.stopped).imp (fun _ drained => drained.stands)
    (fun _ _ never => never) fun _ stopped => stopped

theorem finished_runSequencer :
    (runSequencer : SequencerCall E BufferedWriter).Meets (CaughtUp origin (·.batch = []))
      (fun _ => Finished origin) (Stopped origin) :=
  Call.ends_bind _ (Call.ends_recover caughtUp_sequence stopped_joinDisk_fail) fun _ =>
    finished_finish

theorem stopped_runSequencer (caughtUp : CaughtUp origin (·.batch = []) stage) :
    Stopped origin (runSequencer stage).1 := by
  have met := finished_runSequencer stage caughtUp
  generalize runSequencer stage = ended at met
  obtain ⟨left, ending⟩ := ended
  cases ending with
  | done writer =>
    obtain ⟨encoded, encoder, -, drained⟩ := met
    exact drained.stands.stopped
  | failed err => exact met
  | waiting => exact met

end

end

end Melin
