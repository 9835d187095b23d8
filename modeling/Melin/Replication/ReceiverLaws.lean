import Melin.Replication.StreamingLoop

/-! What the receive path takes: consecutive slots, and one ack target per frame. -/

namespace Melin

open Lib

section

variable {E : Type}

def observePolicy (policy : Option LineagePolicy) (slot : InputSlot E) : Option LineagePolicy :=
  match slot.event.changesAckPolicy with
  | some change => some (.after policy slot.sequence change)
  | none => policy

/-- The slots `taken` were published behind what was there, and nothing else happened. -/
structure Takes (before after : Intake E) (taken : List (InputSlot E)) : Prop where
  ring : after.ring = before.ring ++ taken
  /-- They carry on from where the stream stood. -/
  dense : taken.map (·.sequence) = List.range' (before.accum + 1) taken.length
  accum : after.accum = before.accum + taken.length
  marks : after.marks = before.marks
  policy : after.lineagePolicy = taken.foldl observePolicy before.lineagePolicy

theorem Takes.nothing (intake : Intake E) : Takes intake intake [] := by
  constructor <;> simp

theorem Takes.cons {before after : Intake E} {slot : InputSlot E} {taken : List (InputSlot E)}
    {watch : JournalWatch} {next : Intake E} (follows : slot.sequence = before.accum + 1)
    (accepted : acceptSlot watch slot before = some next) (rest : Takes next after taken) :
    Takes before after (slot :: taken) := by
  unfold acceptSlot at accepted
  by_cases aborts : watch.abortsAt before.ring.length = true
  · rw [if_pos aborts] at accepted
    cases accepted
  rw [if_neg aborts] at accepted
  cases accepted
  obtain ⟨ring, dense, accum, marks, policy⟩ := rest
  dsimp only at ring dense accum marks policy
  constructor
  · rw [ring, List.append_assoc, List.singleton_append]
  · rw [List.map_cons, dense, follows, List.length_cons, List.range'_succ]
  · rw [accum, follows, List.length_cons]
    omega
  · exact marks
  · rw [policy, List.foldl_cons]
    rfl

theorem acceptSlots_takes (watch : JournalWatch) (slots : List (InputSlot E))
    (intake : Intake E) :
    ∃ taken, Takes intake (acceptSlots watch slots intake).1 taken ∧ taken.Sublist slots := by
  induction slots generalizing intake with
  | nil => exact ⟨[], .nothing intake, .slnil⟩
  | cons slot slots ih =>
    rw [acceptSlots]
    by_cases behind : slot.sequence ≤ intake.accum
    · rw [if_pos behind]
      obtain ⟨taken, takes, sub⟩ := ih intake
      exact ⟨taken, takes, sub.cons slot⟩
    rw [if_neg behind]
    by_cases follows : slot.sequence = intake.accum + 1
    · rw [if_neg (not_not_intro follows)]
      cases accepted : acceptSlot watch slot intake with
      | none => exact ⟨[], .nothing intake, List.nil_sublist _⟩
      | some next =>
        obtain ⟨taken, takes, sub⟩ := ih next
        exact ⟨slot :: taken, .cons follows accepted takes, sub.cons_cons slot⟩
    · rw [if_pos follows]
      exact ⟨[], .nothing intake, List.nil_sublist _⟩

theorem controlMessage_frame {payload : Bytes} {intake after : Intake E} {heard : Bool}
    (read : controlMessage payload intake = .ok (after, heard)) :
    ∃ marks, after = { intake with marks } := by
  have queued : ∀ kind mark, queueStreamMark intake kind mark = .ok after →
      ∃ marks, after = { intake with marks } := by
    intro kind mark queued
    unfold queueStreamMark at queued
    split at queued
    · cases queued
      exact ⟨_, rfl⟩
    split at queued
    · cases queued
      exact ⟨_, rfl⟩
    · cases queued
  unfold controlMessage at read
  split at read
  -- Rotations and chain checks queue a mark; every other message leaves the intake alone.
  case h_2 | h_3 =>
    split at read
    · cases read
      exact queued _ _ ‹_›
    · cases read
  all_goals cases read
  all_goals exact ⟨intake.marks, rfl⟩

def PendingAckQueue.afterFrame (acks : PendingAckQueue) (before after : Intake E) :
    PendingAckQueue :=
  if before.ring.length < after.ring.length then acks.push after.ring.length after.accum else acks

section

variable {P : Intake E → PendingAckQueue → Prop}
  (takes : ∀ before after taken acks, Takes before after taken → P before acks →
    P after (acks.afterFrame before after))
  (marks : ∀ intake acks queued, P intake acks → P { intake with marks := queued } acks)

include takes in
theorem takeFrame_keeps {watch : JournalWatch} {slots : List (InputSlot E)} {cycle : Cycle E}
    (held : P cycle.intake cycle.pendingAcks) :
    P (takeFrame watch slots cycle).intake (takeFrame watch slots cycle).pendingAcks := by
  unfold takeFrame
  split
  · exact held
  obtain ⟨taken, took, -⟩ := acceptSlots_takes watch slots cycle.intake
  have kept := takes _ _ taken _ took held
  simpa only [PendingAckQueue.afterFrame, Nat.sub_pos_iff_lt] using kept

variable [AppEvent E] [Hashing]

include takes marks in
theorem processFrame_keeps {watch : JournalWatch} {payload : Bytes} {cycle : Cycle E}
    (held : P cycle.intake cycle.pendingAcks) :
    P (processFrame watch payload cycle).intake (processFrame watch payload cycle).pendingAcks := by
  unfold processFrame
  split
  · exact takeFrame_keeps takes held
  · cases read : controlMessage payload cycle.intake with
    | ok result =>
      obtain ⟨after, heard⟩ := result
      obtain ⟨queued, rfl⟩ := controlMessage_frame read
      exact marks _ _ queued held
    | error err => exact held
  · exact held

include takes marks in
theorem processFrames_keeps {watch : JournalWatch} {recvBuf : Bytes} (fuel : Nat)
    {cycle : Cycle E} (held : P cycle.intake cycle.pendingAcks) :
    P (processFrames watch recvBuf fuel cycle).intake
      (processFrames watch recvBuf fuel cycle).pendingAcks := by
  induction fuel generalizing cycle with
  | zero => exact held
  | succ fuel ih =>
    rw [processFrames]
    split
    · exact held
    split
    · exact held
    · exact held
    · next payload _ =>
      have kept : P (processFrame watch payload cycle).intake
          (processFrame watch payload cycle).pendingAcks :=
        processFrame_keeps takes marks held
      dsimp only
      split
      · exact kept
      split
      · exact kept
      · exact ih kept

end

end

end Melin
