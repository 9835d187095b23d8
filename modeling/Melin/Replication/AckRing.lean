import Melin.Lib.CircularBuffer
import Melin.Lib.Lists
import Melin.Replication.AckLaws

/-! The pending acks in their circular buffer, beside a queue without a bound. -/

namespace Melin

open Lib

structure AckRing where
  ring : CircularBuffer PendingAck
  /-- Pushes the newest entry absorbed because the queue was full. -/
  merged : Nat

namespace AckRing

def new (cap : Nat) (power : cap.isPowerOfTwo) : AckRing :=
  { ring := .empty { journalTarget := 0, ackedSequence := 0 } cap power, merged := 0 }

def push (queue : AckRing) (journalTarget ackedSequence : Nat) : AckRing :=
  if room : queue.ring.used < queue.ring.capacity then
    { queue with ring := queue.ring.push { journalTarget, ackedSequence } room }
  else
    { queue with
      ring := queue.ring.modifyLast fun entry =>
        { journalTarget := max entry.journalTarget journalTarget
          ackedSequence := max entry.ackedSequence ackedSequence }
      merged := queue.merged + 1 }

/-- Pop entries while the cursor has reached the oldest, keeping the last one's sequence. -/
def popReadyLoop (cursor : Nat) : Nat → AckRing → Option Nat → Option Nat × AckRing
  | 0, queue, lastAcked => (lastAcked, queue)
  | fuel + 1, queue, lastAcked =>
    match queue.ring.front with
    | none => (lastAcked, queue)
    | some entry =>
      if cursor < entry.journalTarget then (lastAcked, queue)
      else popReadyLoop cursor fuel { queue with ring := queue.ring.pop } (some entry.ackedSequence)

def popReady (queue : AckRing) (cursor : Nat) : Option Nat × AckRing :=
  popReadyLoop cursor queue.ring.used queue none

def toQueue (queue : AckRing) : PendingAckQueue :=
  { cap := queue.ring.capacity, pending := queue.ring.items, merged := queue.merged
    power := queue.ring.power }

theorem toQueue_push (queue : AckRing) (journalTarget ackedSequence : Nat) :
    (queue.push journalTarget ackedSequence).toQueue
      = queue.toQueue.push journalTarget ackedSequence := by
  rw [push, PendingAckQueue.push]
  have count : queue.toQueue.pending.length = queue.ring.used := queue.ring.items_length
  have cap : queue.toQueue.cap = queue.ring.capacity := rfl
  split
  · rename_i room
    rw [if_neg (by omega)]
    simp only [toQueue, queue.ring.items_push]
    simp [CircularBuffer.capacity, CircularBuffer.push]
  · rename_i full
    rw [if_pos (by omega)]
    -- A full queue has a newest entry, since there is a cell.
    have positive := queue.ring.capacity_pos
    obtain ⟨front, last, split⟩ := List.eq_nil_or_concat' queue.ring.items |>.resolve_left
      (fun none => by rw [← queue.ring.items_length, none] at full; exact full positive)
    have pending : queue.toQueue.pending = front ++ [last] := split
    rw [pending, List.getLast?_concat, List.dropLast_concat]
    simp only [toQueue, queue.ring.items_modifyLast _ split]
    simp [CircularBuffer.capacity, CircularBuffer.modifyLast]

/-- The loop pops the entries reached, however many more rounds it may take. -/
theorem popReadyLoop_eq (cursor : Nat) {fuel : Nat} (queue : AckRing) (lastAcked : Option Nat)
    (enough : queue.ring.used ≤ fuel) :
    (popReadyLoop cursor fuel queue lastAcked).1
        = (queue.toQueue.popReady cursor).1.or lastAcked ∧
      (popReadyLoop cursor fuel queue lastAcked).2.toQueue = (queue.toQueue.popReady cursor).2 := by
  have items : queue.toQueue.pending = queue.ring.items := rfl
  induction fuel generalizing queue lastAcked with
  | zero =>
    have none : queue.ring.items = [] :=
      List.length_eq_zero_iff.mp (by rw [queue.ring.items_length]; omega)
    simp [popReadyLoop, PendingAckQueue.popReady, toQueue, none]
  | succ fuel ih =>
    rw [popReadyLoop, queue.ring.front_eq]
    cases split : queue.ring.items with
    | nil => simp [PendingAckQueue.popReady, toQueue, split]
    | cons entry rest =>
      rw [List.head?_cons]
      dsimp only
      by_cases early : cursor < entry.journalTarget
      · rw [if_pos early]
        simp [PendingAckQueue.popReady, toQueue, split, early]
      · rw [if_neg early]
        have left : queue.ring.pop.items = rest := by rw [queue.ring.items_pop, split, List.tail_cons]
        obtain ⟨value, state⟩ := ih { queue with ring := queue.ring.pop } (some entry.ackedSequence)
          (Nat.sub_le_of_le_add enough) rfl
        rw [value, state]
        have reached : entry.journalTarget ≤ cursor := Nat.le_of_not_lt early
        have width : queue.ring.pop.capacity = queue.ring.capacity := rfl
        simp only [PendingAckQueue.popReady, toQueue, left, split, width, List.takeWhile_cons,
          List.dropWhile_cons, reached, decide_true, if_true, and_true]
        cases rest.takeWhile (·.journalTarget ≤ cursor) with
        | nil => rfl
        | cons next others => simp [List.getLast?_eq_some_getLast]

theorem toQueue_popReady (queue : AckRing) (cursor : Nat) :
    (queue.popReady cursor).1 = (queue.toQueue.popReady cursor).1 ∧
      (queue.popReady cursor).2.toQueue = (queue.toQueue.popReady cursor).2 := by
  obtain ⟨value, state⟩ := popReadyLoop_eq cursor queue none (Nat.le_refl _)
  exact ⟨by rw [popReady, value, Option.or_none], state⟩

end AckRing

inductive AckCall where
  | push (ack : PendingAck)
  | popReady (cursor : Nat)
  deriving DecidableEq, Repr

def pushesOf (calls : List AckCall) : List PendingAck :=
  calls.filterMap fun
    | .push ack => some ack
    | .popReady _ => none

def cursorsOf (calls : List AckCall) : List Nat :=
  calls.filterMap fun
    | .push _ => none
    | .popReady cursor => some cursor

def PendingAck.Leads (older newer : PendingAck) : Prop :=
  older.journalTarget ≤ newer.journalTarget ∧ older.ackedSequence ≤ newer.ackedSequence

instance : Std.Refl PendingAck.Leads := ⟨fun _ => ⟨Nat.le_refl _, Nat.le_refl _⟩⟩

/-- Targets, sequences and cursors never fall from one call to a later one. -/
structure Rising (calls : List AckCall) : Prop where
  pushes : (pushesOf calls).Pairwise PendingAck.Leads
  cursors : (cursorsOf calls).Pairwise (· ≤ ·)

def AckRing.run (cap : Nat) (power : cap.isPowerOfTwo) (calls : List AckCall) :
    List Nat × AckRing :=
  calls.foldl (fun (returned, queue) call =>
    match call with
    | .push ack => (returned, queue.push ack.journalTarget ack.ackedSequence)
    | .popReady cursor =>
      let (acked, queue) := queue.popReady cursor
      (returned ++ acked.toList, queue)) ([], .new cap power)

def unboundedRun (calls : List AckCall) : List Nat × List PendingAck :=
  calls.foldl (fun (returned, pending) call =>
    match call with
    | .push ack => (returned, pending ++ [ack])
    | .popReady cursor =>
      let ready := pending.takeWhile (·.journalTarget ≤ cursor)
      (returned ++ (ready.getLast?.map (·.ackedSequence)).toList,
        pending.dropWhile (·.journalTarget ≤ cursor))) ([], [])

theorem AckRing.run_push {cap : Nat} (power : cap.isPowerOfTwo) (calls : List AckCall)
    (ack : PendingAck) :
    AckRing.run cap power (calls ++ [.push ack])
      = ((AckRing.run cap power calls).1,
        (AckRing.run cap power calls).2.push ack.journalTarget ack.ackedSequence) := by
  rw [AckRing.run, List.foldl_concat]
  rfl

theorem AckRing.run_popReady {cap : Nat} (power : cap.isPowerOfTwo) (calls : List AckCall)
    (cursor : Nat) :
    AckRing.run cap power (calls ++ [.popReady cursor])
      = ((AckRing.run cap power calls).1
          ++ ((AckRing.run cap power calls).2.popReady cursor).1.toList,
        ((AckRing.run cap power calls).2.popReady cursor).2) := by
  rw [AckRing.run, List.foldl_concat]
  rfl

theorem unboundedRun_push (calls : List AckCall) (ack : PendingAck) :
    unboundedRun (calls ++ [.push ack])
      = ((unboundedRun calls).1, (unboundedRun calls).2 ++ [ack]) := by
  rw [unboundedRun, List.foldl_concat]
  rfl

theorem unboundedRun_popReady (calls : List AckCall) (cursor : Nat) :
    unboundedRun (calls ++ [.popReady cursor])
      = ((unboundedRun calls).1
          ++ (((unboundedRun calls).2.takeWhile (·.journalTarget ≤ cursor)).getLast?.map
            (·.ackedSequence)).toList,
        (unboundedRun calls).2.dropWhile (·.journalTarget ≤ cursor)) := by
  rw [unboundedRun, List.foldl_concat]
  rfl

/-- How the bounded queue stands to the unbounded one after the same calls. -/
structure Follows (pushes : List PendingAck) (returned : List Nat) (queued : List PendingAck)
    (unbounded : List Nat × List PendingAck) : Prop where
  kept : queued.Sublist unbounded.2
  newest : queued.getLast? = unbounded.2.getLast?
  pending : unbounded.2 <:+ pushes
  pushed : ∀ acked ∈ returned, ∃ ack ∈ pushes, ack.ackedSequence = acked
  ascending : returned.Pairwise (· ≤ ·)
  below : ∀ acked ∈ returned, ∀ ack ∈ unbounded.2, acked ≤ ack.ackedSequence
  conservative : ∀ acked ∈ returned, ∃ value ∈ unbounded.1, acked ≤ value
  lossless : unbounded.2 = [] → returned.getLast? = pushes.getLast?.map (·.ackedSequence)

theorem dropWhile_unreached {pending : List PendingAck} (sorted : pending.Pairwise PendingAck.Leads)
    (cursor : Nat) :
    ∀ ack ∈ pending.dropWhile (·.journalTarget ≤ cursor), cursor < ack.journalTarget := by
  induction pending with
  | nil => simp
  | cons oldest pending ih =>
    rw [List.pairwise_cons] at sorted
    rw [List.dropWhile_cons]
    split
    · exact ih sorted.2
    · rename_i early
      have early : cursor < oldest.journalTarget := by simpa using early
      intro ack queued
      rcases List.mem_cons.mp queued with rfl | later
      · exact early
      · exact early.trans_le (sorted.1 ack later).1

namespace Follows

variable {pushes : List PendingAck} {returned : List Nat} {queue : PendingAckQueue}
  {unbounded : List Nat × List PendingAck}

theorem push (follows : Follows pushes returned queue.pending unbounded) {ack : PendingAck}
    (sorted : (pushes ++ [ack]).Pairwise PendingAck.Leads) :
    Follows (pushes ++ [ack]) returned (queue.push ack.journalTarget ack.ackedSequence).pending
      (unbounded.1, unbounded.2 ++ [ack]) := by
  have older : ∀ other ∈ pushes, PendingAck.Leads other ack := fun other earlier =>
    (List.pairwise_append.mp sorted).2.2 other earlier ack (List.mem_singleton_self _)
  obtain ⟨kept, sub, pending⟩ := PendingAckQueue.push_pending fun other queued =>
    older other (follows.pending.subset (follows.kept.subset queued))
  rw [pending]
  constructor
  · exact (sub.trans follows.kept).append (List.Sublist.refl _)
  · rw [List.getLast?_concat, List.getLast?_concat]
  · obtain ⟨done, split⟩ := follows.pending
    exact ⟨done, by rw [← split, List.append_assoc]⟩
  · intro acked was
    obtain ⟨other, earlier, same⟩ := follows.pushed acked was
    exact ⟨other, List.mem_append_left _ earlier, same⟩
  · exact follows.ascending
  · intro acked was other queued
    rcases List.mem_append.mp queued with old | new
    · exact follows.below acked was other old
    · obtain ⟨earlier, isEarlier, same⟩ := follows.pushed acked was
      rw [List.mem_singleton.mp new, ← same]
      exact (older earlier isEarlier).2
  · exact follows.conservative
  · simp

/-- Popping what the cursor reached off both fronts keeps the two queues together. -/
theorem popped {ready left fullReady fullLeft : List PendingAck} {given : List Nat} {cursor : Nat}
    (follows : Follows pushes returned (ready ++ left) (given, fullReady ++ fullLeft))
    (sorted : (fullReady ++ fullLeft).Pairwise PendingAck.Leads)
    (reached : ∀ ack ∈ ready, ack.journalTarget ≤ cursor)
    (unreached : ∀ ack ∈ fullLeft, cursor < ack.journalTarget) (sub : left.Sublist fullLeft) :
    Follows pushes (returned ++ (ready.getLast?.map (·.ackedSequence)).toList) left
      (given ++ (fullReady.getLast?.map (·.ackedSequence)).toList, fullLeft) := by
  obtain ⟨readySorted, -, across⟩ := List.pairwise_append.mp sorted
  -- What the bounded queue pops, the unbounded one pops too.
  have both : ∀ ack ∈ ready, ack ∈ fullReady := by
    intro ack popped
    have there := follows.kept.subset (List.mem_append_left left popped)
    exact (List.mem_append.mp there).resolve_right fun late =>
      absurd (reached ack popped) (Nat.not_le.mpr (unreached ack late))
  have value : ∀ acked ∈ (ready.getLast?.map (·.ackedSequence)).toList,
      ∃ ack ∈ ready, ack.ackedSequence = acked := by
    intro acked given
    cases last : ready.getLast? with
    | none => simp [last] at given
    | some ack =>
      rw [last] at given
      exact ⟨ack, List.mem_of_getLast? last, by simpa [eq_comm] using given⟩
  constructor
  · exact sub
  · -- The newest entry is left in both, or in neither.
    rcases List.eq_nil_or_concat' fullLeft with none | ⟨front, last, some⟩
    · rw [none] at sub ⊢
      rw [List.sublist_nil.mp sub]
    · have newest := follows.newest
      rw [List.getLast?_append_of_ne_nil fullReady (by simp [some]), some, List.getLast?_concat]
        at newest
      have stays : left ≠ [] := by
        rintro rfl
        rw [List.append_nil] at newest
        have early := reached last (List.mem_of_getLast? newest)
        have late := unreached last (by simp [some])
        omega
      rw [some, List.getLast?_concat, ← newest, List.getLast?_append_of_ne_nil ready stays]
  · exact (List.suffix_append _ _).trans follows.pending
  · intro acked was
    rcases List.mem_append.mp was with old | new
    · exact follows.pushed acked old
    · obtain ⟨ack, popped, same⟩ := value acked new
      exact ⟨ack, follows.pending.subset (List.mem_append_left _ (both ack popped)), same⟩
  · rw [List.pairwise_append]
    refine ⟨follows.ascending, by cases ready.getLast? <;> simp, ?_⟩
    intro acked was newer new
    obtain ⟨ack, popped, same⟩ := value newer new
    rw [← same]
    exact follows.below acked was ack (List.mem_append_left _ (both ack popped))
  · intro acked was other late
    rcases List.mem_append.mp was with old | new
    · exact follows.below acked old other (List.mem_append_right _ late)
    · obtain ⟨ack, popped, same⟩ := value acked new
      rw [← same]
      exact (across ack (both ack popped) other late).2
  · intro acked was
    rcases List.mem_append.mp was with old | new
    · obtain ⟨value, isGiven, covers⟩ := follows.conservative acked old
      exact ⟨value, List.mem_append_left _ isGiven, covers⟩
    · obtain ⟨ack, popped, same⟩ := value acked new
      have some := List.ne_nil_of_mem (both ack popped)
      have covers := readySorted.rel_getLast (both ack popped)
      refine ⟨(fullReady.getLast some).ackedSequence, List.mem_append_right _ ?_, ?_⟩
      · simp [List.getLast?_eq_some_getLast some]
      · rw [← same]
        exact covers.2
  · rintro rfl
    rw [List.sublist_nil.mp sub, List.append_nil] at follows
    -- Everything is popped: the newest entry, if there is one, is the latest push.
    rcases List.eq_nil_or_concat' ready with rfl | ⟨front, last, rfl⟩
    · have none := follows.newest
      rw [List.append_nil, List.getLast?_nil, eq_comm, List.getLast?_eq_none_iff] at none
      rw [List.getLast?_nil, Option.map_none, Option.toList_none, List.append_nil]
      exact follows.lossless (by simpa using none)
    · have newest := follows.newest
      rw [List.getLast?_concat] at newest
      obtain ⟨done, split⟩ := follows.pending
      have latest : pushes.getLast? = some last := by
        rw [← split, List.getLast?_append, ← newest]
        rfl
      simp [latest]

end Follows

theorem Rising.before {calls : List AckCall} {call : AckCall} (rising : Rising (calls ++ [call])) :
    Rising calls where
  pushes := rising.pushes.sublist ((List.sublist_append_left _ _).filterMap _)
  cursors := rising.cursors.sublist ((List.sublist_append_left _ _).filterMap _)

theorem follows_run {cap : Nat} (power : cap.isPowerOfTwo) {calls : List AckCall}
    (rising : Rising calls) :
    Follows (pushesOf calls) (AckRing.run cap power calls).1
      (AckRing.run cap power calls).2.toQueue.pending (unboundedRun calls) := by
  induction calls using List.reverseRecOn with
  | nil =>
    exact ⟨List.Sublist.refl _, rfl, List.suffix_rfl, by simp [AckRing.run], List.Pairwise.nil,
      by simp [AckRing.run], by simp [AckRing.run], fun _ => rfl⟩
  | append_singleton calls call ih =>
    have follows := ih rising.before
    cases call with
    | push ack =>
      have pushes : pushesOf (calls ++ [.push ack]) = pushesOf calls ++ [ack] := by simp [pushesOf]
      have sorted := rising.pushes
      rw [pushes] at sorted
      rw [pushes, AckRing.run_push, unboundedRun_push, AckRing.toQueue_push]
      exact follows.push sorted
    | popReady cursor =>
      have pushes : pushesOf (calls ++ [.popReady cursor]) = pushesOf calls := by simp [pushesOf]
      have sorted := (pushes ▸ rising.pushes).sublist follows.pending.sublist
      obtain ⟨value, state⟩ := (AckRing.run cap power calls).2.toQueue_popReady cursor
      obtain ⟨ready, split, last, reached⟩ :=
        (AckRing.run cap power calls).2.toQueue.popReady_split cursor
      have sub := sublist_dropWhile (fun ack : PendingAck => decide (ack.journalTarget ≤ cursor))
        follows.kept
      have whole : (unboundedRun calls).2.takeWhile (·.journalTarget ≤ cursor)
          ++ (unboundedRun calls).2.dropWhile (·.journalTarget ≤ cursor) = (unboundedRun calls).2 :=
        List.takeWhile_append_dropWhile
      rw [pushes, AckRing.run_popReady, unboundedRun_popReady, value, state, last]
      refine Follows.popped ?_ ?_ reached (dropWhile_unreached sorted cursor) sub
      · rwa [whole, ← split]
      · rwa [whole]

/-- The bounded queue acks no earlier than one without a bound, and loses nothing. -/
theorem bounded_acks_follow_unbounded {cap : Nat} (power : cap.isPowerOfTwo) {calls : List AckCall}
    {cursor : Nat} (rising : Rising (calls ++ [.popReady cursor])) :
    let before := AckRing.run cap power calls
    let popped := before.2.popReady cursor
    let returned := before.1 ++ popped.1.toList
    returned.Pairwise (· ≤ ·) ∧
      (∀ acked, popped.1 = some acked →
        ∃ target ≤ cursor, { journalTarget := target, ackedSequence := acked } ∈ pushesOf calls) ∧
      (∀ acked ∈ returned,
        ∃ value ∈ (unboundedRun (calls ++ [.popReady cursor])).1, acked ≤ value) ∧
      (∀ latest, (pushesOf calls).getLast? = some latest → latest.journalTarget ≤ cursor →
        popped.2.ring.items = [] ∧ returned.getLast? = some latest.ackedSequence ∧
          (before.2.ring.items ≠ [] → popped.1 = some latest.ackedSequence)) := by
  intro before popped returned
  have start := follows_run power rising.before
  have follows := follows_run power rising
  have pushes : pushesOf (calls ++ [.popReady cursor]) = pushesOf calls := by simp [pushesOf]
  have ran : AckRing.run cap power (calls ++ [.popReady cursor]) = (returned, popped.2) :=
    AckRing.run_popReady power calls cursor
  rw [ran, pushes] at follows
  obtain ⟨ready, split, value, reached⟩ := before.2.toQueue.popReady_split cursor
  obtain ⟨same, left⟩ := before.2.toQueue_popReady cursor
  rw [← same] at value
  refine ⟨follows.ascending, ?_, follows.conservative, ?_⟩
  · intro acked isPopped
    rw [show (before.2.popReady cursor).1 = some acked from isPopped, eq_comm,
      Option.map_eq_some_iff] at value
    obtain ⟨ack, last, rfl⟩ := value
    have taken := List.mem_of_getLast? last
    refine ⟨ack.journalTarget, reached ack taken, ?_⟩
    exact start.pending.subset (start.kept.subset (split ▸ List.mem_append_left _ taken))
  · intro latest isLatest covered
    -- Every push was for a target the cursor has reached, so both queues are popped to their ends.
    have sorted := pushes ▸ rising.pushes
    have all : ∀ ack ∈ pushesOf calls, ack.journalTarget ≤ cursor := by
      intro ack pushed
      have leads := sorted.rel_getLast pushed
      rw [List.getLast_of_getLast?_eq_some isLatest] at leads
      exact leads.1.trans covered
    have done := before.2.toQueue.popReady_all fun ack queued =>
      all ack (start.pending.subset (start.kept.subset queued))
    have emptied : (unboundedRun (calls ++ [.popReady cursor])).2 = [] := by
      rw [unboundedRun_popReady]
      exact List.dropWhile_eq_nil_iff.mpr fun ack queued => by
        simpa using all ack (start.pending.subset queued)
    refine ⟨?_, ?_, ?_⟩
    · have none := done.2
      rw [← left] at none
      exact none
    · rw [follows.lossless emptied, isLatest]
      rfl
    · intro queued
      have waiting : (unboundedRun calls).2 ≠ [] := fun none =>
        queued (List.sublist_nil.mp (none ▸ start.kept))
      obtain ⟨older, split⟩ := start.pending
      rw [← split, List.getLast?_append_of_ne_nil older waiting, ← start.newest] at isLatest
      show (before.2.popReady cursor).1 = _
      rw [same, done.1, isLatest]
      rfl

/-- Three acks through a queue of two: the third is merged, and the second is acked with it. -/
theorem bounded_acks_follow_unbounded_merged :
    (AckRing.run 2 ⟨1, rfl⟩ [.push ⟨1, 10⟩, .push ⟨2, 20⟩, .push ⟨3, 30⟩, .popReady 2]).1 = [10] ∧
      ((AckRing.run 2 ⟨1, rfl⟩
        [.push ⟨1, 10⟩, .push ⟨2, 20⟩, .push ⟨3, 30⟩, .popReady 2]).2.popReady 3).1 = some 30 := by
  have rising : Rising ([.push ⟨1, 10⟩, .push ⟨2, 20⟩, .push ⟨3, 30⟩, .popReady 2]
      ++ [.popReady 3]) :=
    ⟨by simp [pushesOf, PendingAck.Leads], by simp [cursorsOf]⟩
  have follows := @bounded_acks_follow_unbounded 2 ⟨1, rfl⟩ _ _ rising
  exact ⟨by decide, (follows.2.2.2 ⟨3, 30⟩ (by decide) (by decide)).2.2 (by decide)⟩

end Melin
