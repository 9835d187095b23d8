import Melin.Lib.Bytes
import Melin.Lib.Runs

/-! The join worker: a parked thread that streams a replica's join to its slot, frame by frame. -/

namespace Melin.JoinWorker

open Lib

def joinFramesInFlight : Nat := 4

def joinAbandoned : String := "join abandoned"

def frameExceeds (length capacity : Nat) : String :=
  "a " ++ toString length ++ "-byte join frame exceeds the replica socket's " ++ toString capacity
    ++ "-byte queue"

/-- What a job does next: publish a frame and learn whether that went well, look at the cancel
flag, or return the last sequence it streamed. -/
inductive Job where
  | publish (bytes : Bytes) (next : Bool → Job)
  | look (next : Bool → Job)
  | ret (result : Except String Nat)

/-- One message from the worker to the slot, in wire order. -/
inductive Message where
  | frame (bytes : Bytes)
  | done (result : Except String Nat)

inductive Phase where
  | running (job : Job)
  /-- In a publish, behind the look at the cancel flag. -/
  | checked (bytes : Bytes) (next : Bool → Job)
  | sending (buffer : Bytes) (next : Bool → Job)
  | returned (result : Except String Nat)
  /-- Behind the look at the cancel flag, with the result to send. -/
  | reporting (result : Except String Nat)
  | finished

def Phase.isFinished : Phase → Bool
  | .finished => true
  | _ => false

/-- What a pump was called with, and the bytes it has handed to the socket. -/
structure Call where
  budget : Nat
  capacity : Nat
  queued : Nat

inductive Stream where
  /-- Between two pumps, with a frame the socket had no room for. -/
  | idle (held : Option Bytes)
  | pumping (held : Option Bytes) (call : Call)
  | offering (frame : Bytes) (call : Call)
  /-- A pump answered that the join is done. -/
  | ended (result : Except String Nat)
  | workerGone
  /-- Being dropped: the cancel flag is set, the channel is still there. -/
  | dropping
  | dropped

def Stream.isDropped : Stream → Bool
  | .dropped => true
  | _ => false

structure Join where
  job : Job
  phase : Phase
  channel : List Message
  spares : List Bytes
  cancel : Bool
  stream : Stream
  /-- A record of the frames the socket took, which nothing reads. -/
  accepted : List Bytes

namespace Join

def submitted (job : Job) : Join :=
  { job, phase := .running job, channel := [], spares := [], cancel := false
    stream := .idle none, accepted := [] }

def send (join : Join) (message : Message) (next : Bool → Phase) : Option Join :=
  if join.stream.isDropped then some { join with phase := next false }
  else if join.channel.length < joinFramesInFlight then
    some { join with phase := next true, channel := join.channel ++ [message] }
  else none

def refill (buffer bytes : Bytes) : Bytes := buffer.take 0 ++ bytes

/-- One step of the worker, none where it has to wait. -/
def work (join : Join) : Option Join :=
  match join.phase with
  | .running (.publish bytes next) =>
    some { join with phase := if join.cancel then .running (next false) else .checked bytes next }
  | .running (.look next) => some { join with phase := .running (next join.cancel) }
  | .running (.ret result) => some { join with phase := .returned result }
  | .checked bytes next =>
    -- A spare when the slot has handed one back, otherwise a new one.
    some { join with phase := .sending (refill (join.spares.headD []) bytes) next
                     spares := join.spares.tail }
  | .sending buffer next => join.send (.frame buffer) fun sent => .running (next sent)
  | .returned result =>
    some { join with phase := .reporting (if join.cancel then .error joinAbandoned else result) }
  | .reporting result => join.send (.done result) fun _ => .finished
  | .finished => none

def pump (join : Join) (budget capacity : Nat) : Option Join :=
  match join.stream with
  | .idle held => some { join with stream := .pumping held { budget, capacity, queued := 0 } }
  | _ => none

/-- The first half of pump's loop: stop at the budget, or take the next frame. -/
def take (join : Join) : Option Join :=
  match join.stream with
  | .pumping held call =>
    if 0 < call.queued ∧ call.budget ≤ call.queued then some { join with stream := .idle held }
    else
      match held, join.channel with
      | some frame, _ => some { join with stream := .offering frame call }
      | none, .frame frame :: channel => some { join with stream := .offering frame call, channel }
      | none, .done result :: channel => some { join with stream := .ended result, channel }
      | none, [] =>
        some { join with stream := if join.phase.isFinished then .workerGone else .idle none }
  | _ => none

/-- The second half: hand the frame to the socket, which takes it or not. -/
def offer (join : Join) (takes : Bool) : Option Join :=
  match join.stream with
  | .offering frame call =>
    if call.capacity < frame.length then
      some { join with stream := .ended (.error (frameExceeds frame.length call.capacity)) }
    else if takes then
      some { join with
        stream := .pumping none { call with queued := call.queued + frame.length }
        spares := join.spares ++ [frame]
        accepted := join.accepted ++ [frame] }
    else some { join with stream := .idle (some frame) }
  | _ => none

def drop (join : Join) : Option Join :=
  match join.stream with
  | .idle _ | .ended _ | .workerGone => some { join with stream := .dropping, cancel := true }
  | _ => none

def close (join : Join) : Option Join :=
  match join.stream with
  | .dropping => some { join with stream := .dropped, channel := [] }
  | _ => none

end Join

/-- What the poll thread and the worker do, one shared access at a time. -/
inductive Act where
  | submit (job : Job)
  | work
  | pump (id budget capacity : Nat)
  | take (id : Nat)
  | offer (id : Nat) (takes : Bool)
  | drop (id : Nat)
  | close (id : Nat)

def change (joins : List Join) (id : Nat) (act : Join → Option Join) : Option (List Join) :=
  (joins[id]?.bind act).map (joins.set id)

/-- The joins of one worker in the order they were submitted; it works on the first it has not
finished. -/
def step : Act → List Join → Option (List Join)
  | .submit job, joins => some (joins ++ [.submitted job])
  | .work, joins => change joins (joins.findIdx (!·.phase.isFinished)) Join.work
  | .pump id budget capacity, joins => change joins id (·.pump budget capacity)
  | .take id, joins => change joins id Join.take
  | .offer id takes, joins => change joins id (·.offer takes)
  | .drop id, joins => change joins id Join.drop
  | .close id, joins => change joins id Join.close

end Melin.JoinWorker
