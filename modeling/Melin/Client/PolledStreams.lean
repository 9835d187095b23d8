import Melin.Client.Session

/-! The byte streams of a connection, over every interleaving of the calls on it. -/

namespace Melin.Client

open Lib

/-- A request as it is given to a connection. -/
inductive Sent (Err : Type) where
  | body (bytes : Bytes)
  | encoded (encoder : BodyEncoder Err)

def Sent.Writes {Err : Type} : Sent Err → Bytes → Prop
  | .body bytes, written => written = bytes
  | .encoded encoder, written => encoder.Writes written

/-- What a poll came to: the requests that were outstanding when it was done searching, the frame it
found, and its answer. -/
structure Poll where
  outstanding : Outstanding
  found : List Bytes
  answer : Except Error (Option Frame)

/-- The answer to a frame that a poll took: the frame if it is a reply to the requests that are
outstanding, and else what is wrong with it. -/
def judged (outstanding : Outstanding) (payload : Bytes) : Except Error Frame := do
  let reply ← classifyAnswer payload
  let () ← (outstanding.observe reply).2
  return reply

structure Poll.Sound (poll : Poll) : Prop where
  atMostOne : poll.found.length ≤ 1
  judges : ∀ payload ∈ poll.found, poll.answer = (judged poll.outstanding payload).map some
  nothing : poll.found = [] → ∀ reply, poll.answer ≠ .ok (some reply)

inductive Operation (Err : Type) where
  | send (now : Nat) (body : Bytes)
  | sendWith (now maxBody : Nat) (encoder : BodyEncoder Err)
  | feed (bytes : Bytes)
  | flush
  | poll (now : Nat)

def Operation.sends {Err : Type} : Operation Err → Bool
  | .send .. | .sendWith .. => true
  | .feed _ | .flush | .poll _ => false

/-- A connection, what went through its stream, the requests that were counted and the polls. -/
structure Exchange (Err : Type) where
  connection : PolledConnection
  handed : List Handover
  received : Bytes
  sent : List (Sent Err)
  polls : List Poll

theorem Kept.polled {S : Type} {key : SigningKey} {connection : PolledConnection}
    {channel : Channel S} {response : Bytes} {bodies replies : List Bytes} (stream : ByteStream S)
    (kept : Kept key connection channel response bodies replies) (now : Nat) :
    ∃ response, Kept key (connection.poll stream key channel now).1
      (connection.poll stream key channel now).2.1 response bodies
      (replies ++ foundIn (connection.pollFound stream key channel now false).2.2) := by
  obtain ⟨response, searched⟩ := (kept.pollFound stream now false).kept
  refine ⟨response, ?_⟩
  unfold PolledConnection.poll
  split <;> rename_i search <;> rw [search] at searched ⊢
  · exact searched
  · exact searched
  · rename_i payload
    have answered := searched.answer payload
    split <;> rename_i answering <;> rw [answering] at answered <;> exact answered

theorem sound_poll {S : Type} (stream : ByteStream S) (key : SigningKey)
    (connection : PolledConnection) (channel : Channel S) (now : Nat) :
    Poll.Sound ⟨(connection.pollFound stream key channel now false).1.outstanding,
      Kept.foundIn (connection.pollFound stream key channel now false).2.2,
      (connection.poll stream key channel now).2.2⟩ := by
  unfold PolledConnection.poll
  split <;> rename_i search <;> rw [search]
  · exact ⟨Nat.zero_le _, by simp [Kept.foundIn], by simp⟩
  · exact ⟨Nat.zero_le _, by simp [Kept.foundIn], by simp⟩
  · rename_i searched _ payload
    refine ⟨le_rfl, fun other isOther => ?_, by simp [Kept.foundIn]⟩
    obtain rfl := List.mem_singleton.mp isOther
    -- The frame is classified, and accounted for among the requests outstanding then.
    simp only [PolledConnection.answer, judged]
    cases classified : classifyAnswer other with
    | error err => rfl
    | ok reply =>
      cases observed : searched.outstanding.observe reply with
      | mk outstanding result =>
        cases result <;> simp [observed, Except.map, bind, Except.bind, pure, Except.pure]

namespace Exchange

variable {Err S : Type}

def start (readTimeout : Nat) : Exchange Err :=
  { connection := .withTimeout readTimeout, handed := [], received := [], sent := [], polls := [] }

def channel (exchange : Exchange Err) (state : S) : Channel S :=
  { state, handed := exchange.handed, received := exchange.received }

def after (exchange : Exchange Err) (connection : PolledConnection) (channel : Channel S)
    (request : List (Sent Err)) (polls : List Poll) : Exchange Err :=
  { connection, handed := channel.handed, received := channel.received
    sent := exchange.sent ++
      if connection.outstanding.next = exchange.connection.outstanding.next then [] else request
    polls := exchange.polls ++ polls }

def taken (exchange : Exchange Err) : List Bytes := exchange.polls.flatMap Poll.found

def returned (exchange : Exchange Err) : List Frame :=
  exchange.polls.filterMap fun poll => poll.answer.toOption.join

section

variable (stream : ByteStream S) (key : SigningKey) (refused : RequestFrameError → Err)
  (failed : Error → Err)

def step (exchange : Exchange Err) : S × Operation Err → Exchange Err
  | (state, .send now body) =>
    let (connection, channel, _) := exchange.connection.send stream (exchange.channel state) now body
    exchange.after connection channel [.body body] []
  | (state, .sendWith now maxBody encoder) =>
    let (connection, channel, _) := exchange.connection.sendWith stream refused failed
      (exchange.channel state) now maxBody encoder
    exchange.after connection channel [.encoded encoder] []
  | (state, .feed bytes) =>
    let channel := exchange.channel state
    exchange.after (exchange.connection.feed bytes)
      { channel with received := channel.received ++ bytes } [] []
  | (state, .flush) =>
    let (connection, channel, _) := exchange.connection.flush stream (exchange.channel state)
    exchange.after connection channel [] []
  | (state, .poll now) =>
    let (searched, _, found) :=
      exchange.connection.pollFound stream key (exchange.channel state) now false
    let (connection, channel, answer) :=
      exchange.connection.poll stream key (exchange.channel state) now
    exchange.after connection channel [] [⟨searched.outstanding, Kept.foundIn found, answer⟩]

def run (exchange : Exchange Err) (calls : List (S × Operation Err)) : Exchange Err :=
  calls.foldl (step stream key refused failed) exchange

/-- No request is sent on a ready connection as long as the stream has not taken all of the
challenge response. -/
def SendsBehind (exchange : Exchange Err) : List (S × Operation Err) → Prop
  | [] => True
  | call :: calls =>
    (call.2.sends = true → exchange.connection.isReady = true →
      exchange.connection.challengeResponse.unsent = []) ∧
    (exchange.step stream key refused failed call).SendsBehind calls

end

structure WellFormed (key : SigningKey) (exchange : Exchange Err) (bodies : List Bytes) : Prop where
  kept : ∃ response, Kept key exchange.connection (exchange.channel ()) response bodies
    exchange.taken
  written : List.Forall₂ Sent.Writes exchange.sent bodies

theorem WellFormed.behind {key : SigningKey} {exchange : Exchange Err} {bodies more : List Bytes}
    (wellFormed : exchange.WellFormed key bodies) {connection : PolledConnection}
    {channel : Channel S} {response : Bytes} {request : List (Sent Err)} {polls : List Poll}
    (kept : Kept key connection channel response (bodies ++ more)
      (exchange.taken ++ polls.flatMap Poll.found))
    (adds : more = [] ∨ ∃ sent, request = [sent] ∧ Adds sent.Writes more) :
    (exchange.after connection channel request polls).WellFormed key (bodies ++ more) := by
  obtain ⟨_, before⟩ := wellFormed.kept
  refine ⟨⟨response, ?_⟩, ?_⟩
  · rw [taken, after, List.flatMap_append]
    exact kept.channel_congr rfl rfl
  · -- The next ID moves by the number of bodies.
    have moved : connection.outstanding.next = exchange.connection.outstanding.next + more.length := by
      rw [kept.next, before.next, List.length_append, Nat.add_assoc]
    refine List.rel_append wellFormed.written ?_
    rcases more with _ | ⟨body, more⟩
    · rw [if_pos (by exact moved)]
      exact .nil
    · obtain ⟨sent, rfl, isOne⟩ := adds.resolve_left (List.cons_ne_nil _ _)
      obtain rfl : more = [] := List.length_eq_zero_iff.mp (Nat.le_zero.mp
        (Nat.le_of_succ_le_succ isOne.atMostOne))
      rw [if_neg (by rw [moved, List.length_singleton]; omega)]
      exact .cons (isOne.written body (List.mem_singleton_self _)) .nil

variable {stream : ByteStream S} {key : SigningKey} (refused : RequestFrameError → Err)
  (failed : Error → Err)

variable {exchange : Exchange Err} {bodies : List Bytes}

theorem WellFormed.step (whole : stream.QueuesWhole) (wellFormed : exchange.WellFormed key bodies)
    (call : S × Operation Err)
    (behind : call.2.sends = true → exchange.connection.isReady = true →
      exchange.connection.challengeResponse.unsent = []) :
    ∃ more, (exchange.step stream key refused failed call).WellFormed key (bodies ++ more) := by
  obtain ⟨response, before⟩ := wellFormed.kept
  obtain ⟨state, operation⟩ := call
  have kept : Kept key exchange.connection (exchange.channel state) response bodies exchange.taken :=
    before.channel_congr rfl rfl
  have unpolled : exchange.taken ++ List.flatMap Poll.found [] = exchange.taken := List.append_nil _
  cases operation with
  | send now body =>
    obtain ⟨more, adds, sent⟩ := kept.send whole now body (behind rfl)
    exact ⟨more, wellFormed.behind (unpolled ▸ sent) (.inr ⟨_, rfl, adds⟩)⟩
  | sendWith now maxBody encoder =>
    obtain ⟨more, adds, sent⟩ := kept.sendWith whole now maxBody (behind rfl)
    exact ⟨more, wellFormed.behind (unpolled ▸ sent) (.inr ⟨_, rfl, adds⟩)⟩
  | feed bytes =>
    have fed := kept.feed bytes
    rw [← List.append_nil bodies] at fed
    exact ⟨[], wellFormed.behind (unpolled ▸ fed) (.inl rfl)⟩
  | flush =>
    have flushed := kept.flush stream
    rw [← List.append_nil bodies] at flushed
    exact ⟨[], wellFormed.behind (unpolled ▸ flushed) (.inl rfl)⟩
  | poll now =>
    obtain ⟨response, polled⟩ := kept.polled stream now
    refine ⟨[], @WellFormed.behind Err S key exchange bodies [] wellFormed _ _ response _ _ ?_
      (.inl rfl)⟩
    rw [List.flatMap_cons, List.flatMap_nil, List.append_nil, List.append_nil]
    exact polled

variable {refused failed}

theorem sound_step (sound : ∀ poll ∈ exchange.polls, poll.Sound) (call : S × Operation Err) :
    ∀ poll ∈ (exchange.step stream key refused failed call).polls, poll.Sound := by
  obtain ⟨state, operation⟩ := call
  cases operation with
  | poll now =>
    intro poll isIn
    rcases List.mem_append.mp isIn with before | new
    · exact sound poll before
    · rw [List.mem_singleton.mp new]
      exact sound_poll stream key exchange.connection (exchange.channel state) now
  | send | sendWith | feed | flush =>
    intro poll isIn
    simp only [step, after, List.append_nil] at isIn
    exact sound poll isIn

theorem WellFormed.run (whole : stream.QueuesWhole) (wellFormed : exchange.WellFormed key bodies)
    {calls : List (S × Operation Err)}
    (behind : exchange.SendsBehind stream key refused failed calls) :
    ∃ bodies, (exchange.run stream key refused failed calls).WellFormed key bodies := by
  induction calls generalizing exchange bodies with
  | nil => exact ⟨bodies, wellFormed⟩
  | cons call calls ih =>
    obtain ⟨more, next⟩ := wellFormed.step refused failed whole call behind.1
    exact ih next behind.2

theorem sound_run (sound : ∀ poll ∈ exchange.polls, poll.Sound) (calls : List (S × Operation Err)) :
    ∀ poll ∈ (exchange.run stream key refused failed calls).polls, poll.Sound := by
  induction calls generalizing exchange with
  | nil => exact sound
  | cons call calls ih => exact ih (sound_step sound call)

def reader (key : SigningKey) (exchange : Exchange Err) : Reader :=
  Reader.initial.readAll key (payloadsOf exchange.received)

/-- In a well-formed exchange the bytes handed over and the frames taken are as far as they go those
that the node's bytes and the requests come to. -/
theorem WellFormed.streams (wellFormed : exchange.WellFormed key bodies) :
    handedBytes exchange.handed <+: (exchange.reader key).response ++ requestFrames 1 bodies ∧
      handedEarly exchange.handed <+: (exchange.reader key).response ∧
      exchange.taken <+: (exchange.reader key).replies := by
  obtain ⟨response, kept⟩ := wellFormed.kept
  have reads := kept.reads []
  rw [List.append_nil, List.append_nil] at reads
  have total : handedBytes exchange.handed ++ exchange.connection.unsent
      = response ++ requestFrames 1 bodies := kept.total
  rw [reader, show Reader.initial.readAll key (payloadsOf exchange.received) = _ from reads]
  refine ⟨?_, ?_, Reader.replies_readAll key ⟨_, response, exchange.taken⟩ _⟩
  all_goals by_cases challenge : exchange.connection.handshake = .challenge
  · -- Before the challenge there is nothing to hand over.
    have notReady : exchange.connection.isReady = false := by
      simp [PolledConnection.isReady, challenge]
    have none := (kept.held notReady).1.trans (kept.asked challenge)
    rw [show handedBytes exchange.handed = [] from (List.append_eq_nil_iff.mp none).1]
    exact List.nil_prefix
  · rw [Reader.response_readAll key challenge, ← total]
    exact List.prefix_append ..
  · have early := kept.early
    rw [kept.asked challenge] at early
    rw [show handedEarly exchange.handed = [] from List.prefix_nil.mp early]
    exact List.nil_prefix
  · rw [Reader.response_readAll key challenge]
    exact kept.early

theorem starved_poll {connection : PolledConnection} {channel : Channel S} {now : Nat}
    {response : Bytes} {replies : List Bytes}
    (kept : Kept key connection channel response bodies replies)
    (nothing : (connection.poll stream key channel now).2.2 = .ok none) :
    splitFrameLimited (connection.poll stream key channel now).1.rx.pending maxFrameSize
      = .ok none := by
  have starved := (kept.pollFound stream now false).starved
  unfold PolledConnection.poll at nothing ⊢
  split at nothing <;> rename_i search <;> rw [search] at starved
  · cases nothing
  · exact starved rfl
  · split at nothing <;> cases nothing

theorem returned_eq (sound : ∀ poll ∈ exchange.polls, poll.Sound)
    (accepted : ∀ poll ∈ exchange.polls, ∀ payload ∈ poll.found,
      ∃ reply, judged poll.outstanding payload = .ok reply) :
    exchange.returned.map .ok = exchange.taken.map classifyAnswer := by
  unfold returned taken
  generalize exchange.polls = polls at sound accepted ⊢
  induction polls with
  | nil => rfl
  | cons poll polls ih =>
    have rest := ih (fun poll isIn => sound poll (.tail _ isIn))
      (fun poll isIn => accepted poll (.tail _ isIn))
    have isSound := sound poll (.head _)
    have isAccepted := accepted poll (.head _)
    obtain ⟨outstanding, found, answer⟩ := poll
    rcases found with _ | ⟨payload, _ | ⟨second, found⟩⟩
    · -- Nothing was found, and nothing is returned.
      have nothing := isSound.nothing rfl
      rcases answer with err | (_ | reply)
      · simpa [Except.toOption] using rest
      · simpa [Except.toOption] using rest
      · exact absurd rfl (nothing reply)
    · obtain ⟨reply, isReply⟩ := isAccepted payload (.head _)
      have answered : answer = _ := isSound.judges payload (.head _)
      have classified : classifyAnswer payload = .ok reply := by
        change judged outstanding payload = .ok reply at isReply
        unfold judged at isReply
        cases classified : classifyAnswer payload with
        | error err => rw [classified] at isReply; cases isReply
        | ok other =>
          rw [classified] at isReply
          cases observed : (outstanding.observe other).2 with
          | error err => simp [observed, bind, Except.bind] at isReply
          | ok _ => simpa [observed, bind, Except.bind, pure, Except.pure] using isReply
      rw [answered, isReply]
      simpa [classified, Except.map, Except.toOption] using rest
    · have atMostOne := isSound.atMostOne
      simp at atMostOne

instance decidableSendsBehind (stream : ByteStream S) (key : SigningKey)
    (refused : RequestFrameError → Err) (failed : Error → Err) :
    ∀ (calls : List (S × Operation Err)) (exchange : Exchange Err),
      Decidable (exchange.SendsBehind stream key refused failed calls)
  | [], _ => .isTrue trivial
  | call :: calls, exchange =>
    have := decidableSendsBehind stream key refused failed calls
      (exchange.step stream key refused failed call)
    inferInstanceAs (Decidable (_ ∧ _))

def sampleKey : SigningKey :=
  { publicKey := Digest.zero, sign := fun _ => List.replicate 64 0, width := fun _ => rfl }

def lendingStream : ByteStream Bool where
  send full data := (full, .ok (if full then 0 else data.length))
  takes := by
    intro full data n sent
    cases full <;> cases sent <;> simp
  recv full _ := (full, .ok [])
  gives := by
    rintro _ _ _ ⟨⟩
    exact Nat.zero_le _
  lend full := (full, .ok (some (List.replicate 64 0)))
  queue full _ written := (full, .ok written)
  queues := by
    rintro _ _ _ _ ⟨⟩
    exact le_rfl

def sampleChallenge : Bytes :=
  frame (tagChallenge :: (leBytes challengeVersionLen clientProtocolVersion ++ List.replicate 32 0))

def sampleCalls : List (Bool × Operation Error) :=
  [(true, .feed sampleChallenge), (true, .poll 0), (false, .flush), (false, .send 0 [7]),
    (false, .feed (frame [tagServerReady])), (false, .poll 1), (false, .send 1 [8, 9]),
    (false, .feed (frame (tagBatchEnd :: leBytes 8 1))), (false, .poll 2)]

end Exchange

end Melin.Client
