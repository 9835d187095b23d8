import Melin.Examples.CounterEvent
import Melin.Ingress.ClientFrames

/-! Every client request has exactly one fate at ingress. -/

namespace Melin

open Lib

inductive ParsesTo : Bytes → List Request → Bytes → Prop where
  | rest (bytes : Bytes) : ParsesTo bytes [] bytes
  | request {payload rest left : Bytes} {request : Request} {requests : List Request}
      (fits : payload.length ≤ maxFrameSize) (reads : splitRequest payload = .ok request)
      (more : ParsesTo rest requests left) :
      ParsesTo (frame payload ++ rest) (request :: requests) left

theorem ParsesTo.trans {bytes between left : Bytes} {first second : List Request}
    (front : ParsesTo bytes first between) (back : ParsesTo between second left) :
    ParsesTo bytes (first ++ second) left := by
  induction front with
  | rest bytes => exact back
  | request fits reads more ih => exact .request fits reads (ih back)

theorem ParsesTo.append {bytes left : Bytes} {requests : List Request}
    (parsed : ParsesTo bytes requests left) (more : Bytes) :
    ParsesTo (bytes ++ more) requests (left ++ more) := by
  induction parsed with
  | rest bytes => exact .rest _
  | request fits reads parsed ih =>
    rw [List.append_assoc]
    exact .request fits reads ih

def Violation (bytes : Bytes) : Prop :=
  (∃ tooLarge, splitFrameLimited bytes maxFrameSize = .error tooLarge) ∨
    ∃ payload err, splitFrameLimited bytes maxFrameSize = .ok (some payload) ∧
      splitRequest payload = .error err

def framesOf (payloads : List Bytes) : Bytes := (payloads.map frame).flatten

theorem frame_length_pos (payload : Bytes) : 0 < (frame payload).length := by
  simp [frame]

theorem framesOf_eq_nil {payloads : List Bytes} (none : (framesOf payloads).length = 0) :
    payloads = [] := by
  cases payloads with
  | nil => rfl
  | cons payload payloads =>
    have positive := frame_length_pos payload
    simp only [framesOf, List.map_cons, List.flatten_cons, List.length_append] at none
    omega

theorem completeFrames_spec (fuel : Nat) (bytes : Bytes) :
    (∃ rest, bytes = framesOf (completeFrames fuel bytes) ++ rest) ∧
      ∀ payload ∈ completeFrames fuel bytes, payload.length ≤ maxFrameSize := by
  induction fuel generalizing bytes with
  | zero => exact ⟨⟨bytes, rfl⟩, by simp [completeFrames]⟩
  | succ fuel ih =>
    rw [completeFrames]
    split
    · next payload found =>
      obtain ⟨whole, fits⟩ := splitFrameLimited_eq_some found
      have width : (frame payload).length = prefixLen + payload.length := by
        simp [frame, prefixLen]
      obtain ⟨⟨rest, more⟩, sizes⟩ := ih (bytes.drop (frame payload).length)
      refine ⟨⟨rest, ?_⟩, ?_⟩
      · rw [← width] at whole
        simp only [framesOf, List.map_cons, List.flatten_cons, List.append_assoc]
        rw [framesOf] at more
        rw [← more]
        exact whole
      · intro other member
        rcases List.mem_cons.mp member with rfl | later
        · exact fits
        · exact sizes other later
    all_goals exact ⟨⟨bytes, rfl⟩, by simp⟩

section

variable {E R : Type}

def Fate.isBusy : Fate E R → Bool
  | .answered reply =>
    match reply.kind with
    | .busy => true
    | .rejected _ | .filtered | .refused .. => false
  | .published _ => false

def Fate.publishedId : Fate E R → Option Nat
  | .published slot => some slot.requestId
  | .answered _ => none

def TailsBusy (fates : List (Fate E R)) (tails : List (Nat × Nat)) : Prop :=
  ∀ tail ∈ tails, ∀ index fate, tail.1 ≤ index → index < tail.2 → fates[index]? = some fate →
    fate.isBusy = true

/-- The bytes yet to be shed are complete frames, and no tail reaches beyond them. -/
structure Sheds (bytes : Bytes) (shed : Nat) (fates : List (Fate E R)) (tails : List (Nat × Nat)) :
    Prop where
  tail : ∃ payloads rest, bytes = framesOf payloads ++ rest ∧ shed = (framesOf payloads).length ∧
    (∀ payload ∈ payloads, payload.length ≤ maxFrameSize) ∧
    ∀ tail ∈ tails, tail.2 ≤ fates.length + payloads.length
  busy : TailsBusy fates tails

namespace Sheds

variable {bytes rest : Bytes} {shed : Nat} {fates : List (Fate E R)} {tails : List (Nat × Nat)}

theorem append (sheds : Sheds bytes shed fates tails) (more : Bytes) :
    Sheds (bytes ++ more) shed fates tails := by
  obtain ⟨payloads, rest, whole, width, sizes, reach⟩ := sheds.tail
  exact ⟨⟨payloads, rest ++ more, by rw [whole, List.append_assoc], width, sizes, reach⟩, sheds.busy⟩

theorem tailsBusy_snoc {fate : Fate E R} (busy : TailsBusy fates tails)
    (allowed : fate.isBusy = true ∨ ∀ tail ∈ tails, tail.2 ≤ fates.length) :
    TailsBusy (fates ++ [fate]) tails := by
  intro tail member index found first last known
  by_cases old : index < fates.length
  · rw [List.getElem?_append_left old] at known
    exact busy tail member index found first last known
  · rcases allowed with isBusy | done
    · rw [List.getElem?_append_right (by omega)] at known
      have last : found = fate := by
        have := List.mem_of_getElem? known
        simpa using this
      rw [last]
      exact isBusy
    · have reach := done tail member
      omega

theorem answered {payload : Bytes} {fate : Fate E R} (fits : payload.length ≤ maxFrameSize)
    (sheds : Sheds (frame payload ++ rest) shed fates tails) (inTail : 0 < shed)
    (isBusy : fate.isBusy = true) :
    Sheds rest (shed - (frame payload).length) (fates ++ [fate]) tails := by
  obtain ⟨payloads, behind, whole, width, sizes, reach⟩ := sheds.tail
  cases payloads with
  | nil =>
    simp [framesOf] at width
    omega
  | cons first payloads =>
    -- The frame at hand is the tail's first: both split off the same bytes.
    have small : ∀ bytes : Bytes, bytes.length ≤ maxFrameSize → bytes.length < 256 ^ 4 := by
      intro bytes fits
      have : maxFrameSize < 256 ^ 4 := by decide
      omega
    have firstFits := sizes first List.mem_cons_self
    simp only [framesOf, List.map_cons, List.flatten_cons, List.append_assoc] at whole width
    have here := splitFrameLimited_frame rest fits (small payload fits)
    rw [whole, splitFrameLimited_frame _ firstFits (small first firstFits)] at here
    have same : first = payload := by simpa using here
    subst same
    refine ⟨⟨payloads, behind, List.append_cancel_left whole, ?_,
      fun payload member => sizes payload (List.mem_cons_of_mem _ member), ?_⟩,
      tailsBusy_snoc sheds.busy (.inl isBusy)⟩
    · rw [width, framesOf, List.length_append, Nat.add_sub_cancel_left]
    · intro tail member
      have := reach tail member
      simp only [List.length_append, List.length_cons, List.length_nil] at this ⊢
      omega

theorem free (sheds : Sheds bytes 0 fates tails) (rest : Bytes) (fate : Fate E R) :
    Sheds rest 0 (fates ++ [fate]) tails := by
  obtain ⟨payloads, behind, -, width, -, reach⟩ := sheds.tail
  have none := framesOf_eq_nil width.symm
  subst none
  refine ⟨⟨[], rest, rfl, rfl, by simp, ?_⟩, tailsBusy_snoc sheds.busy (.inr reach)⟩
  intro tail member
  have := reach tail member
  simp only [List.length_append, List.length_nil, List.length_cons] at this ⊢
  omega

/-- A request that finds the ring full starts a tail of every complete frame buffered. -/
theorem starts (sheds : Sheds bytes 0 fates tails) :
    Sheds bytes (completeFramesLen bytes) fates
      (tails ++ [(fates.length,
        fates.length + (completeFrames bytes.length bytes).length)]) := by
  obtain ⟨payloads, behind, -, width, -, reach⟩ := sheds.tail
  have none := framesOf_eq_nil width.symm
  subst none
  obtain ⟨⟨rest, whole⟩, sizes⟩ := completeFrames_spec bytes.length bytes
  refine ⟨⟨_, rest, whole, ?_, sizes, ?_⟩, ?_⟩
  · simp only [completeFramesLen, framesOf, List.length_flatten, List.map_map]
    rfl
  · intro tail member
    rcases List.mem_append.mp member with earlier | new
    · have := reach tail earlier
      simp only [List.length_nil] at this
      omega
    · rw [List.mem_singleton.mp new]
  · intro tail member index fate first last known
    rcases List.mem_append.mp member with earlier | new
    · exact sheds.busy tail earlier index fate first last known
    · rw [List.mem_singleton.mp new] at first
      rw [List.getElem?_eq_none first] at known
      cases known

end Sheds

def Settles (connection : ClientConnection E R) (request : Request) : Fate E R → Prop
  | .published slot =>
    slot.connectionId = connection.connectionId ∧ slot.requestId = request.requestId ∧
      slot.keyHash = connection.keyHash ∧
      ∃ event, connection.decode request.body = .permitted event ∧ slot.event = .app event
  | .answered reply =>
    reply.connectionId = connection.connectionId ∧ reply.requestId = request.requestId

/-- A call under way has settled a front of the buffered requests, each once and in order. -/
structure Served (connection : ClientConnection E R) (parseBuf : Bytes) (before : List (Fate E R))
    (progress : FrameProgress E R) : Prop where
  inside : progress.cursor ≤ parseBuf.length
  settled : ∃ settled mine, ParsesTo parseBuf settled (parseBuf.drop progress.cursor) ∧
    progress.fates = before ++ mine ∧ List.Forall₂ (Settles connection) settled mine
  sheds : Sheds (parseBuf.drop progress.cursor) (progress.shedEnd - progress.cursor)
    progress.fates progress.tails

section

variable {connection : ClientConnection E R} {parseBuf payload : Bytes} {before : List (Fate E R)}
  {progress : FrameProgress E R} {request : Request}

theorem drop_cursor (found :
    splitFrameLimited (parseBuf.drop progress.cursor) maxFrameSize = .ok (some payload)) :
    parseBuf.drop progress.cursor
        = frame payload ++ parseBuf.drop (progress.cursor + (frame payload).length) ∧
      payload.length ≤ maxFrameSize ∧
      progress.cursor + (frame payload).length ≤ parseBuf.length := by
  obtain ⟨whole, fits⟩ := splitFrameLimited_eq_some found
  have width : prefixLen + payload.length = (frame payload).length := by
    simp [frame, prefixLen]
  rw [List.drop_drop, width] at whole
  refine ⟨whole, fits, ?_⟩
  have lengths := congrArg List.length whole
  simp only [List.length_drop, List.length_append] at lengths
  have positive := frame_length_pos payload
  omega

theorem Served.settle {fate : Fate E R} (served : Served connection parseBuf before progress)
    (found : splitFrameLimited (parseBuf.drop progress.cursor) maxFrameSize = .ok (some payload))
    (reads : splitRequest payload = .ok request) (settles : Settles connection request fate)
    (tail : progress.cursor < progress.shedEnd → fate.isBusy = true) (tally : IngressTally) :
    Served connection parseBuf before
      { progress with
        cursor := progress.cursor + (frame payload).length
        fates := progress.fates ++ [fate], tally } := by
  obtain ⟨whole, fits, inside⟩ := drop_cursor found
  obtain ⟨settled, mine, parsed, fates, each⟩ := served.settled
  refine ⟨inside, ⟨settled ++ [request], mine ++ [fate], ?_, ?_, ?_⟩, ?_⟩
  · refine parsed.trans ?_
    rw [whole]
    exact .request fits reads (.rest _)
  · rw [fates, List.append_assoc]
  · exact List.rel_append each (.cons settles .nil)
  · have sheds := served.sheds
    dsimp only
    by_cases inTail : progress.cursor < progress.shedEnd
    · rw [whole] at sheds
      have answered := sheds.answered fits (by omega) (tail inTail)
      rw [Nat.sub_sub] at answered
      exact answered
    · have none : progress.shedEnd - progress.cursor = 0 := by omega
      have still : progress.shedEnd - (progress.cursor + (frame payload).length) = 0 := by omega
      rw [none] at sheds
      rw [still]
      exact sheds.free _ fate

structure ServedTo (connection : ClientConnection E R) (parseBuf : Bytes) (before : List (Fate E R))
    (progress : FrameProgress E R) (action : FrameAction) : Prop where
  outcome : ∃ settled mine left, ParsesTo parseBuf settled left ∧
    progress.fates = before ++ mine ∧ List.Forall₂ (Settles connection) settled mine ∧
    (action = .continue → splitFrameLimited left maxFrameSize = .ok none) ∧
    (action = .disconnect → Violation left) ∧
    (action ≠ .disconnect → left = parseBuf.drop progress.cursor ∧
      Sheds left (progress.shedEnd - progress.cursor) progress.fates progress.tails)
  busy : TailsBusy progress.fates progress.tails

theorem Served.stops (served : Served connection parseBuf before progress) {action : FrameAction}
    (stays : action = .continue →
      splitFrameLimited (parseBuf.drop progress.cursor) maxFrameSize = .ok none)
    (drops : action = .disconnect → Violation (parseBuf.drop progress.cursor)) :
    ServedTo connection parseBuf before progress action := by
  obtain ⟨settled, mine, parsed, fates, each⟩ := served.settled
  exact ⟨⟨settled, mine, _, parsed, fates, each, stays, drops, fun _ => ⟨rfl, served.sheds⟩⟩,
    served.sheds.busy⟩

theorem Served.violated (served : Served connection parseBuf before progress)
    (violation : Violation (parseBuf.drop progress.cursor)) (cursor : Nat) :
    ServedTo connection parseBuf before { progress with cursor } .disconnect := by
  obtain ⟨settled, mine, parsed, fates, each⟩ := served.settled
  exact ⟨⟨settled, mine, _, parsed, fates, each, nofun, fun _ => violation,
    fun goes => absurd rfl goes⟩, served.sheds.busy⟩

variable {call : IngressCall} {next : FrameProgress E R} {event : E}

theorem Served.answer (served : Served connection parseBuf before progress) {kind : EarlyKind R}
    (found : splitFrameLimited (parseBuf.drop progress.cursor) maxFrameSize = .ok (some payload))
    (reads : splitRequest payload = .ok request)
    (answered : answerEarly connection call request.requestId (frame payload).length kind progress
      = some next)
    (tail : progress.cursor < progress.shedEnd → kind = .busy) :
    Served connection parseBuf before next := by
  unfold answerEarly at answered
  split at answered
  · cases answered
    have settles : Settles connection request
        (.answered ⟨connection.connectionId, request.requestId, kind⟩) := ⟨rfl, rfl⟩
    refine served.settle found reads settles (fun inTail => ?_) _
    rw [tail inTail]
    rfl
  · cases answered

theorem answerEarly_cursor {requestId consumed : Nat} {kind : EarlyKind R}
    (answered : answerEarly connection call requestId consumed kind progress = some next) :
    next.cursor = progress.cursor + consumed := by
  unfold answerEarly at answered
  split at answered <;> cases answered
  rfl

variable [AppEvent E]

theorem publishOrShed_cursor {requestId consumed : Nat} {shed : FrameProgress E R}
    (published : publishOrShed connection call parseBuf requestId consumed event progress
      = (shed, some next)) :
    next.cursor = progress.cursor + consumed := by
  unfold publishOrShed at published
  split at published
  · cases published
    rfl
  · rw [Prod.mk.injEq] at published
    have moved := answerEarly_cursor published.2
    exact moved

theorem Served.publish (served : Served connection parseBuf before progress)
    {shed : FrameProgress E R} {next : Option (FrameProgress E R)}
    (found : splitFrameLimited (parseBuf.drop progress.cursor) maxFrameSize = .ok (some payload))
    (reads : splitRequest payload = .ok request)
    (decoded : connection.decode request.body = .permitted event)
    (outside : ¬ progress.cursor < progress.shedEnd)
    (published : publishOrShed connection call parseBuf request.requestId (frame payload).length
      event progress = (shed, next)) :
    Served connection parseBuf before shed ∧
      ∀ after, next = some after → Served connection parseBuf before after := by
  unfold publishOrShed at published
  split at published
  · cases published
    have settles : Settles connection request (.published (.client connection request.requestId
        event (if AppEvent.isQuery event then 0 else call.batchWallNs))) :=
      ⟨rfl, rfl, rfl, event, decoded, rfl⟩
    have settled := served.settle found reads settles (fun inTail => absurd inTail outside)
      progress.tally
    exact ⟨settled, fun after is => by cases is; exact settled⟩
  · cases published
    have none : progress.shedEnd - progress.cursor = 0 := by omega
    have sheds := served.sheds
    rw [none] at sheds
    have tailed : Served connection parseBuf before
        { progress with
          shedEnd := progress.cursor + completeFramesLen (parseBuf.drop progress.cursor)
          tails := progress.tails ++ [(progress.fates.length,
            progress.fates.length + (completeFrames (parseBuf.drop progress.cursor).length
              (parseBuf.drop progress.cursor)).length)] } := by
      refine ⟨served.inside, served.settled, ?_⟩
      dsimp only
      rw [Nat.add_sub_cancel_left]
      exact sheds.starts
    exact ⟨tailed, fun after answered => tailed.answer found reads answered fun _ => rfl⟩

theorem ingressDecision_inr {halted : Bool} {body : Bytes}
    (decided : ingressDecision connection halted body = .inr event) :
    connection.decode body = .permitted event := by
  unfold ingressDecision at decided
  cases decoded : connection.decode body with
  | filter => simp [decoded] at decided
  | permissionDenied reason => simp [decoded] at decided
  | decodeError reason => simp [decoded] at decided
  | permitted other =>
    simp only [decoded] at decided
    split at decided
    · cases decided
    · cases decided
      rfl

theorem processFramesUnflushed_serves (call : IngressCall) (fuel : Nat)
    (served : Served connection parseBuf before progress)
    (enough : parseBuf.length < progress.cursor + fuel) :
    ServedTo connection parseBuf before
      (processFramesUnflushed connection call parseBuf fuel progress).1
      (processFramesUnflushed connection call parseBuf fuel progress).2 := by
  induction fuel generalizing progress with
  | zero =>
    have inside := served.inside
    omega
  | succ fuel ih =>
    rw [processFramesUnflushed]
    split
    · next none => exact served.stops (fun _ => none) nofun
    · next tooLarge large => exact served.stops nofun fun _ => .inl ⟨tooLarge, large⟩
    · next payload found =>
      have positive := frame_length_pos payload
      dsimp only
      split
      · next err noRequest => exact served.violated (.inr ⟨payload, err, found, noRequest⟩) _
      · next request reads =>
        have parks : ∀ {stopped : FrameProgress E R},
            Served connection parseBuf before stopped →
            ServedTo connection parseBuf before stopped .park :=
          fun stopped => stopped.stops nofun nofun
        have answers : ∀ {kind next}, answerEarly connection call request.requestId
            (frame payload).length kind progress = some next →
            (progress.cursor < progress.shedEnd → kind = .busy) → ServedTo connection parseBuf before
              (processFramesUnflushed connection call parseBuf fuel next).1
              (processFramesUnflushed connection call parseBuf fuel next).2 := by
          intro kind next answered tail
          refine ih (served.answer found reads answered tail) ?_
          rw [answerEarly_cursor answered]
          omega
        split
        · split
          · next answered => exact answers answered fun _ => rfl
          · exact parks served
        · next outside =>
          split
          · split
            · next answered => exact answers answered fun inTail => absurd inTail outside
            · exact parks served
          · next event decided =>
            split
            · next shed next published =>
              have after := (served.publish found reads (ingressDecision_inr decided) outside
                published).2 next rfl
              refine ih after ?_
              rw [publishOrShed_cursor published]
              omega
            · next shed published =>
              exact parks (served.publish found reads (ingressDecision_inr decided) outside
                published).1

end

/-- What a connection's bytes have come to: each request settled once and in order, the rest of the
bytes left as they are. -/
structure Fates (connection : ClientConnection E R) (stream left : Bytes)
    (state : IngressState E R) : Prop where
  settled : ∃ settled, ParsesTo stream settled left ∧
    List.Forall₂ (Settles connection) settled state.fates
  busy : TailsBusy state.fates state.tails

/-- Between calls, what is left is buffered, with the rest of a tail in front. -/
structure Standing (connection : ClientConnection E R) (stream : Bytes) (state : IngressState E R) :
    Prop where
  fates : Fates connection stream state.ingress.parseBuf state
  sheds : Sheds state.ingress.parseBuf state.ingress.shedRemaining state.fates state.tails

structure CallEnd (connection : ClientConnection E R) (stream left : Bytes)
    (state : IngressState E R) (action : FrameAction) : Prop where
  fates : Fates connection stream left state
  stays : action = .continue → splitFrameLimited left maxFrameSize = .ok none
  drops : action = .disconnect → Violation left
  goes : action ≠ .disconnect →
    left = state.ingress.parseBuf ∧ Standing connection stream state

variable {connection : ClientConnection E R}

theorem Standing.new : Standing connection [] (IngressState.new : IngressState E R) :=
  ⟨⟨⟨[], .rest _, .nil⟩, fun _ member => nomatch member⟩,
    ⟨⟨[], [], rfl, rfl, by simp, fun _ member => nomatch member⟩, fun _ member => nomatch member⟩⟩

variable {stream : Bytes} {state : IngressState E R}

theorem Standing.receive (standing : Standing connection stream state) (received : Bytes) :
    Standing connection (stream ++ received)
      { state with ingress.parseBuf := state.ingress.parseBuf ++ received } := by
  obtain ⟨settled, parsed, each⟩ := standing.fates.settled
  exact ⟨⟨⟨settled, parsed.append received, each⟩, standing.fates.busy⟩,
    standing.sheds.append received⟩

theorem published_in_order {settled : List Request} {fates : List (Fate E R)}
    (each : List.Forall₂ (Settles connection) settled fates) :
    ((fates.filterMap Fate.publishedId).Sublist (settled.map (·.requestId))) := by
  induction each with
  | nil => exact .slnil
  | @cons request fate requests fates settles _ ih =>
    cases fate with
    | published slot =>
      have same : slot.requestId = request.requestId := settles.2.1
      simp only [List.filterMap_cons, Fate.publishedId, List.map_cons, same]
      exact ih.cons_cons _
    | answered reply =>
      simp only [List.filterMap_cons, Fate.publishedId, List.map_cons]
      exact ih.cons _

variable [AppEvent E]

theorem processClientFrames_serves {call : IngressCall}
    (standing : Standing connection stream state) (goesOn : call.verdict ≠ .close) :
    ∃ left, CallEnd connection stream left (processClientFrames connection call state).1
      (processClientFrames connection call state).2 := by
  have starts : Served connection state.ingress.parseBuf state.fates
      { cursor := 0, shedEnd := state.ingress.shedRemaining, fates := state.fates
        tally := { shed := 0, filtered := 0, permissionDenied := 0, malformed := 0, rejected := 0 }
        tails := state.tails } :=
    ⟨Nat.zero_le _, ⟨[], [], .rest _, by simp, .nil⟩, standing.sheds⟩
  have serves := processFramesUnflushed_serves call (state.ingress.parseBuf.length + 1) starts
    (by dsimp only; omega)
  rw [processClientFrames, if_neg goesOn]
  dsimp only
  generalize processFramesUnflushed connection call state.ingress.parseBuf
    (state.ingress.parseBuf.length + 1) _ = ended at serves ⊢
  obtain ⟨progress, action⟩ := ended
  obtain ⟨⟨more, mine, left, parsed, fates, each, stays, drops, goes⟩, busy⟩ := serves
  obtain ⟨settled, before, eachBefore⟩ := standing.fates.settled
  have all : Fates connection stream left
      { ingress :=
          { parseBuf := state.ingress.parseBuf.drop progress.cursor
            shedRemaining := progress.shedEnd - progress.cursor }
        fates := progress.fates, tails := progress.tails } := by
    refine ⟨⟨settled ++ more, before.trans parsed, ?_⟩, busy⟩
    dsimp only at fates ⊢
    rw [fates]
    exact List.rel_append eachBefore each
  refine ⟨left, all, stays, drops, fun stays => ?_⟩
  obtain ⟨rfl, sheds⟩ := goes stays
  exact ⟨rfl, all, sheds⟩

theorem serveConnection_goes {step : IngressStep} {steps : List IngressStep}
    {next : IngressState E R} {action : FrameAction}
    (stepped : processClientFrames connection step.call
      { state with ingress.parseBuf := state.ingress.parseBuf ++ step.received } = (next, action))
    (goes : action ≠ .disconnect) :
    serveConnection connection (step :: steps) state
      = if steps = [] then (next, action) else serveConnection connection steps next := by
  rw [serveConnection]
  dsimp only
  rw [stepped]
  cases action with
  | disconnect => exact absurd rfl goes
  | «continue» => rfl
  | park => rfl

theorem serveConnection_serves (steps : List IngressStep)
    (goesOn : ∀ step ∈ steps, step.call.verdict ≠ .close) (some : steps ≠ [])
    (standing : Standing connection stream state) :
    ∃ served unread left, steps = served ++ unread ∧
      CallEnd connection (stream ++ (served.map (·.received)).flatten) left
        (serveConnection connection steps state).1 (serveConnection connection steps state).2 ∧
      ((serveConnection connection steps state).2 ≠ .disconnect → unread = []) := by
  induction steps generalizing stream state with
  | nil => exact absurd rfl some
  | cons step steps ih =>
    obtain ⟨left, ended⟩ := processClientFrames_serves (standing.receive step.received)
      (goesOn step List.mem_cons_self)
    cases stepped : processClientFrames connection step.call
      { state with ingress.parseBuf := state.ingress.parseBuf ++ step.received } with
    | mk next action =>
    rw [stepped] at ended
    by_cases closes : action = .disconnect
    · subst closes
      have closed : serveConnection connection (step :: steps) state = (next, .disconnect) := by
        rw [serveConnection]
        dsimp only
        rw [stepped]
      rw [closed]
      exact ⟨[step], steps, left, rfl, by simpa using ended, fun goes => absurd rfl goes⟩
    -- A step that does not close the connection leaves it standing on the bytes received so far.
    rw [serveConnection_goes stepped closes]
    by_cases last : steps = []
    · subst last
      exact ⟨[step], [], left, rfl, by simpa using ended, fun _ => rfl⟩
    · rw [if_neg last]
      obtain ⟨served, unread, left, split, ended, all⟩ := ih
        (fun step member => goesOn step (List.mem_cons_of_mem _ member)) last (ended.goes closes).2
      refine ⟨step :: served, unread, left, by rw [split, List.cons_append], ?_, all⟩
      rw [List.map_cons, List.flatten_cons, ← List.append_assoc]
      exact ended

/--
Every client request has exactly one fate, while the node is not superseded: the requests a
connection's bytes start with are settled one by one and in order, published or answered under
their own ID; a call that does not park settles every complete request, up to the first violation;
what is left of the bytes stays as it is; and once a request finds the ring full, neither it nor a
complete frame buffered behind it then is published.
-/
theorem request_has_one_fate (connection : ClientConnection E R) (steps : List IngressStep)
    (some : steps ≠ []) (goesOn : ∀ step ∈ steps, step.call.verdict ≠ .close) :
    ∃ served unread settled left,
      steps = served ++ unread ∧
      ParsesTo (served.map (·.received)).flatten settled left ∧
      List.Forall₂ (Settles connection) settled (serveConnection connection steps .new).1.fates ∧
      ((serveConnection connection steps .new).1.fates.filterMap Fate.publishedId).Sublist
        (settled.map (·.requestId)) ∧
      TailsBusy (serveConnection connection steps .new).1.fates
        (serveConnection connection steps .new).1.tails ∧
      ((serveConnection connection steps .new).2 = .continue →
        splitFrameLimited left maxFrameSize = .ok none) ∧
      ((serveConnection connection steps .new).2 = .disconnect → Violation left) ∧
      ((serveConnection connection steps .new).2 ≠ .disconnect →
        unread = [] ∧ (serveConnection connection steps .new).1.ingress.parseBuf = left) := by
  obtain ⟨served, unread, left, split, ended, all⟩ :=
    serveConnection_serves steps goesOn some (Standing.new : Standing connection [] _)
  obtain ⟨⟨settled, parsed, each⟩, busy⟩ := ended.fates
  exact ⟨served, unread, settled, left, split, by simpa using parsed, each,
    published_in_order each, busy, ended.stays, ended.drops,
    fun goes => ⟨all goes, (ended.goes goes).1.symm⟩⟩

end

def sampleConnection : ClientConnection CounterEvent Nat :=
  { connectionId := 3, keyHash := 7
    decode := fun body => if body = [] then .filter else .permitted (.increment 1)
    buildReject := fun _ => 0 }

def requestFrame (requestId : Nat) (body : Bytes) : Bytes :=
  frame (tagRequest :: (leBytes 8 requestId ++ body))

def sampleCall (ringRoom earlyRoom : Nat → Bool) : IngressCall :=
  { verdict := .take, ringRoom, earlyRoom, batchWallNs := 5 }

/-- Three requests: the first is published, the second finds the ring full, and the third is shed
with it by the retry of a parked call. -/
def sampleBurst : List IngressStep :=
  [{ received := requestFrame 1 [1] ++ requestFrame 2 [1] ++ requestFrame 3 [1]
     call := sampleCall (fun offset => offset == 0) (fun offset => offset == 14) },
   { received := [9], call := sampleCall (fun _ => true) (fun _ => true) }]

/-- The burst's requests have one fate each, and the partial frame behind them stays. -/
theorem request_has_one_fate_burst :
    (serveConnection sampleConnection sampleBurst .new).1.fates
        = [.published (.client sampleConnection 1 (.increment 1) 5), .answered ⟨3, 2, .busy⟩,
          .answered ⟨3, 3, .busy⟩] ∧
      (serveConnection sampleConnection sampleBurst .new).1.ingress = ⟨[9], 0⟩ ∧
      ∃ settled, ParsesTo (sampleBurst.map (·.received)).flatten settled [9] := by
  have ran : (serveConnection sampleConnection sampleBurst .new).2 = .continue ∧
      (serveConnection sampleConnection sampleBurst .new).1.ingress = ⟨[9], 0⟩ := by
    decide +kernel
  obtain ⟨served, unread, settled, left, split, parsed, -, -, -, -, -, kept⟩ :=
    request_has_one_fate sampleConnection sampleBurst (by simp [sampleBurst]) (by
      simp [sampleBurst, sampleCall])
  obtain ⟨rfl, rest⟩ := kept (by rw [ran.1]; nofun)
  rw [List.append_nil] at split
  rw [ran.2] at rest
  subst rest
  refine ⟨by decide +kernel, ran.2, settled, ?_⟩
  rw [split]
  exact parsed

/-- A superseded node drops the connection, and the requests it has in full come to nothing. -/
theorem superseded_node_settles_nothing :
    let step : IngressStep :=
      { received := requestFrame 1 [1]
        call := { sampleCall (fun _ => true) (fun _ => true) with verdict := .close } }
    ParsesTo step.received [⟨1, [1]⟩] [] ∧
      (serveConnection sampleConnection [step] .new).2 = .disconnect ∧
      (serveConnection sampleConnection [step] .new).1.fates = [] := by
  refine ⟨?_, by decide +kernel, by decide +kernel⟩
  have reads : splitRequest (tagRequest :: (leBytes 8 1 ++ [1])) = .ok ⟨1, [1]⟩ := by decide
  have parsed := ParsesTo.request (by decide) reads (.rest [])
  simpa [requestFrame] using parsed

end Melin
