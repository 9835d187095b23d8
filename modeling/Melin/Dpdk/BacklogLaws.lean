import Melin.Dpdk.ListenBacklog
import Melin.Lib.Runs

/-! Whatever the stack and the transport do, every connection is handed out once and in bounds. -/

namespace Melin.Dpdk

open Lib

namespace SocketSet

variable {sockets : SocketSet} {handle : Nat}

def mark (sockets : SocketSet) (handle : Nat) : Option (Nat × Nat) :=
  (sockets.slot handle).map fun item => (item.serial, item.port)

theorem mark_eq {item : Item} (found : sockets.slot handle = some item) :
    sockets.mark handle = some (item.serial, item.port) := by
  rw [mark, found, Option.map_some]

theorem slot_add (sockets : SocketSet) (socket : Socket) : (sockets.add socket).2.slot
    = Function.update sockets.slot sockets.lowest
        (some ⟨sockets.added, socket.listenPort, socket⟩) := rfl

theorem slot_remove (other : Nat) :
    (sockets.remove handle).slot other = if other = handle then none else sockets.slot other := by
  simp only [remove, change]
  split <;> cases sockets.slot other <;> rfl

theorem slot_put_of_ne {content : Socket} {other : Nat} (apart : other ≠ handle) :
    (sockets.put handle content).slot other = sockets.slot other := by
  simp only [put, change, if_neg apart]
  cases sockets.slot other <;> rfl

theorem mark_change (sockets : SocketSet) (moves : Nat → Socket → Socket) (handle : Nat) :
    (sockets.change fun handle socket => some (moves handle socket)).mark handle
      = sockets.mark handle := by
  simp only [mark, change]
  cases sockets.slot handle <;> rfl

theorem slot_freeSlotBelow (sockets : SocketSet) (slotCap : Nat) :
    (sockets.freeSlotBelow slotCap).2.slot = sockets.slot := by
  funext handle
  rw [freeSlotBelow, slot_remove, slot_add]
  split
  case isTrue probe =>
    rw [probe]
    exact sockets.slot_lowest.symm
  case isFalse other => exact Function.update_of_ne other _ _

theorem lowest_congr {other : SocketSet} (same : other.slot = sockets.slot) :
    other.lowest = sockets.lowest :=
  Nat.le_antisymm (lowest_le (by rw [same]; exact sockets.slot_lowest))
    (lowest_le (by rw [← same]; exact other.slot_lowest))

end SocketSet

structure PortBacklog.Holds (slotCap : Nat) (sockets : SocketSet) (port : PortBacklog) :
    Prop where
  listens : port.config.port ≠ 0
  fits : port.pending.length ≤ port.depth
  below : ∀ handle ∈ port.pending, handle < slotCap
  own : ∀ handle ∈ port.pending, ∃ serial, sockets.mark handle = some (serial, port.config.port)
  inOrder : port.pending.Pairwise fun first second =>
    ∀ one other, sockets.mark first = some one → sockets.mark second = some other → one.1 < other.1

def PortBacklog.thin (port : PortBacklog) (keep : Nat → Bool) : PortBacklog :=
  { port with pending := port.pending.filter keep }

def entries (ports : List PortBacklog) : List (ListenerConfig × Nat) :=
  ports.flatMap fun port => port.pending.map (port.config, ·)

structure Sound (slotCap : Nat) (ports : List PortBacklog) (sockets : SocketSet)
    (handed : List Handout) : Prop where
  distinct : ((entries ports).map Prod.snd).Nodup
  holds : ∀ port ∈ ports, port.Holds slotCap sockets
  once : (handed.map Handout.serial).Nodup
  past : ∀ out ∈ handed, out.serial < sockets.added ∧ out.accepted.handle < slotCap ∧
    out.port = out.accepted.config.port
  apart : ∀ port ∈ ports, ∀ handle ∈ port.pending, ∀ mark, sockets.mark handle = some mark →
    ∀ out ∈ handed, mark.1 ≠ out.serial

theorem mem_entries {ports : List PortBacklog} {config : ListenerConfig} {handle : Nat} :
    (config, handle) ∈ entries ports ↔
      ∃ port ∈ ports, port.config = config ∧ handle ∈ port.pending := by
  simp only [entries, List.mem_flatMap, List.mem_map, Prod.mk.injEq]
  constructor
  · rintro ⟨port, member, handle', inPending, rfl, rfl⟩
    exact ⟨port, member, rfl, inPending⟩
  · rintro ⟨port, member, rfl, inPending⟩
    exact ⟨port, member, handle, inPending, rfl, rfl⟩

section

variable {slotCap : Nat} {ports : List PortBacklog} {sockets after : SocketSet}
  {handed : List Handout}

theorem Sound.thin (sound : Sound slotCap ports sockets handed) (keep : Nat → Bool)
    (kept : ∀ port ∈ ports, ∀ handle ∈ port.pending, keep handle = true →
      after.mark handle = sockets.mark handle)
    (later : sockets.added ≤ after.added) :
    Sound slotCap (ports.map (·.thin keep)) after handed where
  distinct := by
    have filtered : (entries (ports.map (·.thin keep))).map Prod.snd
        = ((entries ports).map Prod.snd).filter keep := by
      simp [entries, PortBacklog.thin, List.flatMap_map, List.map_flatMap, List.filter_flatMap,
        Function.comp_def]
    rw [filtered]
    exact sound.distinct.filter _
  holds := by
    refine List.forall_mem_map.mpr fun port member => ?_
    have holds := sound.holds port member
    refine ⟨holds.listens, (List.length_filter_le _ _).trans holds.fits, ?_, ?_, ?_⟩
    · intro handle pending
      exact holds.below handle (List.mem_of_mem_filter pending)
    · intro handle pending
      obtain ⟨inPort, stays⟩ := List.mem_filter.mp pending
      rw [kept port member handle inPort stays]
      exact holds.own handle inPort
    · refine (holds.inOrder.filter _).imp_of_mem fun inFirst inSecond ordered => ?_
      obtain ⟨inPort, stays⟩ := List.mem_filter.mp inFirst
      obtain ⟨inPortToo, staysToo⟩ := List.mem_filter.mp inSecond
      rw [kept port member _ inPort stays, kept port member _ inPortToo staysToo]
      exact ordered
  once := sound.once
  past out member := by
    have past := sound.past out member
    exact ⟨by omega, past.2⟩
  apart := by
    refine List.forall_mem_map.mpr fun port member handle pending => ?_
    obtain ⟨inPort, stays⟩ := List.mem_filter.mp pending
    rw [kept port member handle inPort stays]
    exact sound.apart port member handle inPort

theorem Sound.frame (sound : Sound slotCap ports sockets handed)
    (kept : ∀ port ∈ ports, ∀ handle ∈ port.pending, after.mark handle = sockets.mark handle)
    (later : sockets.added ≤ after.added) : Sound slotCap ports after handed := by
  have thinned := sound.thin (fun _ => true) (fun port member handle pending _ =>
    kept port member handle pending) later
  simpa [PortBacklog.thin] using thinned

theorem Sound.taken (sound : Sound slotCap ports sockets handed) {port : PortBacklog}
    (member : port ∈ ports) {handle : Nat} (pending : handle ∈ port.pending) :
    sockets.slot handle ≠ none := by
  intro free
  obtain ⟨serial, marked⟩ := (sound.holds port member).own handle pending
  simp [SocketSet.mark, free] at marked

theorem Sound.add (sound : Sound slotCap ports sockets handed) (socket : Socket) :
    Sound slotCap ports (sockets.add socket).2 handed := by
  refine sound.frame (fun port member handle pending => ?_) (Nat.le_succ _)
  have other : handle ≠ sockets.lowest := by
    rintro rfl
    exact sound.taken member pending sockets.slot_lowest
  rw [SocketSet.mark, SocketSet.slot_add, Function.update_of_ne other, SocketSet.mark]

theorem Sound.freeSlotBelow (sound : Sound slotCap ports sockets handed) (cap : Nat) :
    Sound slotCap ports (sockets.freeSlotBelow cap).2 handed :=
  sound.frame (fun _ _ _ _ => by rw [SocketSet.mark, SocketSet.slot_freeSlotBelow, SocketSet.mark])
    (Nat.le_succ _)

theorem Sound.opens {front back : List PortBacklog} {port : PortBacklog} {socket : Socket}
    (sound : Sound slotCap (front ++ port :: back) sockets handed)
    (room : port.pending.length < port.depth) (free : sockets.lowest < slotCap)
    (bound : socket.listenPort = port.config.port) :
    Sound slotCap (front ++ { port with pending := port.pending ++ [sockets.lowest] } :: back)
      (sockets.add socket).2 handed := by
  have still := sound.add socket
  have holds := still.holds port (by simp)
  have marked : (sockets.add socket).2.mark sockets.lowest
      = some (sockets.added, socket.listenPort) := by
    rw [SocketSet.mark, SocketSet.slot_add, Function.update_self]
    rfl
  have older : ∀ handle mark, handle ∈ port.pending → (sockets.add socket).2.mark handle = some mark →
      mark.1 < sockets.added := by
    intro handle mark pending found
    have other : handle ≠ sockets.lowest := by
      rintro rfl
      exact sound.taken (by simp) pending sockets.slot_lowest
    rw [SocketSet.mark, SocketSet.slot_add, Function.update_of_ne other] at found
    obtain ⟨item, inSlot, rfl⟩ := Option.map_eq_some_iff.mp found
    exact sockets.young handle item inSlot
  constructor
  case distinct =>
    have new : sockets.lowest ∉ (entries (front ++ port :: back)).map Prod.snd := by
      intro member
      obtain ⟨⟨config, handle⟩, inEntries, rfl⟩ := List.mem_map.mp member
      obtain ⟨owner, ownerIn, -, pending⟩ := mem_entries.mp inEntries
      exact sound.taken ownerIn pending sockets.slot_lowest
    have nodup := List.nodup_cons.mpr ⟨new, sound.distinct⟩
    refine (List.Perm.nodup_iff ?_).mp nodup
    simp only [entries, List.flatMap_append, List.flatMap_cons, List.map_append, List.map_map,
      List.map_cons, List.map_nil, List.append_assoc, List.cons_append, List.nil_append]
    rw [← List.append_assoc, ← List.append_assoc]
    exact List.perm_middle.symm
  case holds =>
    have others := still.holds
    simp only [List.forall_mem_append, List.forall_mem_cons] at others ⊢
    refine ⟨others.1, ⟨holds.listens, by simpa using room, ?_, ?_, ?_⟩, others.2.2⟩
    · exact List.forall_mem_append.mpr ⟨holds.below, by simpa using free⟩
    · exact List.forall_mem_append.mpr ⟨holds.own, by simp [marked, bound]⟩
    · refine List.pairwise_append.mpr ⟨holds.inOrder, List.pairwise_singleton _ _, ?_⟩
      intro first old second new one other foundFirst foundSecond
      rw [List.mem_singleton.mp new, marked, Option.some.injEq] at foundSecond
      subst foundSecond
      exact older first one old foundFirst
  case once => exact still.once
  case past => exact still.past
  case apart =>
    have others := still.apart
    simp only [List.forall_mem_append, List.forall_mem_cons] at others ⊢
    refine ⟨others.1, ⟨others.2.1, ?_⟩, others.2.2⟩
    -- The number of the new socket is higher than any handed out.
    simp only [marked, Option.some.injEq, List.not_mem_nil, false_implies, implies_true, and_true]
    rintro mark rfl out member
    exact Nat.ne_of_gt (sound.past out member).1

theorem Sound.topUpPass {front : List PortBacklog}
    (sound : Sound slotCap (front ++ ports) sockets handed) :
    Sound slotCap (front ++ (topUpPass slotCap ports sockets).ports)
      (topUpPass slotCap ports sockets).sockets handed := by
  fun_induction Dpdk.topUpPass slotCap ports sockets generalizing front with
  | case1 sockets => exact sound
  | case2 port rest sockets full ih =>
    have passed := @ih (front ++ [port]) (by simpa using sound)
    simpa [TopUp.cons] using passed
  | case3 port rest sockets short free socket listens added =>
    rename_i ih
    have bound : socket.listenPort = port.config.port := by
      simp only [ListenerConfig.listeningSocket] at listens
      split at listens <;> cases listens
      rfl
    have opened := (sound.freeSlotBelow slotCap).opens (by omega)
      (by rw [SocketSet.lowest_congr (sockets.slot_freeSlotBelow slotCap)]
          exact of_decide_eq_true free) bound
    have passed := @ih (front ++ [{ port with pending := port.pending ++ [added.1] }])
      (by rw [List.append_assoc]; exact opened)
    rw [List.append_assoc] at passed
    exact passed
  | case4 port rest sockets short free err refused ih =>
    have passed := @ih (front ++ [port]) (by simpa using sound.freeSlotBelow slotCap)
    simpa [TopUp.cons] using passed
  | case5 port rest sockets short isFull => exact sound.freeSlotBelow slotCap

theorem Sound.topUp (sound : Sound slotCap ports sockets handed) :
    Sound slotCap (topUp slotCap ports sockets).1 (topUp slotCap ports sockets).2 handed := by
  fun_induction Dpdk.topUp slotCap ports sockets with
  | case1 ports sockets done stops => exact @Sound.topUpPass _ _ _ _ [] sound
  | case2 ports sockets done goesOn ih => exact ih (@Sound.topUpPass _ _ _ _ [] sound)

def Stocked (slotCap : Nat) (ports : List PortBacklog) (sockets : SocketSet) : Prop :=
  (∀ port ∈ ports, port.depth ≤ port.pending.length) ∨
    ∀ handle < slotCap, sockets.slot handle ≠ none

theorem topUpPass_ends (listens : ∀ port ∈ ports, port.config.port ≠ 0) :
    ((topUpPass slotCap ports sockets).full = true → ∀ handle < slotCap,
      (topUpPass slotCap ports sockets).sockets.slot handle ≠ none) ∧
    ((topUpPass slotCap ports sockets).full = false →
      (topUpPass slotCap ports sockets).opened = false →
      ∀ port ∈ (topUpPass slotCap ports sockets).ports, port.depth ≤ port.pending.length) := by
  fun_induction Dpdk.topUpPass slotCap ports sockets with
  | case1 sockets => simp
  | case2 port rest sockets full ih =>
    obtain ⟨whenFull, whenStocked⟩ := ih fun other member => listens other (by simp [member])
    exact ⟨whenFull, fun room none => List.forall_mem_cons.mpr ⟨full, whenStocked room none⟩⟩
  | case3 port rest sockets short free socket listening added ih =>
    exact ⟨(ih fun other member => listens other (by simp [member])).1,
      fun _ opened => Bool.noConfusion opened⟩
  | case4 port rest sockets short free err refused ih =>
    simp [ListenerConfig.listeningSocket, listens port (by simp)] at refused
  | case5 port rest sockets short isFull =>
    refine ⟨fun _ handle below free => isFull (decide_eq_true ?_), by simp⟩
    rw [SocketSet.slot_freeSlotBelow] at free
    exact Nat.lt_of_le_of_lt (SocketSet.lowest_le free) below

theorem Sound.stocked_topUp (sound : Sound slotCap ports sockets handed) :
    Stocked slotCap (Dpdk.topUp slotCap ports sockets).1 (Dpdk.topUp slotCap ports sockets).2 := by
  fun_induction Dpdk.topUp slotCap ports sockets with
  | case1 ports sockets done stops =>
    obtain ⟨whenFull, whenStocked⟩ := topUpPass_ends fun port member => (sound.holds port member).listens
    cases full : done.full with
    | true => exact .inr (whenFull full)
    | false => exact .inl (whenStocked full (by simpa [full] using stops))
  | case2 ports sockets done goesOn ih => exact ih (@Sound.topUpPass _ _ _ _ [] sound)

def waits (sockets : SocketSet) (handle : Nat) : Bool :=
  (sockets.slot handle).any fun item => item.socket.state.isWaiting

def due (sockets : SocketSet) (entry : ListenerConfig × Nat) : Option Handout :=
  (sockets.slot entry.2).bind fun item =>
    if item.socket.state.isOpen then
      item.socket.remote.map fun peer => ⟨item.serial, item.port, ⟨entry.2, peer, entry.1⟩⟩
    else none

/-- A scan of a port keeps the waiting sockets, makes the calls due, and leaves alone every slot but
those of the other pending sockets. -/
structure Scanned (config : ListenerConfig) (pending : List Nat) (sockets : SocketSet)
    (scan : Scan) : Prop where
  waiting : scan.pending = pending.filter (waits sockets)
  calls : scan.handed = pending.filterMap fun handle => due sockets (config, handle)
  added : scan.sockets.added = sockets.added
  frame : ∀ handle, handle ∉ pending ∨ waits sockets handle = true →
    scan.sockets.slot handle = sockets.slot handle

theorem Scanned.cons {config : ListenerConfig} {handle : Nat} {rest : List Nat} {scan : Scan}
    (scanned : Scanned config rest after scan) (first : handle ∉ rest)
    (same : ∀ other, other ≠ handle ∨ waits sockets handle = true →
      after.slot other = sockets.slot other)
    (added : after.added = sockets.added) :
    Scanned config (handle :: rest) sockets
      { pending := if waits sockets handle then handle :: scan.pending else scan.pending
        sockets := scan.sockets
        handed := (due sockets (config, handle)).toList ++ scan.handed } where
  waiting := by
    have rest : rest.filter (waits after) = rest.filter (waits sockets) := by
      refine List.filter_congr fun other member => ?_
      rw [waits, same other (.inl (ne_of_mem_of_not_mem member first)), waits]
    rw [List.filter_cons, scanned.waiting, rest]
  calls := by
    have rest : (rest.filterMap fun other => due after (config, other))
        = rest.filterMap fun other => due sockets (config, other) := by
      refine List.filterMap_congr fun other member => ?_
      rw [due, same other (.inl (ne_of_mem_of_not_mem member first)), due]
    rw [scanned.calls, rest, List.filterMap_cons]
    cases due sockets (config, handle) <;> rfl
  added := scanned.added.trans added
  frame other reason := by
    have unchanged : after.slot other = sockets.slot other := by
      refine same other ?_
      by_cases itself : other = handle
      · subst itself
        exact .inr (reason.resolve_left (by simp))
      · exact .inl itself
    rw [scanned.frame other ?_, unchanged]
    rw [waits, unchanged]
    exact reason.imp_left fun absent member => absent (List.mem_cons_of_mem _ member)

theorem scanPort_scanned (config : ListenerConfig) (onAccept : Accepted → Socket → Socket)
    {pending : List Nat} (distinct : pending.Nodup) :
    Scanned config pending sockets (scanPort config onAccept pending sockets) := by
  induction pending generalizing sockets with
  | nil => exact ⟨rfl, rfl, rfl, fun _ _ => rfl⟩
  | cons handle rest ih =>
    obtain ⟨first, distinct⟩ := List.nodup_cons.mp distinct
    rw [scanPort]
    cases found : sockets.slot handle with
    | none =>
      have scanned := (@ih sockets distinct).cons first (fun _ _ => rfl) rfl
      simpa [waits, due, found] using scanned
    | some item =>
      dsimp only
      split
      case isTrue waiting =>
        have shut : item.socket.state.isOpen = false := by
          cases state : item.socket.state <;> simp_all [TcpState.isOpen, TcpState.isWaiting]
        have scanned := (@ih sockets distinct).cons first (fun _ _ => rfl) rfl
        simpa [waits, due, found, waiting, shut] using scanned
      case isFalse gone =>
        have notWaiting : waits sockets handle = false := by simpa [waits, found] using gone
        have dueEq : due sockets (config, handle) =
            (if item.socket.state.isOpen then item.socket.remote else none).map fun peer =>
              ⟨item.serial, item.port, ⟨handle, peer, config⟩⟩ := by
          rw [due, found, Option.bind_some]
          split <;> rfl
        split
        case h_1 noPeer =>
          have same : ∀ other, other ≠ handle ∨ waits sockets handle = true →
              (sockets.remove handle).slot other = sockets.slot other := by
            intro other reason
            rw [SocketSet.slot_remove, if_neg (by simpa [notWaiting] using reason)]
          simpa [notWaiting, dueEq, noPeer] using (ih distinct).cons first same rfl
        case h_2 peer found =>
          have same : ∀ content other, other ≠ handle ∨ waits sockets handle = true →
              (sockets.put handle content).slot other = sockets.slot other := by
            intro content other reason
            exact SocketSet.slot_put_of_ne (by simpa [notWaiting] using reason)
          simpa [notWaiting, dueEq, found] using (ih distinct).cons first (same (onAccept _ _)) rfl

theorem scanPorts_eq (onAccept : Accepted → Socket → Socket)
    (distinct : ((entries ports).map Prod.snd).Nodup) :
    (scanPorts onAccept ports sockets).1 = ports.map (·.thin (waits sockets)) ∧
    (scanPorts onAccept ports sockets).2.2 = (entries ports).filterMap (due sockets) ∧
    (scanPorts onAccept ports sockets).2.1.added = sockets.added ∧
    ∀ handle, handle ∉ (entries ports).map Prod.snd ∨ waits sockets handle = true →
      (scanPorts onAccept ports sockets).2.1.slot handle = sockets.slot handle := by
  induction ports generalizing sockets with
  | nil => exact ⟨rfl, rfl, rfl, fun _ _ => rfl⟩
  | cons port rest ih =>
    have split : (entries (port :: rest)).map Prod.snd
        = port.pending ++ (entries rest).map Prod.snd := by
      simp [entries, Function.comp_def]
    rw [split] at distinct
    obtain ⟨own, others, disjoint⟩ := List.nodup_append.mp distinct
    have scanned := @scanPort_scanned sockets port.config onAccept port.pending own
    rw [scanPorts]
    generalize scanPort port.config onAccept port.pending sockets = scan at scanned ⊢
    obtain ⟨thinnedEq, calls, added, frame⟩ := @ih scan.sockets others
    -- The scan of this port leaves the sockets of the ports behind it alone.
    have untouched : ∀ entry ∈ entries rest, scan.sockets.slot entry.2 = sockets.slot entry.2 :=
      fun entry member => scanned.frame entry.2
        (.inl fun mine => disjoint _ mine _ (List.mem_map_of_mem member) rfl)
    have mapEq : rest.map (·.thin (waits scan.sockets)) = rest.map (·.thin (waits sockets)) := by
      refine List.map_congr_left fun other member => ?_
      have same : other.pending.filter (waits scan.sockets) = other.pending.filter (waits sockets) :=
        List.filter_congr fun handle pending => by
          rw [waits, untouched (other.config, handle) (mem_entries.mpr ⟨other, member, rfl, pending⟩),
            waits]
      rw [PortBacklog.thin, same, PortBacklog.thin]
    have callsEq : (entries rest).filterMap (due scan.sockets) = (entries rest).filterMap (due sockets) :=
      List.filterMap_congr fun entry member => by rw [due, untouched entry member, due]
    refine ⟨?_, ?_, added.trans scanned.added, ?_⟩
    · rw [thinnedEq, mapEq, scanned.waiting, List.map_cons, PortBacklog.thin]
    · rw [calls, callsEq, scanned.calls]
      simp [entries, List.filterMap_append, List.filterMap_map]
    · intro handle reason
      rw [split, List.mem_append, not_or] at reason
      have first := scanned.frame handle (reason.imp_left And.left)
      refine (frame handle ?_).trans first
      rw [waits, first]
      exact reason.imp_left And.right

theorem due_eq_some {entry : ListenerConfig × Nat} {out : Handout}
    (isDue : due sockets entry = some out) :
    ∃ item, sockets.slot entry.2 = some item ∧ item.socket.state.isOpen = true ∧
      out.serial = item.serial ∧ out.port = item.port ∧ out.accepted.handle = entry.2 ∧
      out.accepted.config = entry.1 := by
  obtain ⟨item, found, called⟩ := Option.bind_eq_some_iff.mp isDue
  split at called
  case isTrue isOpen =>
    obtain ⟨peer, -, rfl⟩ := Option.map_eq_some_iff.mp called
    exact ⟨item, found, isOpen, rfl, rfl, rfl, rfl⟩
  case isFalse => cases called

/-- A scan keeps what holds, with the calls that were due behind those made before. -/
theorem Sound.scan (sound : Sound slotCap ports sockets handed)
    (onAccept : Accepted → Socket → Socket) :
    Sound slotCap (scanPorts onAccept ports sockets).1 (scanPorts onAccept ports sockets).2.1
      (handed ++ (entries ports).filterMap (due sockets)) := by
  obtain ⟨portsEq, -, addedEq, frame⟩ := @scanPorts_eq ports sockets onAccept sound.distinct
  generalize (scanPorts onAccept ports sockets).2.1 = scanned at addedEq frame ⊢
  rw [portsEq]
  have called : ∀ out ∈ (entries ports).filterMap (due sockets), ∃ port ∈ ports,
      out.accepted.handle ∈ port.pending ∧ out.accepted.config = port.config ∧
      ∃ item, sockets.slot out.accepted.handle = some item ∧ item.socket.state.isOpen = true ∧
        out.serial = item.serial ∧ out.port = item.port := by
    intro out member
    obtain ⟨⟨config, handle⟩, inEntries, isDue⟩ := List.mem_filterMap.mp member
    obtain ⟨item, found, isOpen, serial, port, rfl, rfl⟩ := due_eq_some isDue
    obtain ⟨owner, ownerIn, configEq, pending⟩ := mem_entries.mp inEntries
    exact ⟨owner, ownerIn, pending, configEq.symm, item, found, isOpen, serial, port⟩
  refine { sound.thin (waits sockets) (fun _ _ handle _ waiting => ?_) addedEq.ge with
    once := ?_, past := ?_, apart := ?_ }
  case refine_1 => rw [SocketSet.mark, frame handle (.inr waiting), SocketSet.mark]
  case refine_2 =>
    rw [List.map_append, List.nodup_append]
    refine ⟨sound.once, ?_, ?_⟩
    · -- Two calls for one number would be for one slot, and every slot is pending once.
      rw [List.Nodup, List.pairwise_map, List.pairwise_filterMap]
      refine (List.pairwise_map.mp sound.distinct).imp fun other one isDue two isDueToo same => ?_
      obtain ⟨item, found, -, serial, -⟩ := due_eq_some isDue
      obtain ⟨item', found', -, serial', -⟩ := due_eq_some isDueToo
      exact other (sockets.unique _ _ _ _ found found' (by rw [← serial, ← serial', same]))
    · intro earlier inEarlier later inLater same
      obtain ⟨old, oldIn, rfl⟩ := List.mem_map.mp inEarlier
      obtain ⟨new, newIn, rfl⟩ := List.mem_map.mp inLater
      obtain ⟨port, portIn, pending, -, item, found, -, serial, -⟩ := called new newIn
      exact sound.apart port portIn _ pending _ (SocketSet.mark_eq found) old oldIn (by rw [same, serial])
  case refine_3 =>
    rw [addedEq]
    refine List.forall_mem_append.mpr ⟨sound.past, fun out member => ?_⟩
    obtain ⟨port, portIn, pending, configEq, item, found, -, serial, portEq⟩ := called out member
    obtain ⟨_, own⟩ := (sound.holds port portIn).own _ pending
    rw [SocketSet.mark_eq found, Option.some.injEq, Prod.mk.injEq] at own
    exact ⟨by rw [serial]; exact sockets.young _ _ found, (sound.holds port portIn).below _ pending,
      by rw [portEq, own.2, configEq]⟩
  case refine_4 =>
    refine List.forall_mem_map.mpr fun port portIn handle pending mark found => ?_
    obtain ⟨waited, waiting⟩ := List.mem_filter.mp pending
    rw [SocketSet.mark, frame handle (.inr waiting), ← SocketSet.mark] at found
    refine List.forall_mem_append.mpr ⟨sound.apart port portIn handle waited mark found, ?_⟩
    intro out outIn same
    obtain ⟨-, -, -, -, item, inSlot, isOpen, serial, -⟩ := called out outIn
    obtain ⟨other, otherIn, rfl⟩ := Option.map_eq_some_iff.mp found
    -- The socket still waits, so it is not the one that was handed out.
    have slotEq := sockets.unique _ _ _ _ otherIn inSlot (same.trans serial)
    rw [slotEq, waits, inSlot] at waiting
    cases state : item.socket.state <;>
      simp_all [TcpState.isOpen, TcpState.isWaiting]

end

structure Backlog where
  listeners : Listeners
  sockets : SocketSet
  handed : List Handout

/-- What happens around a backlog. -/
inductive Act
  | add (config : ListenerConfig)
  | accept (onAccept : Accepted → Socket → Socket)
  | stack (moves : Nat → Socket → Socket)
  | dial (socket : Socket)
  /-- The transport removes a socket that is not pending. -/
  | remove (handle : Nat)

namespace Backlog

def step : Act → Backlog → Option Backlog
  | .add config, backlog =>
    match backlog.listeners.add backlog.sockets config with
    | .ok (listeners, sockets) => some { backlog with listeners, sockets }
    | .error _ => some backlog
  | .accept onAccept, backlog =>
    let done := backlog.listeners.accept backlog.sockets onAccept
    some { listeners := done.1, sockets := done.2.1, handed := backlog.handed ++ done.2.2 }
  | .stack moves, backlog =>
    let sockets := backlog.sockets.change fun handle socket => some (moves handle socket)
    some { backlog with sockets }
  | .dial socket, backlog => some { backlog with sockets := (backlog.sockets.add socket).2 }
  | .remove handle, backlog =>
    if ∃ port ∈ backlog.listeners.ports, handle ∈ port.pending then none
    else some { backlog with sockets := backlog.sockets.remove handle }

variable {slotCap : Nat} {before after : Backlog}

def Keeps (slotCap : Nat) (backlog : Backlog) : Prop :=
  backlog.listeners.slotCap = slotCap ∧
    Sound slotCap backlog.listeners.ports backlog.sockets backlog.handed

theorem sound_listen {ports : List PortBacklog} {sockets : SocketSet} {handed : List Handout}
    (sound : Sound slotCap ports sockets handed) {config : ListenerConfig} (depth : Nat)
    (addressable : config.port ≠ 0) :
    Sound slotCap (ports ++ [{ config, depth, pending := [] }]) sockets handed where
  distinct := by simpa [entries] using sound.distinct
  holds := List.forall_mem_append.mpr ⟨sound.holds, List.forall_mem_singleton.mpr
    ⟨addressable, Nat.zero_le _, by simp, by simp, List.Pairwise.nil⟩⟩
  once := sound.once
  past := sound.past
  apart := List.forall_mem_append.mpr ⟨sound.apart, by simp⟩

theorem keeps_add (keeps : before.Keeps slotCap) {config : ListenerConfig}
    (stepped : step (.add config) before = some after) : after.Keeps slotCap := by
  obtain ⟨capEq, sound⟩ := keeps
  rw [step, Listeners.add, Listeners.addWithDepth, capEq] at stepped
  have deep : 0 < listenBacklog config.rxBufSize config.txBufSize :=
    Nat.lt_of_lt_of_le (by decide : 0 < minListenBacklog) (Nat.le_max_left _ _)
  split at stepped
  case h_2 =>
    cases stepped
    exact ⟨capEq, sound⟩
  case h_1 listeners sockets added =>
    cases stepped
    split at added
    · cases added
    split at added
    · cases added
    rename_i first listens
    cases added
    have addressable : config.port ≠ 0 ∧ first.listenPort = config.port := by
      simp only [ListenerConfig.listeningSocket] at listens
      split at listens <;> cases listens
      exact ⟨‹_›, rfl⟩
    have listening := sound_listen (sound.freeSlotBelow slotCap)
      (listenBacklog config.rxBufSize config.txBufSize) addressable.1
    refine ⟨rfl, ?_⟩
    dsimp only
    split
    case isTrue free =>
      refine (listening.opens deep ?_ addressable.2).topUp
      rw [SocketSet.lowest_congr (before.sockets.slot_freeSlotBelow slotCap)]
      exact of_decide_eq_true free
    case isFalse => exact listening.topUp

theorem keeps_step (act : Act) (keeps : before.Keeps slotCap)
    (stepped : step act before = some after) : after.Keeps slotCap := by
  cases act with
  | add config => exact keeps_add keeps stepped
  | accept onAccept =>
    obtain ⟨capEq, sound⟩ := keeps
    cases stepped
    refine ⟨capEq, ?_⟩
    have scanned := sound.scan onAccept
    rw [← (scanPorts_eq onAccept sound.distinct).2.1] at scanned
    rw [← capEq] at scanned ⊢
    exact scanned.topUp
  | stack moves =>
    cases stepped
    exact ⟨keeps.1, keeps.2.frame (fun _ _ _ _ => SocketSet.mark_change _ _ _) (Nat.le_refl _)⟩
  | dial socket =>
    cases stepped
    exact ⟨keeps.1, keeps.2.add socket⟩
  | remove handle =>
    rw [step] at stepped
    split at stepped <;> cases stepped
    rename_i notPending
    refine ⟨keeps.1, keeps.2.frame (fun port member other pending => ?_) (Nat.le_refl _)⟩
    rw [SocketSet.mark, SocketSet.slot_remove, if_neg, SocketSet.mark]
    rintro rfl
    exact notPending ⟨port, member, pending⟩

/-- Along every run, each socket is handed out at most once, below the cap and under its own port; no
handle is pending twice, or while the socket handed out with it is still there; no port holds more
than its depth. An accept hands out exactly the pending sockets that are open, port by port and in
the order they were opened, and leaves every port with its backlog or no slot free. -/
theorem backlog_hands_out_once (slotCap : Nat) (sockets : SocketSet) {acts : List Act}
    {last : Backlog} (ran : runActs step acts ⟨.new slotCap, sockets, []⟩ = some last) :
    (last.handed.map Handout.serial).Nodup ∧
    (∀ out ∈ last.handed, out.accepted.handle < slotCap ∧ out.port = out.accepted.config.port) ∧
    ((entries last.listeners.ports).map Prod.snd).Nodup ∧
    (∀ port ∈ last.listeners.ports, ∀ handle ∈ port.pending,
      ∃ item, last.sockets.slot handle = some item ∧ ∀ out ∈ last.handed, item.serial ≠ out.serial) ∧
    (∀ port ∈ last.listeners.ports, port.pending.length ≤ port.depth) ∧
    ∀ onAccept after, step (.accept onAccept) last = some after →
      after.handed = last.handed ++ (entries last.listeners.ports).filterMap (due last.sockets) ∧
      (∀ port ∈ last.listeners.ports, ∀ handle ∈ port.pending, ∀ item,
        last.sockets.slot handle = some item → item.socket.state.isOpen = true →
        ∃ out, due last.sockets (port.config, handle) = some out) ∧
      (∀ port ∈ last.listeners.ports, port.pending.Pairwise fun first second => ∀ one other,
        last.sockets.slot first = some one → last.sockets.slot second = some other →
        one.serial < other.serial) ∧
      ((∀ port ∈ after.listeners.ports, port.pending.length = port.depth) ∨
        ∀ handle < slotCap, after.sockets.slot handle ≠ none) := by
  have keeps : last.Keeps slotCap := by
    refine runActs_keeps step (P := fun backlog : Backlog => backlog.Keeps slotCap)
      (fun act _ before after stepped keeps => keeps_step act keeps stepped) ran ⟨rfl, ?_⟩
    constructor <;> simp [Listeners.new, entries]
  obtain ⟨capEq, sound⟩ := keeps
  refine ⟨sound.once, fun out member => (sound.past out member).2, sound.distinct, ?_,
    fun port member => (sound.holds port member).fits, ?_⟩
  · intro port member handle pending
    obtain ⟨serial, marked⟩ := (sound.holds port member).own handle pending
    obtain ⟨item, found, markEq⟩ := Option.map_eq_some_iff.mp marked
    exact ⟨item, found, sound.apart port member handle pending _ (SocketSet.mark_eq found)⟩
  intro onAccept after stepped
  have afterSound := (keeps_step _ ⟨capEq, sound⟩ stepped).2
  cases stepped
  refine ⟨by rw [← (scanPorts_eq onAccept sound.distinct).2.1]; rfl, ?_, ?_, ?_⟩
  · intro port member handle pending item found isOpen
    obtain ⟨peer, remote⟩ := Option.isSome_iff_exists.mp (item.socket.peer isOpen)
    exact ⟨_, by rw [due, found, Option.bind_some, if_pos isOpen, remote, Option.map_some]⟩
  · intro port member
    refine (sound.holds port member).inOrder.imp fun ordered one other foundOne foundOther => ?_
    exact ordered _ _ (SocketSet.mark_eq foundOne) (SocketSet.mark_eq foundOther)
  · have stocked := (sound.scan onAccept).stocked_topUp
    rw [← capEq] at stocked afterSound ⊢
    exact stocked.imp_left fun full port member =>
      Nat.le_antisymm (afterSound.holds port member).fits (full port member)

def sampleListener : ListenerConfig :=
  { port := 80, rxBufSize := 524288, txBufSize := 524288, txQueueLimit := 16
    dispatchBurstLimit := 4 }

def noSockets : SocketSet where
  slot _ := none
  size := 0
  added := 0
  beyond _ _ := rfl
  young _ _ found := nomatch found
  unique _ _ _ _ found := nomatch found

def sampleActs : List Act :=
  [.add sampleListener,
    .stack fun handle socket =>
      if handle = 0 then
        { socket with state := .established, remote := some (1, 2), peer := fun _ => rfl }
      else socket,
    .accept fun _ socket => socket, .remove 0, .add { sampleListener with port := 81 }]

/-- A port's first socket is handed out, and its slot is used again. -/
theorem backlog_hands_out_once_sample : ∃ last,
    runActs step sampleActs ⟨.new 4, noSockets, []⟩ = some last ∧
    last.handed = [⟨1, 80, ⟨0, (1, 2), sampleListener⟩⟩] ∧
    last.listeners.ports.map PortBacklog.pending = [[1, 2], [0, 3]] ∧
    (∀ out ∈ last.handed, out.accepted.handle < 4 ∧ out.port = out.accepted.config.port) ∧
    ((entries last.listeners.ports).map Prod.snd).Nodup := by
  have ends : (runActs step sampleActs ⟨.new 4, noSockets, []⟩).map (fun last =>
      (last.handed, last.listeners.ports.map PortBacklog.pending))
      = some ([⟨1, 80, ⟨0, (1, 2), sampleListener⟩⟩], [[1, 2], [0, 3]]) := by decide +kernel
  obtain ⟨last, ran, lastEq⟩ := Option.map_eq_some_iff.mp ends
  rw [Prod.mk.injEq] at lastEq
  have holds := backlog_hands_out_once 4 noSockets ran
  exact ⟨last, ran, lastEq.1, lastEq.2, holds.2.1, holds.2.2.1⟩

end Backlog

end Melin.Dpdk
