import Mathlib

/-! The node transport's listening sockets: a backlog of them per port. -/

namespace Melin.Dpdk

inductive TcpState
  | closed
  | listen
  | synSent
  | synReceived
  | established
  | finWait1
  | finWait2
  | closeWait
  | closing
  | lastAck
  | timeWait
  deriving DecidableEq, Repr

def TcpState.isOpen : TcpState → Bool
  | .established | .closeWait => true
  | _ => false

def TcpState.isWaiting : TcpState → Bool
  | .listen | .synReceived => true
  | _ => false

/-- What of a socket the backlog reads and sets; an open one always has its peer. -/
structure Socket where
  state : TcpState
  listenPort : Nat
  /-- The peer's address and port. -/
  remote : Option (Nat × Nat)
  rxBufSize : Nat
  txBufSize : Nat
  timeout : Option Nat
  dispatchBurstLimit : Option Nat
  peer : state.isOpen = true → remote.isSome = true

def Socket.new (rxBufSize txBufSize : Nat) : Socket where
  state := .closed
  listenPort := 0
  remote := none
  rxBufSize
  txBufSize
  timeout := none
  dispatchBurstLimit := none
  peer := nofun

/-- A socket in its slot. The serial number tells it from every other the set has held, and the port
is the one it listened on when it was added; nothing the code does reads either. -/
structure Item where
  serial : Nat
  port : Nat
  socket : Socket

structure SocketSet where
  slot : Nat → Option Item
  size : Nat
  added : Nat
  beyond : ∀ handle, size ≤ handle → slot handle = none
  young : ∀ handle item, slot handle = some item → item.serial < added
  unique : ∀ first second one other, slot first = some one → slot second = some other →
    one.serial = other.serial → first = second

namespace SocketSet

def lowest (sockets : SocketSet) : Nat :=
  Nat.find (⟨sockets.size, by simp [sockets.beyond]⟩ : ∃ handle, (sockets.slot handle).isNone)

theorem slot_lowest (sockets : SocketSet) : sockets.slot sockets.lowest = none :=
  Option.isNone_iff_eq_none.mp (Nat.find_spec (p := fun handle => (sockets.slot handle).isNone) _)

theorem lowest_le {sockets : SocketSet} {handle : Nat} (free : sockets.slot handle = none) :
    sockets.lowest ≤ handle := Nat.find_min' _ (Option.isNone_iff_eq_none.mpr free)

def add (sockets : SocketSet) (socket : Socket) : Nat × SocketSet :=
  (sockets.lowest,
    { slot := Function.update sockets.slot sockets.lowest
        (some ⟨sockets.added, socket.listenPort, socket⟩)
      size := max sockets.size (sockets.lowest + 1)
      added := sockets.added + 1
      beyond := by
        intro handle far
        rw [Function.update_of_ne (by omega), sockets.beyond _ (by omega)]
      young := by
        intro handle item found
        have young := sockets.young handle item
        grind [Function.update_apply]
      unique := by
        -- Only the new item has the new number.
        intro first second one other foundFirst foundSecond same
        have youngFirst := sockets.young first one
        have youngSecond := sockets.young second other
        have unique := sockets.unique first second one other
        grind [Function.update_apply] })

/-- Change the sockets in their slots, or take some out: no item moves and none is new. -/
def change (sockets : SocketSet) (act : Nat → Socket → Option Socket) : SocketSet where
  slot handle := (sockets.slot handle).bind fun item =>
    (act handle item.socket).map fun socket => { item with socket }
  size := sockets.size
  added := sockets.added
  beyond := by
    intro handle far
    rw [sockets.beyond handle far, Option.bind_none]
  young := by
    intro handle item found
    obtain ⟨old, was, now⟩ := Option.bind_eq_some_iff.mp found
    obtain ⟨socket, -, rfl⟩ := Option.map_eq_some_iff.mp now
    exact sockets.young handle old was
  unique := by
    intro first second one other foundFirst foundSecond same
    obtain ⟨old, was, now⟩ := Option.bind_eq_some_iff.mp foundFirst
    obtain ⟨socket, -, rfl⟩ := Option.map_eq_some_iff.mp now
    obtain ⟨older, wasOther, nowOther⟩ := Option.bind_eq_some_iff.mp foundSecond
    obtain ⟨socket, -, rfl⟩ := Option.map_eq_some_iff.mp nowOther
    exact sockets.unique _ _ _ _ was wasOther same

def remove (sockets : SocketSet) (handle : Nat) : SocketSet :=
  sockets.change fun other socket => if other = handle then none else some socket

def put (sockets : SocketSet) (handle : Nat) (content : Socket) : SocketSet :=
  sockets.change fun other socket => some (if other = handle then content else socket)

def freeSlotBelow (sockets : SocketSet) (slotCap : Nat) : Bool × SocketSet :=
  let added := sockets.add (.new 0 0)
  (decide (added.1 < slotCap), added.2.remove added.1)

end SocketSet

def maxListenBacklog : Nat := 8

def minListenBacklog : Nat := 2

def listenBacklogBufferBudget : Nat := 1024 * 1024

def maxPorts : Nat := 2

def handshakeTimeout : Nat := 5000

def listenBacklog (rxBufSize txBufSize : Nat) : Nat :=
  let perSocket := max (min (rxBufSize + txBufSize) (2 ^ 64 - 1)) 1
  max minListenBacklog (min maxListenBacklog (listenBacklogBufferBudget / perSocket))

/-- What a port's accepted sockets get. -/
structure ListenerConfig where
  port : Nat
  rxBufSize : Nat
  txBufSize : Nat
  txQueueLimit : Nat
  dispatchBurstLimit : Nat
  deriving DecidableEq, Repr

/-- A fresh socket with a port's buffers, listening on it; a port of zero cannot be listened on. -/
def ListenerConfig.listeningSocket (config : ListenerConfig) : Except String Socket :=
  if config.port = 0 then .error "unaddressable"
  else .ok { Socket.new config.rxBufSize config.txBufSize with
    state := .listen, listenPort := config.port, timeout := some handshakeTimeout, peer := nofun }

structure Accepted where
  handle : Nat
  peer : Nat × Nat
  config : ListenerConfig
  deriving DecidableEq, Repr

/-- A connection handed out, with the number of its socket and the port that listened on. -/
structure Handout where
  serial : Nat
  port : Nat
  accepted : Accepted
  deriving DecidableEq, Repr

/-- One port's backlog: the sockets that have not been handed out, oldest first. -/
structure PortBacklog where
  config : ListenerConfig
  depth : Nat
  pending : List Nat
  deriving DecidableEq, Repr

def missing (ports : List PortBacklog) : Nat :=
  (ports.map fun port => port.depth - port.pending.length).sum

structure TopUp where
  ports : List PortBacklog
  sockets : SocketSet
  opened : Bool
  full : Bool

def TopUp.cons (port : PortBacklog) (opened : Bool) (done : TopUp) : TopUp :=
  { done with ports := port :: done.ports, opened := opened || done.opened }

def topUpPass (slotCap : Nat) : List PortBacklog → SocketSet → TopUp
  | [], sockets => { ports := [], sockets, opened := false, full := false }
  | port :: rest, sockets =>
    if port.depth ≤ port.pending.length then (topUpPass slotCap rest sockets).cons port false
    else if (sockets.freeSlotBelow slotCap).1 then
      match port.config.listeningSocket with
      | .ok socket =>
        let added := (sockets.freeSlotBelow slotCap).2.add socket
        (topUpPass slotCap rest added.2).cons { port with pending := port.pending ++ [added.1] } true
      | .error _ => (topUpPass slotCap rest (sockets.freeSlotBelow slotCap).2).cons port false
    else
      { ports := port :: rest, sockets := (sockets.freeSlotBelow slotCap).2, opened := false,
        full := true }

theorem missing_topUpPass (slotCap : Nat) (ports : List PortBacklog) (sockets : SocketSet) :
    missing (topUpPass slotCap ports sockets).ports
      + (topUpPass slotCap ports sockets).opened.toNat ≤ missing ports := by
  fun_induction topUpPass slotCap ports sockets with
  | case1 sockets => exact Nat.le_refl _
  | case2 port rest sockets full ih =>
    simp only [missing, TopUp.cons, List.map_cons, List.sum_cons, Bool.false_or] at ih ⊢
    omega
  | case3 port rest sockets short free socket listens added ih =>
    simp only [missing, TopUp.cons, List.map_cons, List.sum_cons, List.length_append,
      List.length_singleton, Bool.true_or, Bool.toNat_true] at ih ⊢
    omega
  | case4 port rest sockets short free err refused ih =>
    simp only [missing, TopUp.cons, List.map_cons, List.sum_cons, Bool.false_or] at ih ⊢
    omega
  | case5 port rest sockets short isFull => simp [missing]

def topUp (slotCap : Nat) (ports : List PortBacklog) (sockets : SocketSet) :
    List PortBacklog × SocketSet :=
  let done := topUpPass slotCap ports sockets
  if done.full || !done.opened then (done.ports, done.sockets)
  else topUp slotCap done.ports done.sockets
termination_by missing ports
decreasing_by
  rename_i more
  have fewer := missing_topUpPass slotCap ports sockets
  simp only [Bool.or_eq_true, Bool.not_eq_true', not_or, Bool.not_eq_false] at more
  rw [more.2, Bool.toNat_true] at fewer
  omega

/-- What a scan of a port's sockets came to: those left, and the calls made for the others. -/
structure Scan where
  pending : List Nat
  sockets : SocketSet
  handed : List Handout

/-- Hand out the sockets of a port whose handshake has completed, and drop those that failed. -/
def scanPort (config : ListenerConfig) (onAccept : Accepted → Socket → Socket) :
    List Nat → SocketSet → Scan
  | [], sockets => { pending := [], sockets, handed := [] }
  | handle :: rest, sockets =>
    match sockets.slot handle with
    | none => scanPort config onAccept rest sockets
    | some item =>
      if item.socket.state.isWaiting then
        let done := scanPort config onAccept rest sockets
        { done with pending := handle :: done.pending }
      else
        match if item.socket.state.isOpen then item.socket.remote else none with
        | none => scanPort config onAccept rest (sockets.remove handle)
        | some peer =>
          let accepted : Accepted := { handle, peer, config }
          let socket := onAccept accepted { item.socket with
            timeout := none, dispatchBurstLimit := some config.dispatchBurstLimit }
          let done := scanPort config onAccept rest (sockets.put handle socket)
          { done with handed := ⟨item.serial, item.port, accepted⟩ :: done.handed }

def scanPorts (onAccept : Accepted → Socket → Socket) :
    List PortBacklog → SocketSet → List PortBacklog × SocketSet × List Handout
  | [], sockets => ([], sockets, [])
  | port :: rest, sockets =>
    let scan := scanPort port.config onAccept port.pending sockets
    let done := scanPorts onAccept rest scan.sockets
    ({ port with pending := scan.pending } :: done.1, done.2.1, scan.handed ++ done.2.2)

structure Listeners where
  ports : List PortBacklog
  slotCap : Nat

namespace Listeners

def new (slotCap : Nat) : Listeners := { ports := [], slotCap }

def addWithDepth (listeners : Listeners) (sockets : SocketSet) (config : ListenerConfig)
    (depth : Nat) : Except String (Listeners × SocketSet) :=
  if maxPorts ≤ listeners.ports.length then
    .error ("TCP listen on port " ++ toString config.port ++
      ": the transport already listens on " ++ toString maxPorts ++ " ports")
  else
    match config.listeningSocket with
    | .error err => .error ("TCP listen on port " ++ toString config.port ++ " failed: " ++ err)
    | .ok first =>
      let probed := sockets.freeSlotBelow listeners.slotCap
      let port : PortBacklog := { config, depth, pending := [] }
      let opened :=
        if probed.1 then
          let added := probed.2.add first
          topUp listeners.slotCap (listeners.ports ++ [{ port with pending := [added.1] }]) added.2
        else topUp listeners.slotCap (listeners.ports ++ [port]) probed.2
      .ok ({ listeners with ports := opened.1 }, opened.2)

def add (listeners : Listeners) (sockets : SocketSet) (config : ListenerConfig) :
    Except String (Listeners × SocketSet) :=
  listeners.addWithDepth sockets config (listenBacklog config.rxBufSize config.txBufSize)

/-- Hand out every connection whose handshake has completed, and open fresh sockets. -/
def accept (listeners : Listeners) (sockets : SocketSet)
    (onAccept : Accepted → Socket → Socket) : Listeners × SocketSet × List Handout :=
  let scanned := scanPorts onAccept listeners.ports sockets
  let opened := topUp listeners.slotCap scanned.1 scanned.2.1
  ({ listeners with ports := opened.1 }, opened.2, scanned.2.2)

end Listeners

end Melin.Dpdk
