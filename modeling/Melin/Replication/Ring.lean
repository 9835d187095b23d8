import Melin.Replication.Protocol

/-! The rings that carry frames from the journal stage to the replication senders. -/

namespace Melin

open Lib

def replicationChunkSize : Nat := 512 * 1024

def replicationRingCapacity : Nat := 2 ^ 8

/-- A published frame, and the last sequence it covers. -/
structure ReplicationChunk where
  data : Bytes
  endSequence : Nat
  deriving DecidableEq

structure ReplicationRing where
  /-- Published and not yet released by the sender. -/
  chunks : List ReplicationChunk
  active : Bool
  evict : Bool

inductive SenderAct where
  | setActive (active : Bool)
  | setEvict (evict : Bool)
  /-- Release the oldest chunks. -/
  | commit (count : Nat)

namespace ReplicationRing

def act (ring : ReplicationRing) : SenderAct → ReplicationRing
  | .setActive active => { ring with active }
  | .setEvict evict => { ring with evict }
  | .commit count => { ring with chunks := ring.chunks.drop count }

/-- Publish a frame; a ring without room is given up, since a skipped frame would leave a gap. -/
def publish (ring : ReplicationRing) (data : Bytes) (endSequence : Nat) : ReplicationRing :=
  if !ring.active then ring
  else if ring.evict then ring
  else if ring.chunks.length < replicationRingCapacity then
    { ring with chunks := ring.chunks ++ [{ data, endSequence }] }
  else { ring with evict := true }

end ReplicationRing

end Melin
