import Melin.Lib.Bytes

/-! The journal's event model: what is journaled, under which codec, and how reading it fails. -/

namespace Melin

open Lib

/-- A 32-byte digest: a chain value, or the anchor a segment header records. -/
structure Digest where
  bytes : Bytes
  width : bytes.length = 32
  deriving DecidableEq

def Digest.zero : Digest := ⟨List.replicate 32 0, by simp⟩

/--
The two third-party hash functions the journal is built on.

Every result holds for any pair of functions, so nothing depends on how they are computed.
-/
class Hashing where
  crc32c : Bytes → UInt32
  /-- BLAKE3 over a byte string. -/
  blake3 : Bytes → Digest

/-- Codec failures an application's decoder reports. -/
inductive CodecError where
  /-- A variant tag this build does not know. -/
  | unknownTag (tag : UInt8)
  /-- The payload is shorter than the variant requires. -/
  | truncated
  /-- A field violates an invariant of its type. -/
  | invalidField
  deriving DecidableEq, Repr

class AppEvent (E : Type) where
  maxEncodedSize : Nat
  /-- Bytes `encode` writes for a value. -/
  encodedSize : E → Nat
  encode : E → Bytes
  /-- Read a value back from exactly its own payload. -/
  decode : Bytes → Except CodecError E
  /-- Queries bypass the journal. -/
  isQuery : E → Bool

/-- The policy's wire byte, carried opaquely. -/
structure AckPolicyByte where
  byte : UInt8
  deriving DecidableEq, Repr

structure AckPolicyChange where
  /-- The policy in force for the events after this entry. -/
  policy : AckPolicyByte
  /-- Applied without the nodes the previous policy relied on holding this entry. -/
  unwitnessed : Bool
  deriving DecidableEq, Repr

inductive JournalEvent (E : Type) where
  /-- The scheduler's clock. -/
  | tick (nowNs : UInt64)
  | epochBump (epoch : UInt64)
  | ackPolicyChange (change : AckPolicyChange)
  /-- The pipeline's stop sentinel, which is never journaled. -/
  | shutdown
  /-- An application event, opaque to the journal. -/
  | app (event : E)
  deriving DecidableEq, Repr

def JournalEvent.isQuery {E : Type} [AppEvent E] : JournalEvent E → Bool
  | .app event => AppEvent.isQuery event
  | .tick _ | .epochBump _ | .ackPolicyChange _ | .shutdown => false

def JournalEvent.isShutdown {E : Type} : JournalEvent E → Bool
  | .shutdown => true
  | .tick _ | .epochBump _ | .ackPolicyChange _ | .app _ => false

structure JournalEntry (E : Type) where
  sequence : Nat
  timestampNs : UInt64
  keyHash : UInt64
  event : JournalEvent E
  deriving DecidableEq, Repr

inductive SegmentPath where
  | live
  | archive (index : Nat)
  deriving DecidableEq, Repr

/-- The operating-system failures the modelled code can surface. -/
inductive IoErrorKind where
  | notFound
  | unexpectedEof
  | alreadyExists
  | invalidInput
  | invalidData
  | writeZero
  | other
  deriving DecidableEq, Repr

inductive JournalError where
  | io (kind : IoErrorKind) (message : String)
  | invalidFile
  | unsupportedVersion (version : Nat)
  | corruptEntry (sequence : Nat) (reason : String)
  | checksumMismatch (sequence : Nat) (expected actual : UInt32)
  | sequenceGap (expected actual : Nat)
  | sequenceDuplicate (sequence previousSeq : Nat)
  | truncatedEntry
  | segmentChainBreak (index : Nat) (expected actual : Digest)
  | replicaChainDivergence (sequence : Nat) (expected actual : Digest)
  | replicaSequenceMismatch (expected actual : Nat)
  | sequenceRegression (sequence lastEncoded : Nat)
  | unrecoverableTail (path : SegmentPath) (offset : Nat) (lastSequence : Option Nat)
      (nonzeroAt : Nat) (cause : Option JournalError)

end Melin
