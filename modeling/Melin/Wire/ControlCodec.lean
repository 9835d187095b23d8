import Melin.Ingress.ClientFrames
import Melin.Lib.Utf8

/-! The frames the transport itself answers with, and reading a refusal back. -/

namespace Melin

open Lib

def tagLen : Nat := 1

def requestIdLen : Nat := 8

def maxRefusalReason : Nat := 255

def challengeVersionLen : Nat := 2

def challengeNonceLen : Nat := 32

def clientProtocolVersion : Nat := 1

def maxControlFrameLen : Nat := prefixLen + tagLen + requestIdLen + 2 + maxRefusalReason

def tagResponseHeartbeat : UInt8 := 0x01

def tagBatchEnd : UInt8 := 0x02

def tagServerBusy : UInt8 := 0x04

def tagChallenge : UInt8 := 0x05

def tagAuthFailed : UInt8 := 0x07

def tagServerReady : UInt8 := 0x08

def tagBatchEndDegraded : UInt8 := 0x0A

def tagRefused : UInt8 := 0x0C

def RefusalKind.toByte : RefusalKind → UInt8
  | .permissionDenied => 1
  | .malformed => 2

def RefusalKind.fromByte (byte : UInt8) : Option RefusalKind :=
  if byte = 1 then some .permissionDenied else if byte = 2 then some .malformed else none

/-- The frames the transport encodes itself. -/
inductive TransportResponse where
  | heartbeat
  | batchEnd (id : Nat)
  | batchEndDegraded (id : Nat)
  | serverBusy (id : Nat)
  | refused (id : Nat) (kind : RefusalKind) (reason : String)
  | challenge (nonce : Digest)
  | authFailed
  | serverReady

def boundaryAtOrBefore (bytes : Bytes) : Nat → Nat
  | 0 => 0
  | index + 1 =>
    if isCharBoundary bytes (index + 1) then index + 1 else boundaryAtOrBefore bytes index

def truncateReason (reason : String) : Bytes :=
  let bytes := utf8Bytes reason
  if bytes.length ≤ maxRefusalReason then bytes
  else bytes.take (boundaryAtOrBefore bytes maxRefusalReason)

namespace TransportResponse

def tag : TransportResponse → UInt8
  | heartbeat => tagResponseHeartbeat
  | batchEnd _ => tagBatchEnd
  | batchEndDegraded _ => tagBatchEndDegraded
  | serverBusy _ => tagServerBusy
  | refused .. => tagRefused
  | challenge _ => tagChallenge
  | authFailed => tagAuthFailed
  | serverReady => tagServerReady

def body : TransportResponse → Bytes
  | heartbeat | authFailed | serverReady => []
  | batchEnd id | batchEndDegraded id | serverBusy id => leBytes requestIdLen id
  | refused id kind reason =>
    let reason := truncateReason reason
    leBytes requestIdLen id ++ [kind.toByte, UInt8.ofNat reason.length] ++ reason
  | challenge nonce => leBytes challengeVersionLen clientProtocolVersion ++ nonce.bytes

end TransportResponse

inductive ProtocolError where
  | truncated
  | messageTooLarge (len : Nat)
  deriving DecidableEq, Repr

/-- Encode a response at the front of a buffer: what is written, if the buffer holds it. -/
def encodeTransportResponse (response : TransportResponse) (room : Nat) :
    Except ProtocolError Bytes :=
  let needed := prefixLen + tagLen + response.body.length
  if room < needed then .error .truncated
  else .ok (leBytes prefixLen (tagLen + response.body.length) ++ [response.tag] ++ response.body)

structure Refused where
  id : Nat
  kind : RefusalKind
  reason : String
  deriving DecidableEq

inductive BadRefusal where
  | truncated
  | unknownKind (kind : UInt8)
  | reasonLength (declared available : Nat)
  | reasonNotUtf8
  deriving DecidableEq, Repr

def readId (payload : Bytes) : Option Nat :=
  if payload.length < tagLen + requestIdLen then none
  else some (leNat (slice payload tagLen requestIdLen))

def decodeRefused (payload : Bytes) : Except BadRefusal Refused :=
  match readId payload with
  | none => .error .truncated
  | some id =>
    match payload.drop (tagLen + requestIdLen) with
    | kindByte :: len :: reason =>
      match RefusalKind.fromByte kindByte with
      | none => .error (.unknownKind kindByte)
      | some kind =>
        if reason.length ≠ len.toNat then .error (.reasonLength len.toNat reason.length)
        else
          match fromUtf8 reason with
          | none => .error .reasonNotUtf8
          | some reason => .ok { id, kind, reason }
    | _ => .error .truncated

end Melin
