import Melin.Journal.Event

/-! The application abstraction: the state machine whose events the transport persists. -/

namespace Melin

open Lib

/-- What an event is applied under; both values are journaled with it. -/
structure ApplyCtx where
  nowNs : UInt64
  keyHash : UInt64
  deriving DecidableEq, Repr

/-- An operating-system failure an application's own reading reports. -/
structure IoError where
  kind : IoErrorKind
  message : String
  deriving DecidableEq, Repr

/-- A deterministic state machine over events, with the reports it answers them with. -/
class Application (A : Type) (E R : outParam Type) where
  genesis : A
  /-- Apply one event, and the reports it produced. -/
  apply : A → E → ApplyCtx → A × List R
  /-- Fire the scheduled work due at a time. -/
  tick : A → UInt64 → A × List R
  snapshot : A → Bytes
  /-- Read a state back, and the bytes left unread. -/
  restore : Bytes → Except IoError (A × Bytes)
  appVersion : UInt16

structure QueryCtx where
  /-- Highest sequence durably persisted. -/
  journalSequence : Nat
  activeConnections : Nat
  eventsProcessed : Nat
  keyHash : UInt64
  deriving DecidableEq, Repr

/-- An application's answers to read-only queries. -/
class QueryApplication (A : Type) (E Q : outParam Type) where
  query : A → E → QueryCtx → Option Q

class LawfulApplication (A : Type) {E R : outParam Type} [Application A E R] : Prop where
  /-- A snapshot is read back whole, to the state it was taken of. -/
  restore_snapshot : ∀ app : A, Application.restore (Application.snapshot app) = .ok (app, [])

end Melin
