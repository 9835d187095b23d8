import Melin.App.Application
import Melin.Journal.CodecLaws

/-! The notary application: a rolling commitment to the digests submitted to it. -/

namespace Melin

open Lib

def kindNotarize : UInt8 := 0x10

def kindGetHead : UInt8 := 0x11

inductive NotaryEvent where
  | notarize (leaf : Digest)
  | getHead
  deriving DecidableEq

def leafFrom (bytes : Bytes) : Except CodecError Digest :=
  if short : bytes.length < 32 then .error .truncated
  else if long : bytes.length > 32 then .error .invalidField
  else .ok ⟨bytes, by omega⟩

instance : AppEvent NotaryEvent where
  maxEncodedSize := 33
  encodedSize
    | .notarize _ => 33
    | .getHead => 1
  encode
    | .notarize leaf => kindNotarize :: leaf.bytes
    | .getHead => [kindGetHead]
  decode
    | [] => .error .truncated
    | kind :: rest =>
      if kind = kindNotarize then (leafFrom rest).map .notarize
      else if kind = kindGetHead then .ok .getHead
      else .error (.unknownTag kind)
  isQuery
    | .getHead => true
    | .notarize _ => false

/-- The notary's codec keeps its word to the journal. -/
instance : LawfulAppEvent NotaryEvent where
  encode_length event := by
    cases event <;> simp [AppEvent.encode, AppEvent.encodedSize, Digest.width]
  encodedSize_le event := by
    cases event <;> simp [AppEvent.encodedSize, AppEvent.maxEncodedSize]
  decode_encode event := by
    cases event with
    | getHead => rfl
    | notarize leaf =>
      obtain ⟨bytes, width⟩ := leaf
      simp [AppEvent.decode, AppEvent.encode, leafFrom, width, Except.map]
  entrySize_le := by decide

inductive NotaryReport where
  /-- A leaf was folded in at a position. -/
  | receipt (entry : Nat) (timestampNs : UInt64) (prev head : Digest)
  /-- The runtime refused the event before it was applied. -/
  | rejected
  deriving DecidableEq

/-- The notary's state: the commitment, and how many leaves are folded into it. -/
structure Notary where
  head : Digest
  entries : Nat
  deriving DecidableEq

namespace Notary

def default : Notary := { head := .zero, entries := 0 }

def restore (bytes : Bytes) : Except IoError (Notary × Bytes) :=
  if short : bytes.length < 40 then .error ⟨.unexpectedEof, "failed to fill whole buffer"⟩
  else .ok ({ head := ⟨bytes.take 32, by rw [List.length_take]; omega⟩
              entries := leNat ((bytes.drop 32).take 8) }, bytes.drop 40)

variable [Hashing]

def fold (prev leaf : Digest) (timestampNs : UInt64) : Digest :=
  Hashing.blake3 (prev.bytes ++ leaf.bytes ++ leBytes 8 timestampNs.toNat)

def apply (notary : Notary) (event : NotaryEvent) (ctx : ApplyCtx) : Notary × List NotaryReport :=
  match event with
  | .notarize leaf =>
    let head := fold notary.head leaf ctx.nowNs
    let entries := min (notary.entries + 1) (2 ^ 64 - 1)
    ({ head, entries }, [.receipt entries ctx.nowNs notary.head head])
  | .getHead => (notary, [])

instance : Application Notary NotaryEvent NotaryReport where
  genesis := .default
  apply := apply
  -- The notary has no time-driven work.
  tick notary _ := (notary, [])
  snapshot notary := notary.head.bytes ++ leBytes 8 notary.entries
  restore := restore
  appVersion := 1

end Notary

end Melin
