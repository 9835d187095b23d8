import Melin.App.Application
import Melin.Examples.CounterEvent

/-! The counter application: one number, and increments that must fit it. -/

namespace Melin

open Lib

structure Counter where
  value : UInt64
  deriving DecidableEq, Repr

/-- The counter's answer to an increment. -/
inductive CounterReport where
  | ack (newValue : UInt64)
  | overflow (value : UInt64)
  deriving DecidableEq, Repr

def Counter.apply (counter : Counter) (event : CounterEvent) : Counter × List CounterReport :=
  match event with
  | .increment amount =>
    if counter.value.toNat + amount.toNat < 2 ^ 64 then
      ({ value := counter.value + amount }, [.ack (counter.value + amount)])
    else (counter, [.overflow counter.value])
  | .getValue => (counter, [])

def Counter.restore (bytes : Bytes) : Except IoError (Counter × Bytes) :=
  if bytes.length < 8 then .error ⟨.unexpectedEof, "failed to fill whole buffer"⟩
  else .ok ({ value := UInt64.ofNat (leNat (bytes.take 8)) }, bytes.drop 8)

instance : Application Counter CounterEvent CounterReport where
  genesis := { value := 0 }
  apply counter event _ := counter.apply event
  -- The counter has no time-driven work.
  tick counter _ := (counter, [])
  snapshot counter := leBytes 8 counter.value.toNat
  restore := Counter.restore
  appVersion := 1

structure CounterQuery where
  value : UInt64
  deriving DecidableEq, Repr

instance : QueryApplication Counter CounterEvent CounterQuery where
  query counter
    | .getValue, _ => some { value := counter.value }
    | .increment _, _ => none

instance : LawfulApplication Counter where
  restore_snapshot counter := by
    have width : (leBytes 8 counter.value.toNat).length = 8 := by simp
    have valueEq : leNat (leBytes 8 counter.value.toNat) = counter.value.toNat :=
      leNat_leBytes 8 _ counter.value.toNat_lt
    simp [Application.snapshot, Application.restore, Counter.restore, width, valueEq,
      List.take_of_length_le, List.drop_of_length_le]

end Melin
