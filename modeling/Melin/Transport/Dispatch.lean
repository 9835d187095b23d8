import Melin.App.Application
import Melin.Transport.Lineage

/-! The one path by which a journaled event reaches the application. -/

namespace Melin

/-- The latest time already handed to the application's tick by the clock step. -/
structure TickWatermark where
  nanos : UInt64
  deriving DecidableEq, Repr

def TickWatermark.genesis : TickWatermark := ⟨0⟩

structure Dispatched (A R : Type) where
  app : A
  watermark : TickWatermark
  lineage : Option LineageEvent
  reports : List R

section

variable {A E R : Type} [Application A E R]

/-- The clock step: a timestamp newer than the watermark fires the due work and advances it. -/
def clockStep (app : A) (nowNs : UInt64) (watermark : TickWatermark) :
    A × TickWatermark × List R :=
  if nowNs > watermark.nanos then
    let (app, reports) := Application.tick app nowNs
    (app, ⟨nowNs⟩, reports)
  else (app, watermark, [])

def dispatch (app : A) (event : JournalEvent E) (ctx : ApplyCtx) (watermark : TickWatermark) :
    Dispatched A R :=
  let (app, watermark, fired) := clockStep app ctx.nowNs watermark
  match event with
  | .app event =>
    let (app, reports) := Application.apply app event ctx
    { app, watermark, lineage := none, reports := fired ++ reports }
  | .tick nowNs =>
    let (app, reports) := Application.tick app nowNs
    { app, watermark, lineage := none, reports := fired ++ reports }
  | .epochBump epoch => { app, watermark, lineage := some (.epoch epoch), reports := fired }
  | .ackPolicyChange change =>
    { app, watermark, lineage := some (.ackPolicy change), reports := fired }
  | .shutdown => { app, watermark, lineage := none, reports := fired }

/-- What a node holds at a journal position: its application, its clock and its lineage. -/
structure NodeState (A : Type) where
  app : A
  watermark : TickWatermark
  lineage : Lineage

def NodeState.genesis (app : A) : NodeState A :=
  { app, watermark := .genesis, lineage := .genesis }

def NodeState.step (state : NodeState A) (entry : JournalEntry E) : NodeState A :=
  let dispatched := dispatch state.app entry.event
    { nowNs := entry.timestampNs, keyHash := entry.keyHash } state.watermark
  { app := dispatched.app
    watermark := dispatched.watermark
    lineage := match dispatched.lineage with
      | none => state.lineage
      | some event => state.lineage.observe entry.sequence event }

def NodeState.steps (state : NodeState A) (entries : List (JournalEntry E)) : NodeState A :=
  entries.foldl NodeState.step state

end

end Melin
