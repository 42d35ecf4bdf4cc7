import MeshNumbering.Config.Basic
import MeshNumbering.Message.Basic
import MeshNumbering.Offsets
import MeshNumbering.Processor.Call

/-! What a processor knows while it takes part in a run. Data that lives only in some phases belongs
to the stage; what peers may send at any time is gathered beside it. One after the other, a stage
waits for the sizes of all parts of the mesh, for all node lists to be where they belong, for word
of who holds which node, for the new ids of all held nodes, for the rows to reach the processor, and
for the costs of all. -/

namespace MeshNumbering

/-- The place of a processor in a run and its instructions. A strategy given here replaces the one
the configuration names. -/
structure Seat where
  pe : Nat
  npes : Nat
  config : Config
  strategy : Option Strategy

structure Setup where
  chunk : Chunk
  centroids : Centroids

structure Shipping where
  shipment : Shipment
  -- The peers know that this processor has its receipts.
  announced : Bool

structure Indexed where
  layout : Layout
  nodes : NodeLists
  holdings : Holdings
  masks : RollCall Mask

structure Reordering where
  layout : Layout
  nodes : NodeLists
  sharing : Sharing
  numbering : Numbering

structure Bounding where
  layout : Layout
  numbering : Numbering
  -- The first of the own ids.
  base : Nat
  own : Nat
  relabelling : Relabelling
  upper : Nat

structure Costing where
  layout : Layout
  numbering : Numbering
  base : Nat
  own : Nat
  rows : RowRange
  cost : Float
  -- The peers know the deviation from the mean.
  announced : Bool

inductive Stage where
  | setup (s : Setup)
  | shipping (s : Shipping)
  | indexed (s : Indexed)
  | numbering (s : Reordering)
  | bounding (s : Bounding)
  | costing (s : Costing)
  | done (outcome : Outcome)

namespace Stage

def phase : Stage → Phase
  | setup _ => .setup
  | shipping _ => .shipping
  | indexed _ => .indexed
  | numbering _ => .numbering
  | bounding _ => .bounding
  | costing _ => .costing
  | done _ => .done

def numbering? : Stage → Option Numbering
  | numbering s => some s.numbering
  | bounding s => some s.numbering
  | costing s => some s.numbering
  | _ => none

def withNumbering (r : Numbering) : Stage → Stage
  | numbering s => numbering { s with numbering := r }
  | bounding s => bounding { s with numbering := r }
  | costing s => costing { s with numbering := r }
  | s => s

theorem phase_withNumbering {x : Stage} {r : Numbering} : (x.withNumbering r).phase = x.phase := by
  cases x <;> rfl

end Stage

structure State where
  seat : Seat
  stage : Stage
  loads : RollCall Nat
  distributed : RollCall Unit
  queries : RollCall Unit
  -- Held nodes, as long as some peer may still ask for them.
  serving : Option Holdings
  offsets : Offsets
  -- Where the rows of this processor begin.
  lower : Option Nat
  costs : CostSurvey
  -- Messages that came too early.
  backlog : List Message

namespace State

def start (seat : Seat) (s : Setup) : State where
  seat
  stage := .setup s
  loads := .start .load seat.npes
  distributed := .start .delivered seat.npes
  queries := .start .query seat.npes
  serving := none
  offsets := .start seat.pe seat.npes
  lower := none
  costs := .start seat.pe seat.npes
  backlog := []

def pe (s : State) : Nat := s.seat.pe

def npes (s : State) : Nat := s.seat.npes

def phase (s : State) : Phase := s.stage.phase

theorem with_stage {s : State} {x : Stage} (hst : s.stage = x) : { s with stage := x } = s := by
  rw [← hst]

end State
end MeshNumbering
