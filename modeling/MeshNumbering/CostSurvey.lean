import MeshNumbering.RollCall

/-! Statistics of the costs of all processors, in two rounds: the costs first, then the squared
deviations from their mean. Sums run in processor order, so all processors get the same bits. -/

namespace MeshNumbering

structure CostStatistics where
  mean : Float
  stddev : Float
  min : Float
  max : Float
deriving DecidableEq

structure CostSurvey where
  pe : Nat
  costs : RollCall Float
  deviations : RollCall Float
deriving DecidableEq

namespace CostSurvey

def start (pe npes : Nat) : CostSurvey := ⟨pe, .start .cost npes, .start .deviation npes⟩

def recordCost (x : CostSurvey) (sender : Nat) (cost : Float) : Except Fault CostSurvey :=
  (x.costs.record x.pe sender cost).map fun costs => { x with costs }

def recordDeviation (x : CostSurvey) (sender : Nat) (d : Float) : Except Fault CostSurvey :=
  (x.deviations.record x.pe sender d).map fun deviations => { x with deviations }

/-- Sums start from negative zero, the neutral element of floating-point addition. -/
def average (r : RollCall Float) : Float :=
  r.heard.values.foldl (· + ·) (-0.0) / Float.ofNat r.heard.size

def least (l : List Float) : Float := l.foldl (fun a b => if b < a then b else a) (1.0 / 0.0)

def greatest (l : List Float) : Float := l.foldl (fun a b => if a < b then b else a) (-1.0 / 0.0)

def mean? (x : CostSurvey) : Option Float :=
  if x.costs.isComplete then some (average x.costs) else none

def statistics? (x : CostSurvey) : Option CostStatistics :=
  match x.mean? with
  | none => none
  | some mean =>
    if x.deviations.isComplete then
      some ⟨mean, (average x.deviations).sqrt, least x.costs.heard.values,
        greatest x.costs.heard.values⟩
    else none

end CostSurvey
end MeshNumbering
