import MeshNumbering.Mesh.Box
import MeshNumbering.Simulation

/-! The command line: numbers a box mesh over a handful of processors and reports the rows, the
number of nodes numbered and the cost of each. Arguments are the three sizes of the box, the number
of processors and the number of chares. -/

namespace MeshNumbering.CommandLine
open Decimal

def number? (arg : String) : Option Nat :=
  let ds :=
    match arg.toList with
    | '+' :: ds => ds
    | ds => ds
  if ds ≠ [] ∧ ds.all isDigit ∧ ofDigits ds < wordSize then some (ofDigits ds) else none

structure Job where
  nx : Nat
  ny : Nat
  nz : Nat
  npes : Nat
  nchare : Nat
deriving DecidableEq

/-- Takes the arguments that are numbers, in order; what they leave open has a default. -/
def Job.ofArgs (args : List String) : Job :=
  let given := args.filterMap number?
  let npes := given[3]?.getD 4
  ⟨given[0]?.getD 8, given[1]?.getD 4, given[2]?.getD 4, npes, given[4]?.getD (2 * npes)⟩

inductive Ending where
  | success
  | failure (fault : Fault)
  -- There is no processor whose statistics could be reported.
  | nobody
deriving DecidableEq

structure Report where
  lines : List String
  ending : Ending

def headline (job : Job) (mesh : Mesh) : String :=
  s!"{job.nx}x{job.ny}x{job.nz} box: {mesh.nodeCount} nodes, {mesh.elementCount} tetrahedra, " ++
    s!"{job.npes} PEs, {job.nchare} chares"

def outcomeLine (o : Outcome) : String :=
  s!"PE {o.pe}: rows [{o.rows.lower}, {o.rows.upper}), numbered {o.own} from {o.base}, cost " ++
    fixed 3 o.cost

def statisticsLine (s : CostStatistics) : String :=
  "cost mean " ++ fixed 3 s.mean ++ " stddev " ++ fixed 3 s.stddev ++ " range [" ++ fixed 3 s.min ++
    ", " ++ fixed 3 s.max ++ "]"

def splitLine (outcomes : List Outcome) : String :=
  "row splits: " ++ " | ".intercalate (outcomes.map fun o => toString o.rows.upper)

def Job.mesh (job : Job) : Mesh := .box job.nx job.ny job.nz

def Job.conclude (job : Job) (ensemble : Ensemble) : Report :=
  let head := headline job job.mesh
  match ensemble.outcomes with
  | .error f => ⟨[head], .failure f⟩
  | .ok [] => ⟨[head], .nobody⟩
  | .ok (o :: l) =>
    ⟨head :: (o :: l).map outcomeLine ++ [statisticsLine o.statistics, splitLine (o :: l)],
      .success⟩

def report (schedule : List Nat) (job : Job) : Report :=
  job.conclude
    (Simulation.run job.mesh.reader job.npes (.ofCount job.nchare) none schedule []).2

namespace Report

def output (r : Report) : String := String.join (r.lines.map (· ++ "\n"))

def complaint (r : Report) : Option String :=
  match r.ending with
  | .success => some ""
  | .failure f => some ("reordering failed: " ++ f.message ++ "\n")
  | .nobody => none

def exitCode (r : Report) : UInt32 :=
  match r.ending with
  | .success => 0
  | .failure _ => 1
  | .nobody => 101

end Report
end MeshNumbering.CommandLine
