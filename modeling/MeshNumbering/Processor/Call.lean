import MeshNumbering.CostSurvey
import MeshNumbering.Relabelling
import MeshNumbering.Rows

/-! What a processor tells its collaborators: the host that follows a run, the factory that creates
one worker for each chare, and the merger of the linear system. -/

namespace MeshNumbering

inductive Milestone where
  | read
  | assigned
  | shipped
  | indexed
  | shared
  | numbered
  | bounded
deriving DecidableEq

/-- What a worker needs to know about its chare; nodes and shared nodes are in new ids. -/
structure WorkerSetup where
  chare : Nat
  pe : Nat
  nchare : Nat
  nodes : List Nat
  newIds : NatMap Nat
  adjacency : NatMap NatSet
deriving DecidableEq

structure RowNotice extends RowRange where
  pe : Nat
deriving DecidableEq

inductive Call where
  | milestone (m : Milestone)
  | size (total : Nat)
  | worker (setup : WorkerSetup)
  -- There are no more workers to come.
  | crew
  | rows (notice : RowNotice)
  | ready
  | statistics (s : CostStatistics)
  | finished
deriving DecidableEq

structure Outcome where
  pe : Nat
  nchare : Nat
  -- The first of the ids it gave out.
  base : Nat
  -- How many ids it gave out.
  own : Nat
  total : Nat
  rows : RowRange
  cost : Float
  statistics : CostStatistics
deriving DecidableEq

def Relabelling.setups (r : Relabelling) (pe nchare : Nat) : List WorkerSetup :=
  r.nodes.entries.map fun e =>
    { chare := e.1
      pe
      nchare
      nodes := e.2
      newIds := (r.newIds.get? e.1).getD ∅
      adjacency := (r.adjacency.get? e.1).getD ∅ }

section
variable {r : Relabelling} {pe nchare : Nat}

theorem Relabelling.map_chare_setups :
    (r.setups pe nchare).map WorkerSetup.chare = r.nodes.keys.elems := by
  rw [setups, List.map_map]
  rfl

theorem Relabelling.of_mem_setups {setup : WorkerSetup} (h : setup ∈ r.setups pe nchare) :
    setup.pe = pe ∧ setup.nchare = nchare := by
  obtain ⟨e, -, rfl⟩ := List.mem_map.1 h
  exact ⟨rfl, rfl⟩

end

end MeshNumbering
