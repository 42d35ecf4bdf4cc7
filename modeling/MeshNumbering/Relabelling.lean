import MeshNumbering.Numbering

/-! Chare data in new ids. -/

namespace MeshNumbering

structure Relabelling where
  nodes : NodeLists
  -- By chare, the new ids of the nodes it refers to.
  newIds : NatMap (NatMap Nat)
  adjacency : Adjacency
  -- All new ids some chare refers to.
  touched : NatSet
deriving DecidableEq

namespace Relabelling

def newId (pe : Nat) (ids : NatMap Nat) (n : Nat) : Except Fault Nat :=
  match ids.get? n with
  | some id => .ok id
  | none => .error (.nodeUnnumbered pe n)

def renameSet (pe : Nat) (ids : NatMap Nat) (s : NatSet) : Except Fault NatSet :=
  (s.elems.mapM (newId pe ids)).map .ofList

def of (pe : Nat) (nodes : NodeLists) (adjacency : Adjacency) (ids : NatMap Nat) :
    Except Fault Relabelling := do
  let lists ← nodes.mapM fun _ l => l.mapM fun n => return (n, ← newId pe ids n)
  let shared ← adjacency.mapM fun _ around => around.mapM fun _ s => renameSet pe ids s
  return {
    nodes := lists.map (List.map Prod.snd)
    newIds := lists.map NatMap.ofList
    adjacency := shared
    touched := .ofList (lists.values.flatMap (List.map Prod.snd)) }

end Relabelling
end MeshNumbering
