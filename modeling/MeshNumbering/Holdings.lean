import MeshNumbering.Shipment

/-! The nodes a processor holds: those its chares refer to, each with the chares that do. -/

namespace MeshNumbering

abbrev Mask := NatMap (List Nat)

structure Holdings where
  chares : Mask
deriving DecidableEq

namespace Holdings

/-- The lowest chare from `next` on that has no nodes, given the node lists from `next` on. -/
def firstIdle (next : Nat) : List (Nat × List Nat) → Nat
  | [] => next
  | (c, nodes) :: l => if c = next ∧ nodes ≠ [] then firstIdle (next + 1) l else next

/-- Chares come in ascending order, so a repeated one is the last one. -/
def addChare (chare : Nat) (chares : List Nat) : List Nat :=
  if chares.getLast? = some chare then chares else chares ++ [chare]

def index (nodes : NodeLists) : Mask :=
  nodes.entries.foldl
    (fun m e => e.2.foldl (fun m n => m.upsert n fun old => addChare e.1 (old.getD [])) m) ∅

def of (layout : Layout) (pe : Nat) (nodes : NodeLists) : Except Fault Holdings :=
  match Shipment.foreign? layout pe nodes with
  | some c => .error (.foreignChare pe c)
  | none =>
    let owned := layout.owned pe
    let idle := firstIdle owned.start nodes.entries
    if idle < owned.stop then .error (.emptyChare pe idle) else .ok ⟨index nodes⟩

def nodes (h : Holdings) : NatSet := h.chares.keys

def users? (h : Holdings) (node : Nat) : Option (List Nat) := h.chares.get? node

def maskOf (h : Holdings) (queried : List Nat) : Mask :=
  .ofList (queried.filterMap fun n => (h.users? n).map fun cs => (n, cs))

end Holdings
end MeshNumbering
