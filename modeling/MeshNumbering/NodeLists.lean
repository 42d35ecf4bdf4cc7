import MeshNumbering.Ordered.NatMap

/-! Node lists of chares: the four nodes of each element of a chare, in element order. -/

namespace MeshNumbering

abbrev NodeLists := NatMap (List Nat)

namespace NodeLists

def extend (m : NodeLists) (chare : Nat) (nodes : List Nat) : NodeLists :=
  m.upsert chare fun old => old.getD [] ++ nodes

/-- Walks an assignment and the connectivity together; what is left of the longer one is dropped. -/
def collect (m : NodeLists) : List Nat → List Nat → NodeLists
  | chare :: chares, a :: b :: c :: d :: connectivity =>
    collect (m.extend chare [a, b, c, d]) chares connectivity
  | _, _ => m

def ofAssignment (chares connectivity : List Nat) : NodeLists := collect ∅ chares connectivity

def concat (l : List NodeLists) : NodeLists :=
  l.foldl (fun m part => part.entries.foldl (fun m e => extend m e.1 e.2) m) ∅

end NodeLists
end MeshNumbering
