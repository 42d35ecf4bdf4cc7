import MeshNumbering.Holdings
import MeshNumbering.RollCall
import MeshNumbering.Word

/-! Who shares which node. Every processor asks every processor which of its nodes they hold. From
the answers it learns which chares its own chares touch, and which nodes lower processors will
number: of all that hold a node, the lowest numbers it. -/

namespace MeshNumbering

abbrev Adjacency := NatMap (NatMap NatSet)

structure Claims where
  byPeer : NatMap NatSet
deriving DecidableEq

namespace Claims

def size (c : Claims) : Nat := sum (c.byPeer.values.map NatSet.size)

def claimant? (c : Claims) (node : Nat) : Option Nat :=
  (c.byPeer.entries.find? fun e => node ∈ e.2).map Prod.fst

/-- Gives every node to the first claim that names it; claims left with nothing are dropped. -/
def settle (taken : NatSet) : List (Nat × NatSet) → List (Nat × NatSet)
  | [] => []
  | (p, nodes) :: l =>
    let mine := nodes.diff taken
    if mine.isEmpty then settle taken l else (p, mine) :: settle (taken.union mine) l

def ofMasks (pe : Nat) (masks : List (Nat × Mask)) : Claims :=
  let lower := masks.filter fun m => m.1 < pe
  ⟨.ofList (settle ∅ (lower.map fun m => (m.1, m.2.keys)))⟩

end Claims

namespace Adjacency

def add (a : Adjacency) (chare surrounding node : Nat) : Adjacency :=
  a.upsert chare fun around => (around.getD ∅).upsert surrounding fun nodes =>
    (nodes.getD ∅).insert node

def addNode (a : Adjacency) (node : Nat) (chares surrounding : List Nat) : Adjacency :=
  chares.foldl
    (fun a c => surrounding.foldl (fun a s => if s = c then a else add a c s node) a) a

def addMask (h : Holdings) (pe sender : Nat) :
    Adjacency → List (Nat × List Nat) → Except Fault Adjacency
  | a, [] => .ok a
  | a, (node, surrounding) :: l =>
    match h.users? node with
    | none => .error (.nodeNotHeld pe sender node)
    | some chares => addMask h pe sender (addNode a node chares surrounding) l

def addMasks (h : Holdings) (pe : Nat) : Adjacency → List (Nat × Mask) → Except Fault Adjacency
  | a, [] => .ok a
  | a, (sender, mask) :: l =>
    match addMask h pe sender a mask.entries with
    | .error e => .error e
    | .ok a => addMasks h pe a l

end Adjacency

structure Sharing where
  adjacency : Adjacency
  claims : Claims
  own : Nat
deriving DecidableEq

def Sharing.ofMasks (pe : Nat) (masks : RollCall Mask) (h : Holdings) : Except Fault Sharing :=
  if masks.isComplete then
    match Adjacency.addMasks h pe ∅ masks.contributions with
    | .error e => .error e
    | .ok adjacency =>
      let claims := Claims.ofMasks pe masks.contributions
      .ok ⟨adjacency, claims, h.nodes.size - claims.size⟩
  else .error (.masksMissing pe masks.expected masks.heard.size)

end MeshNumbering
