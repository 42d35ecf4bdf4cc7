import MeshNumbering.Sharing

/-! New ids on one processor. It numbers the nodes no lower processor claims, in ascending order of
their old ids, and asks the claimants for the others. A request that comes too early waits. -/

namespace MeshNumbering

structure Numbering where
  pe : Nat
  held : Nat
  own : NatSet
  claims : Claims
  -- New ids known so far, by old id.
  ids : NatMap Nat
  -- The first of the own ids, once they are given out.
  base? : Option Nat
  queued : List (Nat × List Nat)
deriving DecidableEq

namespace Numbering

def start (pe : Nat) (held : NatSet) (claims : Claims) : Numbering :=
  ⟨pe, held.size, held.filter fun n => (claims.claimant? n).isNone, claims, ∅, none, []⟩

def isGivenOut (r : Numbering) : Bool := r.base?.isSome

def isComplete (r : Numbering) : Bool := r.isGivenOut ∧ r.ids.size = r.held

def wanted (r : Numbering) : List (Nat × List Nat) :=
  r.claims.byPeer.entries.map fun e => (e.1, e.2.elems)

def lookUpNode (r : Numbering) (sender n : Nat) : Except Fault (Nat × Nat) :=
  match r.ids.get? n with
  | some id => .ok (n, id)
  | none => .error (.requestNotOwn r.pe sender n)

def lookUp (r : Numbering) (sender : Nat) (nodes : List Nat) : Except Fault (NatMap Nat) :=
  (nodes.mapM (r.lookUpNode sender)).map .ofList

def number (ids : NatMap Nat) : Nat → List Nat → NatMap Nat
  | _, [] => ids
  -- Ids are meant to stay below `wordSize`; no node is refused one for being beyond that.
  | next, n :: l => number (ids.insert n next) (next + 1) l

/-- Numbers the own nodes from `base` on, and answers the requests that waited. -/
def giveOut (r : Numbering) (base : Nat) : Except Fault (List (Nat × NatMap Nat)) × Numbering :=
  let numbered := { r with ids := number r.ids base r.own.elems, base? := some base, queued := [] }
  (r.queued.mapM fun q => (numbered.lookUp q.1 q.2).map fun ids => (q.1, ids), numbered)

def ask (r : Numbering) (sender : Nat) (nodes : List Nat) :
    Except Fault (Option (NatMap Nat) × Numbering) :=
  match nodes.find? fun n => !r.own.elems.contains n with
  | some n => .error (.requestNotOwn r.pe sender n)
  | none =>
    if r.isGivenOut then (r.lookUp sender nodes).map fun ids => (some ids, r)
    else .ok (none, { r with queued := r.queued ++ [(sender, nodes)] })

/-- Stores ids one by one until one is not acceptable. That one is left out when its node was not
the sender's to number, and stored when it contradicts an id already known. -/
def absorb (sender : Nat) : Numbering → List (Nat × Nat) → Option Fault × Numbering
  | r, [] => (none, r)
  | r, (old, new) :: l =>
    if r.claims.claimant? old = some sender then
      let stored := { r with ids := r.ids.insert old new }
      match r.ids.get? old with
      | some known =>
        if known = new then absorb sender stored l else (some (.idNotRequested r.pe old), stored)
      | none => absorb sender stored l
    else (some (.idNotRequested r.pe old), r)

def learn (r : Numbering) (sender : Nat) (ids : NatMap Nat) : Option Fault × Numbering :=
  absorb sender r ids.entries

end Numbering
end MeshNumbering
