import MeshNumbering.NodeLists
import MeshNumbering.Layout

/-! Shipping node lists to the owners of their chares. A processor keeps the lists of its own
chares, sends the others in one batch per owner, and waits for a receipt for each. What it receives
is kept by sender, so the final lists do not depend on the order of arrival. -/

namespace MeshNumbering

structure Shipment where
  pe : Nat
  layout : Layout
  -- Node lists by the processor that read the elements, this one included.
  received : NatMap NodeLists
  -- Processors that owe a receipt.
  awaiting : NatSet
  packed : Bool
deriving DecidableEq

namespace Shipment

def start (pe : Nat) (layout : Layout) : Shipment := ⟨pe, layout, ∅, ∅, false⟩

def batches (layout : Layout) (pe : Nat) (chares : NodeLists) : NatMap NodeLists :=
  chares.entries.foldl
    (fun out e =>
      let owner := layout.owner e.1
      if owner = pe then out
      else out.upsert owner fun batch => (batch.getD ∅).insert e.1 e.2) ∅

/-- Keeps own chares and gives the batches to send. -/
def pack (s : Shipment) (chares : NodeLists) : NatMap NodeLists × Shipment :=
  let kept := chares.filterKeys fun c => s.layout.owner c = s.pe
  let out := batches s.layout s.pe chares
  (out, { s with
    received := if kept.isEmpty then s.received else s.received.insert s.pe kept
    awaiting := out.keys
    packed := true })

def foreign? (layout : Layout) (pe : Nat) (chares : NodeLists) : Option Nat :=
  chares.keys.elems.find? fun c => !layout.owns pe c

def unpack (s : Shipment) (sender : Nat) (chares : NodeLists) : Except Fault Shipment :=
  match foreign? s.layout s.pe chares with
  | some c => .error (.foreignChare s.pe c)
  | none =>
    if sender = s.pe ∨ s.received.contains sender then .error (.repeated s.pe sender .batch)
    else .ok { s with received := s.received.insert sender chares }

def book (s : Shipment) (sender : Nat) : Except Fault Shipment :=
  if sender ∈ s.awaiting then
    .ok { s with awaiting := s.awaiting.filter fun p => p != sender }
  else .error (.repeated s.pe sender .receipt)

def isDelivered (s : Shipment) : Bool := s.packed ∧ s.awaiting.isEmpty

def contents (s : Shipment) : NodeLists := .concat s.received.values

end Shipment
end MeshNumbering
