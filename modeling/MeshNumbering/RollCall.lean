import MeshNumbering.Ordered.NatMap
import MeshNumbering.Fault

/-! A roll call waits for one contribution from each of a number of processors. Contributions are
kept by sender, so a second one from the same sender is noticed, and they come back in processor
order whatever order they arrived in. -/

namespace MeshNumbering

structure RollCall (α : Type) where
  kind : MessageKind
  expected : Nat
  heard : NatMap α
deriving DecidableEq

namespace RollCall
variable {α : Type}

def start (kind : MessageKind) (expected : Nat) : RollCall α := ⟨kind, expected, ∅⟩

def isComplete (r : RollCall α) : Bool := r.heard.size = r.expected

def contributions (r : RollCall α) : List (Nat × α) := r.heard.entries

def record (r : RollCall α) (pe sender : Nat) (a : α) : Except Fault (RollCall α) :=
  if r.heard.contains sender then .error (.repeated pe sender r.kind)
  else .ok { r with heard := r.heard.insert sender a }

end RollCall
end MeshNumbering
