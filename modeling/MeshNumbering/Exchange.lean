import MeshNumbering.Message.Frame

/-! In-process links between the processors of one run. A frame waits until its receiver takes it;
frames of one sender are taken in the order they were sent. A receiver that has left takes
nothing. -/

namespace MeshNumbering

structure Exchange where
  size : Nat
  left : NatSet
  inFlight : List Packet
deriving DecidableEq

def takeFirst? (p : Packet → Bool) : List Packet → Option (Packet × List Packet)
  | [] => none
  | a :: l => if p a then some (a, l) else (takeFirst? p l).map fun (b, r) => (b, a :: r)

namespace Exchange

def start (size : Nat) : Exchange := ⟨size, ∅, []⟩

def send (x : Exchange) (source target : Nat) (frame : Frame) : Except LinkFault Exchange :=
  if x.size ≤ target then .error (.noSuchPeer x.size)
  else if target ∈ x.left then .error .inboxClosed
  else .ok { x with inFlight := x.inFlight ++ [⟨source, target, frame⟩] }

def take (x : Exchange) (target : Nat) : Option Packet × Exchange :=
  match takeFirst? (fun p => p.target = target) x.inFlight with
  | none => (none, x)
  | some (p, rest) => (some p, { x with inFlight := rest })

/-- A processor leaves; what was on its way to it is lost, what it sent is not. -/
def leave (x : Exchange) (pe : Nat) : Exchange :=
  { x with
    left := x.left.insert pe
    inFlight := x.inFlight.filter fun p => p.target ≠ pe }

end Exchange
end MeshNumbering
