import MeshNumbering.NodeLists
import MeshNumbering.Message.Kind
import MeshNumbering.Sharing

/-! Messages between processors. The first field is always the processor that sends. -/

namespace MeshNumbering

inductive Message where
  -- How many elements the sender has read.
  | load (pe count : Nat)
  -- Node lists of chares the receiver owns.
  | batch (pe : Nat) (chares : NodeLists)
  | receipt (pe : Nat)
  -- All batches of the sender have their receipts.
  | delivered (pe : Nat)
  -- Which of these nodes does the receiver hold?
  | query (pe : Nat) (nodes : List Nat)
  -- The queried nodes the sender holds, with its chares that refer to each.
  | mask (pe : Nat) (nodes : Mask)
  -- How many nodes the sender numbers.
  | offset (pe count : Nat)
  -- Nodes whose new ids the sender wants.
  | request (pe : Nat) (nodes : List Nat)
  -- Answer to a request: new ids by old id.
  | assigned (pe : Nat) (ids : NatMap Nat)
  -- Where the rows of the receiver begin.
  | lower (pe row : Nat)
  -- The sender's cost, as the bits of a double.
  | cost (pe : Nat) (bits : UInt64)
  -- Squared deviation of the sender's cost from the mean, as the bits of a double.
  | deviation (pe : Nat) (bits : UInt64)
  | abort (pe : Nat) (reason : String)
deriving DecidableEq

namespace Message

def kind : Message → MessageKind
  | load .. => .load
  | batch .. => .batch
  | receipt .. => .receipt
  | delivered .. => .delivered
  | query .. => .query
  | mask .. => .mask
  | offset .. => .offset
  | request .. => .request
  | assigned .. => .assigned
  | lower .. => .lower
  | cost .. => .cost
  | deviation .. => .deviation
  | abort .. => .abort

def sender : Message → Nat
  | load pe _ | batch pe _ | receipt pe | delivered pe | query pe _ | mask pe _ | offset pe _
  | request pe _ | assigned pe _ | lower pe _ | cost pe _ | deviation pe _ | abort pe _ => pe

def numbers : Message → List Nat
  | load pe n | offset pe n | lower pe n => [pe, n]
  | receipt pe | delivered pe | cost pe _ | deviation pe _ | abort pe _ => [pe]
  | query pe nodes | request pe nodes => pe :: nodes
  | batch pe m | mask pe m => pe :: m.entries.flatMap fun e => e.1 :: e.2
  | assigned pe ids => pe :: ids.entries.flatMap fun e => [e.1, e.2]

end Message
end MeshNumbering
