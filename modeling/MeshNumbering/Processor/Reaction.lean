import MeshNumbering.Processor.Script
import MeshNumbering.Processor.State

/-! What a processor does with one message. A message that comes before there is anything it can act
on is kept for later; one that comes too late is a failure. -/

namespace MeshNumbering

/-- The phase before which messages of a kind are kept; most kinds are taken at once or not at
all. -/
def MessageKind.opening : MessageKind → Phase
  | batch => .shipping
  | query | mask => .indexed
  | request | assigned => .numbering
  | _ => .setup

namespace State
open Script

def answer (s : State) (h : Holdings) (sender : Nat) (nodes : List Nat) : Script State := do
  let queries ← s.queries.record s.pe sender ()
  send sender (.mask s.pe (h.maskOf nodes))
  return { s with queries }

def request (s : State) (r : Numbering) (sender : Nat) (nodes : List Nat) : Script State := do
  let (answer, r) ← r.ask sender nodes
  let s := { s with stage := s.stage.withNumbering r }
  match answer with
  | none => return s
  | some ids => do
    send sender (.assigned s.pe ids)
    return s

def absorb (s : State) (r : Numbering) (sender : Nat) (ids : NatMap Nat) : Script State :=
  match r.learn sender ids with
  | (some e, _) => fail e
  | (none, r) => return { s with stage := s.stage.withNumbering r }

def react (s : State) : Message → Option (Script State)
  | .load sender n => some do
    let loads ← s.loads.record s.pe sender n
    return { s with loads }
  | .batch sender chares =>
    match s.stage with
    | .shipping t => some do
      let shipment ← t.shipment.unpack sender chares
      send sender (.receipt s.pe)
      return { s with stage := .shipping { t with shipment } }
    | _ => none
  | .receipt sender =>
    match s.stage with
    | .shipping t => some do
      let shipment ← t.shipment.book sender
      return { s with stage := .shipping { t with shipment } }
    | _ => none
  | .delivered sender => some do
    let distributed ← s.distributed.record s.pe sender ()
    return { s with distributed }
  | .query sender nodes => s.serving.map fun h => s.answer h sender nodes
  | .mask sender mask =>
    match s.stage with
    | .indexed t => some do
      let masks ← t.masks.record s.pe sender mask
      return { s with stage := .indexed { t with masks } }
    | _ => none
  | .offset sender count => some do
    let offsets ← s.offsets.record sender count
    return { s with offsets }
  | .request sender nodes => s.stage.numbering?.map fun r => s.request r sender nodes
  | .assigned sender ids => s.stage.numbering?.map fun r => s.absorb r sender ids
  | .lower sender row =>
    if sender + 1 = s.pe then
      match s.lower with
      | none => some (return { s with lower := some row })
      | some _ => some (fail (.repeated s.pe sender .lower))
    else none
  | .cost sender bits => some do
    let costs ← s.costs.recordCost sender (Float.ofBits bits)
    return { s with costs }
  | .deviation sender bits => some do
    let costs ← s.costs.recordDeviation sender (Float.ofBits bits)
    return { s with costs }
  | .abort sender reason => some (fail (.aborted sender reason))

/-- Acts on a message, keeps it for later, or fails because it is too late. -/
def take (s : State) (m : Message) : Script State :=
  match s.react m with
  | some reaction => do
    let s ← reaction
    accept m
    return s
  | none =>
    if s.phase < m.kind.opening then return { s with backlog := s.backlog ++ [m] }
    else fail (.outOfPhase s.pe m.kind s.phase)

end State
end MeshNumbering
