import MeshNumbering.Ensemble
import MeshNumbering.Exchange

/-! A whole run, one delivery at a time. A schedule chooses the next delivery among all channels
that have a frame for a waiting processor; when there is none, the lowest waiting processor hears
that nothing more will come. Single deliveries may be tampered with. -/

namespace MeshNumbering

inductive Tampering where
  | drop
  -- A copy stays in the channel, ahead of everything else.
  | duplicate
  | claim (sender : Nat)
  | flip (byte value : Nat)
  | truncate (length : Nat)
  | replace (message : Message)
deriving DecidableEq

structure Incident where
  number : Nat
  tampering : Tampering
deriving DecidableEq

structure Handover where
  packet : Packet
  sender : Nat
  lost : Bool
  copies : List Packet
deriving DecidableEq

namespace Handover

def start (p : Packet) : Handover := ⟨p, p.source, false, []⟩

def withFrame (h : Handover) (frame : Frame) : Handover :=
  { h with packet := { h.packet with frame } }

def flipByte (i value : Nat) (frame : Frame) : Frame :=
  frame.modify (i % frame.length) (· ^^^ UInt8.ofNat value)

def apply (h : Handover) : Tampering → Handover
  | .drop => { h with lost := true }
  | .duplicate => { h with copies := h.packet :: h.copies }
  | .claim sender => { h with sender }
  | .flip byte value => h.withFrame (flipByte byte value h.packet.frame)
  | .truncate length => h.withFrame (h.packet.frame.take length)
  | .replace m => h.withFrame m.encode

end Handover

inductive Notice where
  | closed (pe : Nat)
  | handedOver (lost : Bool) (sender target : Nat) (frame : Frame)
deriving DecidableEq

def Network.channels (n : Network) : List (Nat × Nat) :=
  n.waiting.flatMap fun target =>
    ((List.range n.processors.length).filter fun source =>
      n.inFlight.any fun p => p.target = target ∧ p.source = source).map fun source =>
        (target, source)

namespace Simulation

/-- Schedules are used over and over; an empty one always chooses the first channel. -/
def choice (schedule : List Nat) (k count : Nat) : Nat :=
  (schedule[k % schedule.length]?).getD 0 % count

def handOver (incidents : List Incident) (k target source : Nat) (n : Network) :
    List Notice × Network :=
  match takeFirst? (fun p => p.target = target ∧ p.source = source) n.inFlight with
  | none => ([], n)
  | some (p, rest) =>
    let h := ((incidents.filter fun i => i.number = k).map Incident.tampering).foldl
      Handover.apply (.start p)
    let n := { n with inFlight := h.copies ++ rest }
    ([.handedOver h.lost h.sender target h.packet.frame],
      if h.lost then n else n.deliver target h.sender h.packet.frame)

def step (schedule : List Nat) (incidents : List Incident) (k : Nat) (n : Network) :
    Option (List Notice × Network) :=
  let channels := n.channels
  match channels[choice schedule k channels.length]? with
  | some (target, source) => some (handOver incidents k target source n)
  | none => n.waiting.head?.map fun pe => ([.closed pe], n.close pe)

def steps (schedule : List Nat) (incidents : List Incident) :
    Nat → Nat → Network → List Notice × Network
  | 0, _, n => ([], n)
  | fuel + 1, k, n =>
    match step schedule incidents k n with
    | none => ([], n)
    | some (notices, n) =>
      let (later, n) := steps schedule incidents fuel (k + 1) n
      (notices ++ later, n)

/-- More steps than a run of `npes` processors can take: fewer than twenty frames pass from each to
each, and an incident adds at most a copy and an answer to it. -/
def limit (npes incidents : Nat) : Nat := 20 * (npes + 1) * (npes + 1) + 4 * incidents

def run (reader : Reader) (npes : Nat) (config : Config) (strategy : Option Strategy)
    (schedule : List Nat) (incidents : List Incident) : List Notice × Ensemble :=
  let n := (Network.fresh npes config strategy).startAll reader
  let (notices, n) := steps schedule incidents (limit npes incidents.length) 0 n
  (notices, .of n)

end Simulation
end MeshNumbering
