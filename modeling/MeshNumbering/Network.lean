import MeshNumbering.Processor.Basic

/-! All processors of a run and the frames on their way between them. Every message is taken; in
which order frames arrive is left to whoever moves the network. -/

namespace MeshNumbering

structure Network where
  processors : List Processor
  inFlight : List Packet

namespace Network

def fresh (npes : Nat) (config : Config) (strategy : Option Strategy) : Network :=
  ⟨(List.range npes).map fun pe => .fresh ⟨pe, npes, config, strategy⟩, []⟩

def take (n : Network) (pe : Nat) (turn : Processor → Turn) : Network :=
  match n.processors[pe]? with
  | none => n
  | some p =>
    let t := turn p
    ⟨n.processors.set pe (p.after t), n.inFlight ++ t.packets pe⟩

def start (n : Network) (reader : Reader) (pe : Nat) : Network :=
  n.take pe fun p => p.start .sound reader

def deliver (n : Network) (target sender : Nat) (frame : Frame) : Network :=
  n.take target fun p => p.receive .sound sender frame

def close (n : Network) (pe : Nat) : Network := n.take pe fun p => p.close .sound

def startAll (n : Network) (reader : Reader) : Network :=
  (List.range n.processors.length).foldl (fun n pe => n.start reader pe) n

def isWaiting (n : Network) (pe : Nat) : Bool :=
  match n.processors[pe]? with
  | some p => p.isWaiting
  | none => false

def waiting (n : Network) : List Nat := (List.range n.processors.length).filter n.isWaiting

end Network
end MeshNumbering
