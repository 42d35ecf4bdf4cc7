import MeshNumbering.Processor.Basic

/-! One processor alone. What it hears is written in a list of cues, so its peers may say anything
at all; what it sends to itself it hears in the order sent. -/

namespace MeshNumbering

inductive Cue where
  -- The oldest frame it has sent to itself, if there is one.
  | own
  | arrival (sender : Nat) (frame : Frame)
deriving DecidableEq

structure Rehearsal where
  processor : Processor
  -- Frames on their way to the processor itself.
  own : List Frame

namespace Rehearsal

def start (seat : Seat) : Rehearsal := ⟨.fresh seat, []⟩

def take (r : Rehearsal) (t : Turn) : Rehearsal :=
  let pe := r.processor.seat.pe
  let own := (t.packets pe).filter fun p => p.target = pe
  ⟨r.processor.after t, r.own ++ own.map Packet.frame⟩

def hear (r : Rehearsal) (links : Links) (sender : Nat) (frame : Frame) : Rehearsal :=
  r.take (r.processor.receive links sender frame)

def hearOwn (r : Rehearsal) (links : Links) : Rehearsal :=
  match r.own with
  | [] => r
  | frame :: own => hear { r with own } links r.processor.seat.pe frame

def play (links : Links) : List Cue → Rehearsal → Rehearsal
  | [], r => r
  | cue :: cues, r =>
    if r.processor.isWaiting then
      match cue with
      | .own => play links cues (r.hearOwn links)
      | .arrival sender frame => play links cues (r.hear links sender frame)
    else r

def drain (links : Links) : Nat → Rehearsal → Rehearsal
  | 0, r => r
  | n + 1, r =>
    if r.processor.isWaiting then
      if r.own.isEmpty then r.take (r.processor.close links)
      else drain links n (r.hearOwn links)
    else r

/-- A processor sends itself at most seven frames on its own account and one for each cue. -/
def run (r : Rehearsal) (links : Links) (reader : Reader) (cues : List Cue) : Rehearsal :=
  drain links (cues.length + 16) (play links cues (r.take (r.processor.start links reader)))

def runs (links : Links) (reader : Reader) (cues : List Cue) :
    Nat → Rehearsal → List (Option (Except Fault Outcome) × Phase) × Rehearsal
  | 0, r => ([], r)
  | n + 1, r =>
    let r := r.run links reader cues
    let (later, last) := runs links reader cues n r
    ((r.processor.result?, r.processor.phase) :: later, last)

/-- What the peers and the collaborators noticed; collaborators that ignore everything notice
nothing. -/
def log (r : Rehearsal) (headless : Bool) : List Event :=
  r.processor.history.filter fun e =>
    match e with
    | .entered _ | .accepted _ => false
    | .called _ => !headless
    | _ => true

end Rehearsal
end MeshNumbering
