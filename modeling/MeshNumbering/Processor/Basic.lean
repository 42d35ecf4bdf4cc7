import MeshNumbering.Processor.Advance

/-! A processor from its start to its return. Between the two it only ever waits for a frame. A
failure of its own is told to all peers before it returns; a failure it was told about is not passed
on. -/

namespace MeshNumbering

inductive Status where
  | fresh
  | waiting (state : State)
  | returned (result : Except Fault Outcome)

/-- What happens between two waits, and where it leads. -/
structure Turn where
  events : List Event
  status : Status

def Turn.packets (pe : Nat) (t : Turn) : List Packet :=
  t.events.filterMap fun e =>
    match e with
    | .sent peer m => some ⟨pe, peer, m.encode⟩
    | _ => none

structure Processor where
  seat : Seat
  status : Status
  history : List Event

namespace Seat

def farewell (seat : Seat) (links : Links) (e : Fault) : List Event :=
  if e.isRemote then []
  else
    let m : Message := .abort seat.pe e.message
    let peers := if m.unfit?.isSome then [] else (List.range seat.npes).filter (· ≠ seat.pe)
    peers.map (fun peer => if (links peer).isNone then .sent peer m else .refused peer m) ++
      [.halted e.message]

def giveUp (seat : Seat) (links : Links) (e : Fault) : Turn :=
  ⟨seat.farewell links e, .returned (.error e)⟩

def conclude (seat : Seat) (links : Links) (s : Script State) : Turn :=
  match s.run links with
  | (events, .error e) =>
    let t := seat.giveUp links e
    ⟨events ++ t.events, t.status⟩
  | (events, .ok state) =>
    match state.stage with
    | .done outcome => ⟨events, .returned (.ok outcome)⟩
    | _ => ⟨events, .waiting state⟩

end Seat

namespace Processor

def fresh (seat : Seat) : Processor := ⟨seat, .fresh, []⟩

def start (p : Processor) (links : Links) (reader : Reader) : Turn :=
  match p.status with
  | .fresh => p.seat.conclude links (State.begin p.seat reader)
  | _ => p.seat.giveUp links (.config (.secondRun p.seat.pe))

def receive (p : Processor) (links : Links) (sender : Nat) (frame : Frame) : Turn :=
  match p.status with
  | .waiting s =>
    let t := p.seat.conclude links (s.hear sender frame)
    ⟨.heard sender frame :: t.events, t.status⟩
  | status => ⟨[], status⟩

def close (p : Processor) (links : Links) : Turn :=
  match p.status with
  | .waiting _ =>
    let t := p.seat.giveUp links (.inboxClosed p.seat.pe)
    ⟨.closed :: t.events, t.status⟩
  | status => ⟨[], status⟩

def after (p : Processor) (t : Turn) : Processor := ⟨p.seat, t.status, p.history ++ t.events⟩

def isWaiting (p : Processor) : Bool :=
  match p.status with
  | .waiting _ => true
  | _ => false

def result? (p : Processor) : Option (Except Fault Outcome) :=
  match p.status with
  | .returned r => some r
  | _ => none

theorem isWaiting_iff {p : Processor} : p.isWaiting = true ↔ ∃ s, p.status = .waiting s := by
  cases hs : p.status <;> simp [isWaiting, hs]

theorem result?_eq_some_iff {p : Processor} {r : Except Fault Outcome} :
    p.result? = some r ↔ p.status = .returned r := by
  cases hs : p.status <;> simp [result?, hs]

def phase (p : Processor) : Phase :=
  p.history.foldl
    (fun phase e =>
      match e with
      | .entered next => next
      | _ => phase) .setup

end Processor
end MeshNumbering
