import MeshNumbering.Message.Frame
import MeshNumbering.Processor.Call

/-! What a processor does in answer to something, written down first and carried out afterwards. A
script lists the actions in order and ends in a value or a failure. It is written as if every
message could be handed over; carrying it out stops at the first one that cannot. -/

namespace MeshNumbering

inductive Action where
  | send (peer : Nat) (message : Message)
  | call (call : Call)
  | enter (phase : Phase)
  -- Notes that a message has been acted on.
  | accept (message : Message)
deriving DecidableEq

structure Script (α : Type) where
  actions : List Action
  result : Except Fault α

namespace Script
variable {α β : Type}

def bind (s : Script α) (f : α → Script β) : Script β :=
  match s.result with
  | .error e => ⟨s.actions, .error e⟩
  | .ok a => ⟨s.actions ++ (f a).actions, (f a).result⟩

instance : Monad Script where
  pure a := ⟨[], .ok a⟩
  bind := bind

instance : LawfulMonad Script := LawfulMonad.mk' _
  (fun s => by
    obtain ⟨actions, result⟩ := s
    cases result <;> simp [Functor.map, bind])
  (fun a f => by simp [Bind.bind, bind, Pure.pure])
  (fun s f g => by
    obtain ⟨actions, result⟩ := s
    cases result with
    | error e => rfl
    | ok a =>
      simp only [Bind.bind, bind]
      cases (f a).result <;> simp)

instance : MonadLift (Except Fault) Script := ⟨fun r => ⟨[], r⟩⟩

def fail (e : Fault) : Script α := ⟨[], .error e⟩

def send (peer : Nat) (m : Message) : Script Unit := ⟨[.send peer m], .ok ()⟩

def call (c : Call) : Script Unit := ⟨[.call c], .ok ()⟩

def enter (p : Phase) : Script Unit := ⟨[.enter p], .ok ()⟩

def accept (m : Message) : Script Unit := ⟨[.accept m], .ok ()⟩

def sendAll (peers : List Nat) (m : Message) : Script Unit :=
  ⟨peers.map fun peer => .send peer m, .ok ()⟩

end Script

inductive Event where
  | heard (sender : Nat) (frame : Frame)
  -- Nothing more will arrive.
  | closed
  | sent (peer : Nat) (message : Message)
  | refused (peer : Nat) (message : Message)
  | called (call : Call)
  | entered (phase : Phase)
  | accepted (message : Message)
  -- The whole run is to end.
  | halted (reason : String)
deriving DecidableEq

/-- The peers that take no messages, with the reason. -/
abbrev Links := Nat → Option LinkFault

def Links.sound : Links := fun _ => none

def Action.perform (links : Links) : Action → List Event × Option Fault
  | .send peer m =>
    match m.unfit?, links peer with
    | some e, _ => ([], some (.frame e))
    | none, some e => ([.refused peer m], some (.link peer e))
    | none, none => ([.sent peer m], none)
  | .call c => ([.called c], none)
  | .enter p => ([.entered p], none)
  | .accept m => ([.accepted m], none)

def performAll (links : Links) : List Action → List Event × Option Fault
  | [] => ([], none)
  | a :: l =>
    match a.perform links with
    | (events, some e) => (events, some e)
    | (events, none) =>
      let (later, failure) := performAll links l
      (events ++ later, failure)

namespace Script
variable {α : Type}

def run (links : Links) (s : Script α) : List Event × Except Fault α :=
  match performAll links s.actions with
  | (events, some e) => (events, .error e)
  | (events, none) => (events, s.result)

end Script
end MeshNumbering
