import MeshNumbering.Network

/-! The results of all processors of a run, taken together. -/

namespace MeshNumbering

structure Account where
  milestones : List Milestone
  total : Option Nat
  ready : Bool
  statistics : Option CostStatistics
  finished : Bool
  workers : List WorkerSetup
  crewComplete : Bool
  rows : Option RowRange
deriving DecidableEq

namespace Account

def empty : Account := ⟨[], none, false, none, false, [], false, none⟩

def add (a : Account) : Call → Account
  | .milestone m => { a with milestones := a.milestones ++ [m] }
  | .size total => { a with total := some total }
  | .worker setup => { a with workers := a.workers ++ [setup] }
  | .crew => { a with crewComplete := true }
  | .rows notice => { a with rows := some notice.toRowRange }
  | .ready => { a with ready := true }
  | .statistics s => { a with statistics := some s }
  | .finished => { a with finished := true }

def ofHistory (history : List Event) : Account :=
  history.foldl
    (fun a e =>
      match e with
      | .called c => a.add c
      | _ => a) empty

end Account

structure Member where
  pe : Nat
  result : Except Fault Outcome
  account : Account

def Processor.member (p : Processor) : Member :=
  ⟨p.seat.pe, p.result?.getD (.error (.inboxClosed p.seat.pe)), .ofHistory p.history⟩

namespace Member

def outcome? (m : Member) : Option Outcome := m.result.toOption

def fault? (m : Member) : Option Fault :=
  match m.result with
  | .error e => some e
  | .ok _ => none

end Member

abbrev Ensemble := List Member

namespace Ensemble

def of (n : Network) : Ensemble := n.processors.map Processor.member

def succeeded (e : Ensemble) : Bool := e.all fun m => m.outcome?.isSome

/-- The first failure that did not come from a peer. -/
def cause? (e : Ensemble) : Option Fault := (e.filterMap Member.fault?).find? fun f => !f.isRemote

def outcomes (e : Ensemble) : Except Fault (List Outcome) :=
  match e.cause? with
  | some f => .error f
  | none => e.mapM Member.result

def rows (e : Ensemble) : List (Option RowRange) := e.map fun m => m.outcome?.map Outcome.rows

def chained : List RowRange → Bool
  | a :: b :: l => a.upper = b.lower ∧ chained (b :: l)
  | _ => true

def isGapless (e : Ensemble) : Bool :=
  match e.rows.mapM id with
  | none => false
  | some [] => true
  | some (a :: l) => a.lower = 0 ∧ chained (a :: l)

def mergeIds : NatMap Nat → List (Nat × Nat) → Option (NatMap Nat)
  | ids, [] => some ids
  | ids, (old, new) :: l =>
    match ids.get? old with
    | none => mergeIds (ids.insert old new) l
    | some known => if known = new then mergeIds ids l else none

def newIds? (e : Ensemble) : Option (NatMap Nat) :=
  mergeIds ∅ (e.flatMap fun m => m.account.workers.flatMap fun w => w.newIds.entries)

end Ensemble
end MeshNumbering
