import MeshNumbering.Proofs.Processor.Actions
import MeshNumbering.Proofs.Processor.Ledger

/-! The calls a processor makes, as one fixed sequence, and what a script adds to them. Each phase
has its block of calls, made when it is entered; the block that hands the chares to the workers is
never left half done. -/

namespace MeshNumbering

def History.calls (h : List Event) : List Call :=
  h.filterMap fun e =>
    match e with
    | .called c => some c
    | _ => none

def Call.isHandover : Call → Bool
  | .worker _ | .crew | .rows _ => true
  | _ => false

structure Agenda where
  total : Nat
  setups : List WorkerSetup
  rows : RowRange
  statistics : CostStatistics

instance : Nonempty Agenda := ⟨⟨0, [], ⟨0, 0⟩, ⟨0, 0, 0, 0⟩⟩⟩

def Seat.said (seat : Seat) (m : Milestone) : List Call :=
  if seat.config.feedback then [.milestone m] else []

namespace Agenda

def blocks (a : Agenda) (seat : Seat) : List (List Call) :=
  [seat.said .read,
    [.size a.total] ++ seat.said .assigned,
    seat.said .shipped ++ seat.said .indexed,
    seat.said .shared,
    seat.said .numbered,
    seat.said .bounded ++ a.setups.map .worker ++ [.crew, .rows ⟨a.rows, seat.pe⟩, .ready],
    [.statistics a.statistics, .finished]]

def schedule (a : Agenda) (seat : Seat) : List Call := (a.blocks seat).flatten

def upTo (a : Agenda) (seat : Seat) (φ : Phase) : List Call :=
  ((a.blocks seat).take (φ.rank + 1)).flatten

def block (a : Agenda) (seat : Seat) (φ : Phase) : List Call :=
  (a.blocks seat)[φ.rank]?.getD []

/-- The workers are those of the chares that `x` gives to the processor, and `x` is the layout for
the size of the mesh. -/
structure LaidOut (a : Agenda) (seat : Seat) (x : Layout) : Prop where
  forMesh : seat.config.chares.forMesh a.total seat.npes = .ok x.nchare
  layout : Layout.of x.nchare seat.npes = .ok x
  chares : a.setups.map WorkerSetup.chare = (x.owned seat.pe).elems
  setups : ∀ w ∈ a.setups, w.pe = seat.pe ∧ w.nchare = x.nchare

/-- Calls that begin the schedule. The handover is not begun or complete, and once the size of the
mesh is known the workers to come are those of the chares owned. -/
structure Begins (a : Agenda) (seat : Seat) (c : List Call) : Prop where
  pre : c <+: a.schedule seat
  whole : (∃ x ∈ c, x.isHandover = true) → .ready ∈ c
  laidOut : .size a.total ∈ c → ∃ x, a.LaidOut seat x

variable {a : Agenda} {seat : Seat} {φ φ' : Phase} {c : List Call} {x : Layout}

theorem upTo_mono (h : φ ≤ φ') : a.upTo seat φ <+: a.upTo seat φ' := by
  have htake : (a.blocks seat).take (φ.rank + 1) <+: (a.blocks seat).take (φ'.rank + 1) :=
    List.take_prefix_take_left (Nat.succ_le_succ h)
  obtain ⟨rest, hrest⟩ := htake
  exact ⟨rest.flatten, by rw [upTo, upTo, ← hrest, List.flatten_append]⟩

theorem upTo_schedule : a.upTo seat φ <+: a.schedule seat :=
  upTo_mono (show φ.rank ≤ Phase.done.rank from φ.rank_le)

theorem upTo_next (φ : Phase) (h : φ'.rank = φ.rank + 1) :
    a.upTo seat φ' = a.upTo seat φ ++ a.block seat φ' := by
  have hlt : φ'.rank < (a.blocks seat).length := Nat.lt_succ_of_le φ'.rank_le
  rw [upTo, upTo, block, h, List.take_add_one (i := φ.rank + 1), List.flatten_append, ← h,
    List.getElem?_eq_getElem hlt]
  simp

theorem eq_milestone_of_mem_said {m : Milestone} {c : Call} (h : c ∈ seat.said m) :
    c = .milestone m := by
  unfold Seat.said at h
  split at h
  · exact List.mem_singleton.1 h
  · cases h

theorem early {y : Call} (h : y ∈ a.upTo seat .bounding) :
    (∃ m, y = .milestone m) ∨ y = .size a.total := by
  simp only [upTo, blocks, Phase.rank, List.take_succ_cons, List.take_zero, List.flatten_cons,
    List.flatten_nil, List.mem_append, List.mem_singleton, List.not_mem_nil, or_false] at h
  rcases h with h | (h | h) | (h | h) | h | h
  · exact .inl ⟨_, eq_milestone_of_mem_said h⟩
  · exact .inr h
  all_goals exact .inl ⟨_, eq_milestone_of_mem_said h⟩

theorem begins_of_early (h : c <+: a.upTo seat .bounding)
    (hlaid : .size a.total ∈ c → ∃ x, a.LaidOut seat x) : a.Begins seat c ∧ .finished ∉ c := by
  refine ⟨⟨h.trans upTo_schedule, ?_, hlaid⟩, fun hmem => ?_⟩
  · rintro ⟨y, hy, hhandover⟩
    rcases early (h.subset hy) with ⟨m, rfl⟩ | rfl <;> cases hhandover
  · rcases early (h.subset hmem) with ⟨m, hm⟩ | hm <;> cases hm

theorem begins_of_setup (h : c <+: a.upTo seat .setup) : a.Begins seat c ∧ .finished ∉ c := by
  refine begins_of_early (h.trans (upTo_mono (by decide))) fun hmem => ?_
  have hsaid : .size a.total ∈ seat.said .read := by
    simpa [upTo, blocks, Phase.rank] using h.subset hmem
  cases eq_milestone_of_mem_said hsaid

theorem begins_costing (hlaid : a.LaidOut seat x) :
    a.Begins seat (a.upTo seat .costing) ∧ .finished ∉ a.upTo seat .costing := by
  have hnext : a.upTo seat .costing = a.upTo seat .bounding ++ a.block seat .costing :=
    upTo_next .bounding rfl
  refine ⟨⟨upTo_schedule, fun _ => ?_, fun _ => ⟨x, hlaid⟩⟩, fun hmem => ?_⟩
  · rw [hnext]
    simp [block, blocks, Phase.rank]
  · rw [hnext, List.mem_append] at hmem
    rcases hmem with hmem | hmem
    · exact (begins_of_early (List.prefix_refl _) fun _ => ⟨x, hlaid⟩).2 hmem
    · have hsaid : .finished ∉ seat.said .bounded := fun h => by cases eq_milestone_of_mem_said h
      simp [block, blocks, Phase.rank, hsaid] at hmem

theorem finished_mem_schedule (a : Agenda) (seat : Seat) : .finished ∈ a.schedule seat := by
  simp [schedule, blocks]

theorem begins_schedule (hlaid : a.LaidOut seat x) : a.Begins seat (a.schedule seat) where
  pre := List.prefix_refl _
  whole _ := by simp [schedule, blocks]
  laidOut _ := ⟨x, hlaid⟩

end Agenda

def Action.isCall : Action → Bool
  | .call _ => true
  | _ => false

/-- Where a script leads, over the given links, that is carried out after the calls `c`: to a value
as `P` says or, when it fails, to calls as `Q` says. -/
def Script.Speaks {α : Type} (s : Script α) (links : Links) (c : List Call)
    (P : α → List Call → Prop) (Q : List Call → Prop) : Prop :=
  match s.run links with
  | (events, .ok a) => P a (c ++ History.calls events)
  | (events, .error _) => Q (c ++ History.calls events)

section
open History Script
variable {α β : Type} {links : Links} {c : List Call} {P : α → List Call → Prop}
  {Q : List Call → Prop}

theorem History.calls_append (h h' : List Event) : calls (h ++ h') = calls h ++ calls h' :=
  List.filterMap_append

theorem calls_map_event {l : List Action} (h : ∀ a ∈ l, a.isCall = false) :
    calls (l.map Action.event) = [] := by
  rw [calls, List.filterMap_map, List.filterMap_eq_nil_iff]
  intro a ha
  have hnot := h a ha
  cases a <;> first | rfl | cases hnot

namespace Script

@[simp] theorem speaks_pure {a : α} : (pure a : Script α).Speaks links c P Q ↔ P a c := by
  show P a (c ++ []) ↔ P a c
  rw [List.append_nil]

@[simp] theorem speaks_fail {e : Fault} : (fail e : Script α).Speaks links c P Q ↔ Q c := by
  show Q (c ++ []) ↔ Q c
  rw [List.append_nil]

theorem speaks_bind {s : Script β} {f : β → Script α} :
    (s >>= f).Speaks links c P Q ↔
      s.Speaks links c (fun b c => (f b).Speaks links c P Q) Q := by
  unfold Speaks
  rw [run_bind]
  rcases s.run links with ⟨events, e | b⟩
  · rfl
  · rcases hf : (f b).run links with ⟨later, e | a⟩ <;> simp [hf, calls_append]

theorem speaks_lift {r : Except Fault α} (hP : ∀ a, r = .ok a → P a c) (hQ : Q c) :
    (liftM r : Script α).Speaks links c P Q := by
  cases r with
  | error e =>
    show Q (c ++ [])
    rwa [List.append_nil]
  | ok a =>
    show P a (c ++ [])
    rw [List.append_nil]
    exact hP a rfl

theorem speaks_mapError {ε : Type} {r : Except ε α} {f : ε → Fault}
    (hP : ∀ a, r = .ok a → P a c) (hQ : Q c) :
    (liftM (r.mapError f) : Script α).Speaks links c P Q := by
  refine speaks_lift (fun a ha => hP a ?_) hQ
  cases r with
  | error e => cases ha
  | ok b => exact congrArg Except.ok (Except.ok.inj ha)

@[simp] theorem speaks_call {x : Call} {P : Unit → List Call → Prop} :
    (call x).Speaks links c P Q ↔ P () (c ++ [x]) := Iff.rfl

@[simp] theorem speaks_enter {p : Phase} {P : Unit → List Call → Prop} :
    (enter p).Speaks links c P Q ↔ P () c := by
  show P () (c ++ []) ↔ P () c
  rw [List.append_nil]

@[simp] theorem speaks_accept {m : Message} {P : Unit → List Call → Prop} :
    (accept m).Speaks links c P Q ↔ P () c := by
  show P () (c ++ []) ↔ P () c
  rw [List.append_nil]

theorem Speaks.mono {s : Script α} {P' : α → List Call → Prop} (hs : s.Speaks links c P Q)
    (hP : ∀ a c, P a c → P' a c) : s.Speaks links c P' Q := by
  unfold Speaks at hs ⊢
  split at hs
  · exact hP _ _ hs
  · exact hs

theorem calls_run_silent {s : Script α} (hs : s.Only fun a => a.isCall = false) (links : Links) :
    calls (s.run links).1 = [] := by
  unfold run
  rcases performAll_cases links s.actions with hall | ⟨before, peer, m, after, e, hsplit, hstop⟩
  · rw [hall]
    exact calls_map_event hs
  · have hbefore : calls (before.map Action.event) = [] :=
      calls_map_event fun a ha => hs a (hsplit ▸ List.mem_append_left _ ha)
    rcases hstop with hstop | ⟨cause, -, hstop⟩
    · rw [hstop]
      exact hbefore
    · rw [hstop, calls_append, hbefore]
      rfl

theorem speaks_silent {s : Script α} (hs : s.Only fun a => a.isCall = false)
    (hP : ∀ a, s.result = .ok a → P a c) (hQ : Q c) : s.Speaks links c P Q := by
  have hcalls := calls_run_silent hs links
  unfold Speaks
  split
  · next events a heq =>
    rw [heq] at hcalls
    rw [hcalls, List.append_nil]
    exact hP a (of_run_eq_ok heq).1
  · next events e heq =>
    rw [heq] at hcalls
    rw [hcalls, List.append_nil]
    exact hQ

theorem speaks_send {peer : Nat} {m : Message} {P : Unit → List Call → Prop} (hP : P () c)
    (hQ : Q c) : (send peer m).Speaks links c P Q :=
  speaks_silent (only_send.2 rfl) (fun _ _ => hP) hQ

end Script

namespace State

theorem speaks_tellAll {s : State} {m : Message} {P : Unit → List Call → Prop} (hP : P () c)
    (hQ : Q c) : (s.tellAll m).Speaks links c P Q :=
  speaks_silent (only_tellAll fun _ => rfl) (fun _ _ => hP) hQ

theorem speaks_sendEach {make : β → Message} {l : List (Nat × β)} {P : Unit → List Call → Prop}
    (hP : P () c) (hQ : Q c) : (sendEach make l).Speaks links c P Q :=
  speaks_silent (only_sendEach fun _ _ => rfl) (fun _ _ => hP) hQ

theorem speaks_report {s : State} {m : Milestone} {P : Unit → List Call → Prop}
    (h : P () (c ++ s.seat.said m)) : (s.report m).Speaks links c P Q := by
  unfold report
  rw [Seat.said] at h
  split at h
  · next hon =>
    rw [if_pos hon]
    exact h
  · next hoff =>
    rw [if_neg hoff]
    rw [List.append_nil] at h
    exact speaks_pure.2 h

theorem speaks_calls {l : List β} {make : β → Call} {P : Unit → List Call → Prop}
    (h : P () (c ++ l.map make)) : (l.forM fun b => call (make b)).Speaks links c P Q := by
  induction l generalizing c with
  | nil =>
    rw [List.map_nil, List.append_nil] at h
    exact speaks_pure.2 h
  | cons b l ih =>
    refine speaks_bind.2 (speaks_call.2 (ih ?_))
    rwa [List.append_assoc]

end State
end
end MeshNumbering
