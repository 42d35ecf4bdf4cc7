import MeshNumbering.Proofs.Processor.Scripts

/-! What a script may do at all, whatever comes of it. Apart from the farewell no script of a
processor contains an abort. Acting on a message only sends, and moving on takes no messages. -/

namespace MeshNumbering

def Script.Only {α : Type} (C : Action → Prop) (s : Script α) : Prop := ∀ a ∈ s.actions, C a

namespace Script
variable {α β : Type} {C C' : Action → Prop} {s : Script α}

@[simp] theorem only_pure {a : α} : (pure a : Script α).Only C := nofun

@[simp] theorem only_fail {e : Fault} : (fail e : Script α).Only C := nofun

@[simp] theorem only_lift {r : Except Fault α} : (liftM r : Script α).Only C := nofun

@[simp] theorem only_send {peer : Nat} {m : Message} :
    (send peer m).Only C ↔ C (.send peer m) := List.forall_mem_singleton

@[simp] theorem only_call {c : Call} : (call c).Only C ↔ C (.call c) := List.forall_mem_singleton

@[simp] theorem only_enter {p : Phase} : (enter p).Only C ↔ C (.enter p) :=
  List.forall_mem_singleton

@[simp] theorem only_accept {m : Message} : (accept m).Only C ↔ C (.accept m) :=
  List.forall_mem_singleton

@[simp] theorem only_sendAll {peers : List Nat} {m : Message} :
    (sendAll peers m).Only C ↔ ∀ peer ∈ peers, C (.send peer m) := List.forall_mem_map

@[simp] theorem only_bind {f : α → Script β} :
    (s >>= f).Only C ↔ s.Only C ∧ ∀ a, s.result = .ok a → (f a).Only C := by
  change (∀ a ∈ (Script.bind s f).actions, C a) ↔ _
  unfold Script.bind Only
  cases s.result with
  | error e => simp
  | ok b => simp only [List.forall_mem_append, Except.ok.injEq, forall_eq']

@[simp] theorem only_map {f : α → β} : (f <$> s).Only C ↔ s.Only C := by
  rw [map_eq_pure_bind, only_bind]
  simp only [only_pure, implies_true, and_true]

theorem Only.mono (hs : s.Only C) (h : ∀ a, C a → C' a) : s.Only C' := fun a ha => h a (hs a ha)

end Script

def Action.event : Action → Event
  | .send peer m => .sent peer m
  | .call c => .called c
  | .enter p => .entered p
  | .accept m => .accepted m

theorem performAll_cases (links : Links) (l : List Action) :
    performAll links l = (l.map Action.event, none) ∨ ∃ before peer m after e,
      l = before ++ .send peer m :: after ∧
      (performAll links l = (before.map Action.event, some e) ∨
        ∃ cause, e = .link peer cause ∧
          performAll links l = (before.map Action.event ++ [.refused peer m], some e)) := by
  induction l with
  | nil => exact .inl rfl
  | cons a l ih =>
    have hfirst : a.perform links = ([a.event], none) ∨ ∃ peer m e, a = .send peer m ∧
        (a.perform links = ([], some e) ∨ ∃ cause, e = .link peer cause ∧
          a.perform links = ([.refused peer m], some e)) := by
      cases a with
      | send peer m =>
        simp only [Action.perform]
        cases m.unfit? with
        | some e => exact .inr ⟨peer, m, _, rfl, .inl rfl⟩
        | none =>
          cases links peer with
          | none => exact .inl rfl
          | some cause => exact .inr ⟨peer, m, _, rfl, .inr ⟨cause, rfl, rfl⟩⟩
      | _ => exact .inl rfl
    rw [performAll]
    rcases hfirst with hdone | ⟨peer, m, e, rfl, hstop | ⟨cause, he, hstop⟩⟩
    · rw [hdone]
      rcases ih with ih | ⟨before, peer, m, after, e, rfl, ih | ⟨cause, he, ih⟩⟩
      · exact .inl (by rw [ih]; rfl)
      · exact .inr ⟨a :: before, peer, m, after, e, rfl, .inl (by rw [ih]; rfl)⟩
      · exact .inr ⟨a :: before, peer, m, after, e, rfl, .inr ⟨cause, he, by rw [ih]; rfl⟩⟩
    · exact .inr ⟨[], peer, m, l, e, rfl, .inl (by rw [hstop]; rfl)⟩
    · exact .inr ⟨[], peer, m, l, e, rfl, .inr ⟨cause, he, by rw [hstop]; rfl⟩⟩

theorem Script.of_run_eq_ok {α : Type} {s : Script α} {links : Links} {events : List Event} {a : α}
    (h : s.run links = (events, .ok a)) :
    s.result = .ok a ∧ events = s.actions.map Action.event := by
  unfold Script.run at h
  rcases performAll_cases links s.actions with hall | ⟨_, _, _, _, e, -, hstop | ⟨_, -, hstop⟩⟩
  · rw [hall] at h
    obtain ⟨rfl, hresult⟩ := Prod.mk.inj h
    exact ⟨hresult, rfl⟩
  all_goals
    rw [hstop] at h
    cases h

def Action.isAbort : Action → Bool
  | .send _ (.abort ..) => true
  | _ => false

abbrev Script.Tame {α : Type} (s : Script α) : Prop := s.Only fun a => a.isAbort = false

def Action.IsSend : Action → Prop
  | .send _ (.abort ..) => False
  | .send .. => True
  | _ => False

def Action.isMove : Action → Bool
  | .send _ (.abort ..) => false
  | .accept _ => false
  | _ => true

theorem Action.IsSend.isMove_eq {a : Action} (h : a.IsSend) : a.isMove = true := by
  cases a with
  | send peer m => cases m <;> first | rfl | exact h.elim
  | _ => exact h.elim

theorem Action.isAbort_of_isMove {a : Action} (h : a.isMove = true) : a.isAbort = false := by
  cases a with
  | send peer m => cases m <;> first | rfl | cases h
  | _ => rfl

abbrev Script.Moves {α : Type} (s : Script α) : Prop := s.Only fun a => a.isMove = true

theorem Script.Moves.tame {α : Type} {s : Script α} (hs : s.Moves) : s.Tame :=
  hs.mono fun _ => Action.isAbort_of_isMove

theorem Script.moves_of_sends {α : Type} {s : Script α} (hs : s.Only Action.IsSend) : s.Moves :=
  hs.mono fun _ => Action.IsSend.isMove_eq

namespace State
open Script
variable {β : Type} {C : Action → Prop} {s : State}

theorem only_report {m : Milestone} (h : C (.call (.milestone m))) : (s.report m).Only C := by
  unfold report
  split
  · exact only_call.2 h
  · exact only_pure

theorem only_tellAll {m : Message} (h : ∀ peer, C (.send peer m)) : (s.tellAll m).Only C :=
  only_sendAll.2 fun peer _ => h peer

theorem only_sendEach {make : β → Message} {l : List (Nat × β)}
    (h : ∀ peer b, C (.send peer (make b))) : (sendEach make l).Only C := by
  induction l with
  | nil => exact only_pure
  | cons e l ih => exact only_bind.2 ⟨only_send.2 (h e.1 e.2), fun _ _ => ih⟩

theorem only_calls {make : β → Call} {l : List β} (h : ∀ b, C (.call (make b))) :
    (l.forM fun b => call (make b)).Only C := by
  induction l with
  | nil => exact only_pure
  | cons b l ih => exact only_bind.2 ⟨only_call.2 (h b), fun _ _ => ih⟩

/-! Acting on messages. -/

theorem sends_react {m : Message} {reaction : Script State}
    (h : s.react m = some reaction) : reaction.Only Action.IsSend := by
  cases m with
  | load | delivered | offset | cost | deviation | abort =>
    obtain rfl := Option.some.inj h
    simp
  | batch | receipt | mask =>
    simp only [react] at h
    split at h
    · obtain rfl := Option.some.inj h
      simp [Action.IsSend]
    · cases h
  | lower =>
    simp only [react] at h
    split at h
    · split at h
      all_goals
        obtain rfl := Option.some.inj h
        simp
    · cases h
  | query q nodes =>
    obtain ⟨g, -, rfl⟩ := Option.map_eq_some_iff.1 h
    simp [answer, Action.IsSend]
  | request q nodes =>
    obtain ⟨r, -, rfl⟩ := Option.map_eq_some_iff.1 h
    refine only_bind.2 ⟨only_lift, fun answered _ => ?_⟩
    obtain ⟨_ | ids, r'⟩ := answered <;> simp [Action.IsSend]
  | assigned q ids =>
    obtain ⟨r, -, rfl⟩ := Option.map_eq_some_iff.1 h
    unfold absorb
    split
    · exact only_fail
    · exact only_pure

theorem tame_take {m : Message} : (s.take m).Tame := by
  unfold take
  split
  · next reaction h =>
    exact only_bind.2 ⟨(moves_of_sends (sends_react h)).tame, fun _ _ => by simp [Action.isAbort]⟩
  · split
    · exact only_pure
    · exact only_fail

theorem tame_takeAll {l : List Message} : (l.foldlM take s).Tame := by
  induction l generalizing s with
  | nil => exact only_pure
  | cons m l ih =>
    rw [List.foldlM_cons]
    exact only_bind.2 ⟨tame_take, fun _ _ => ih⟩

/-! Moving on. -/

theorem moves_begin {seat : Seat} {reader : Reader} : (begin seat reader).Moves := by
  have hrest : ∀ chunk centroids, (do
      let s := State.start seat ⟨chunk, centroids⟩
      s.report .read
      s.tellAll (.load s.pe chunk.size)
      return s : Script State).Moves := by
    intro chunk centroids
    simp [only_report, only_tellAll, Action.isMove]
  unfold begin
  refine only_bind.2 ⟨only_lift, fun _ _ => only_bind.2 ⟨only_lift, fun chunk _ => ?_⟩⟩
  show (if seat.config.algorithm.needsCentroids then _ else _ : Script State).Moves
  split
  · exact only_bind.2 ⟨only_lift, fun centroids _ => hrest chunk centroids⟩
  · exact only_bind.2 ⟨only_pure, fun centroids _ => hrest chunk centroids⟩

theorem moves_ship {t : Setup} : (s.ship t).Moves := by
  unfold ship
  simp [only_report, only_sendEach, Action.isMove]

theorem sends_announce {t : Shipping} : (s.announce t).Only Action.IsSend := by
  unfold announce
  split
  · exact only_bind.2 ⟨only_tellAll fun _ => trivial, fun _ _ => only_pure⟩
  · exact only_pure

theorem moves_takeStock {t : Shipping} : (s.takeStock t).Moves := by
  unfold takeStock
  simp [only_report, only_tellAll, Action.isMove]

theorem moves_share {t : Indexed} : (s.share t).Moves := by
  unfold share
  simp [only_report, only_tellAll, Action.isMove]

theorem sends_number {t : Reordering} : (s.number t).Only Action.IsSend := by
  unfold number
  split
  · exact only_pure
  · split
    · exact only_pure
    · refine only_bind.2 ⟨only_lift, fun _ _ => ?_⟩
      refine only_bind.2 ⟨only_sendEach fun _ _ => trivial, fun _ _ => ?_⟩
      exact only_bind.2 ⟨only_sendEach fun _ _ => trivial, fun _ _ => only_pure⟩

theorem moves_relabel {t : Reordering} {base : Nat} : (s.relabel t base).Moves := by
  unfold relabel
  refine only_bind.2 ⟨only_lift, fun relabelling _ => ?_⟩
  refine only_bind.2 ⟨only_report rfl, fun _ _ => ?_⟩
  show (if s.pe + 1 < s.npes then _ else _ : Script State).Moves
  split <;> simp [Action.isMove]

theorem moves_employ {t : Bounding} {lower : Nat} : (s.employ t lower).Moves := by
  unfold employ
  refine only_bind.2 ⟨only_report rfl, fun _ _ => ?_⟩
  refine only_bind.2 ⟨only_calls fun _ => rfl, fun _ _ => ?_⟩
  simp [only_tellAll, Action.isMove]

theorem sends_compare {t : Costing} : (s.compare t).Only Action.IsSend := by
  unfold compare
  split
  · exact only_pure
  · split
    · exact only_pure
    · exact only_bind.2 ⟨only_tellAll fun _ => trivial, fun _ _ => only_pure⟩

theorem moves_finish {t : Costing} {statistics : CostStatistics} :
    (s.finish t statistics).Moves := by
  unfold finish
  split <;> simp [Action.isMove]

theorem moves_work : s.work.Moves := by
  unfold work
  split
  · split
    · exact moves_ship
    · exact only_pure
  · refine only_bind.2 ⟨moves_of_sends sends_announce, fun t _ => ?_⟩
    split
    · exact moves_takeStock
    · exact only_pure
  · split
    · exact moves_share
    · exact only_pure
  · refine only_bind.2 ⟨moves_of_sends sends_number, fun t _ => ?_⟩
    split
    · split
      · exact moves_relabel
      · exact only_pure
    · exact only_pure
  · split
    · exact moves_employ
    · exact only_pure
  · refine only_bind.2 ⟨moves_of_sends sends_compare, fun t _ => ?_⟩
    split
    · exact moves_finish
    · exact only_pure
  · exact only_pure

theorem tame_settle {n : Nat} : (settle n s).Tame := by
  induction n generalizing s with
  | zero => exact only_pure
  | succ n ih =>
    unfold settle proceed
    refine only_bind.2 ⟨only_bind.2 ⟨moves_work.tame, fun _ _ => only_pure⟩, fun t _ => ?_⟩
    split
    · exact only_pure
    · exact only_bind.2 ⟨tame_takeAll, fun _ _ => ih⟩

theorem tame_hear {sender : Nat} {frame : Frame} : (s.hear sender frame).Tame := by
  unfold hear
  refine only_bind.2 ⟨only_lift, fun m _ => ?_⟩
  split
  · exact only_bind.2 ⟨tame_take, fun _ _ => tame_settle⟩
  · exact only_fail

end State
end MeshNumbering
