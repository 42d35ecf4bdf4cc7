import MeshNumbering.Processor.Advance

/-! Reasoning about scripts carried out where every message is taken. `Leads s h P Q` says where a
script leads that is carried out after the events `h`: to a value as `P` says, or, when it fails or
a message does not fit into a frame, to a fault as `Q` says. -/

namespace MeshNumbering

def Script.Leads {α : Type} (s : Script α) (h : List Event) (P : α → List Event → Prop)
    (Q : Fault → List Event → Prop) : Prop :=
  match s.run .sound with
  | (events, .ok a) => P a (h ++ events)
  | (events, .error e) => Q e (h ++ events)

theorem performAll_append (links : Links) (l m : List Action) :
    performAll links (l ++ m) =
      match performAll links l with
      | (events, some e) => (events, some e)
      | (events, none) => (events ++ (performAll links m).1, (performAll links m).2) := by
  induction l with
  | nil => rfl
  | cons a l ih =>
    rw [List.cons_append, performAll, performAll, ih]
    rcases a.perform links with ⟨events, _ | e⟩
    · rcases performAll links l with ⟨later, _ | e⟩ <;> simp
    · rfl

theorem Script.run_bind {α β : Type} (links : Links) (s : Script β) (f : β → Script α) :
    (s >>= f).run links =
      match s.run links with
      | (events, .error e) => (events, .error e)
      | (events, .ok b) => (events ++ ((f b).run links).1, ((f b).run links).2) := by
  obtain ⟨actions, result⟩ := s
  simp only [run, Bind.bind, bind]
  cases result with
  | error e => rcases performAll links actions with ⟨events, _ | e⟩ <;> rfl
  | ok b =>
    simp only [performAll_append]
    rcases performAll links actions with ⟨events, _ | e⟩
    · rcases hf : performAll links (f b).actions with ⟨later, _ | e⟩ <;> simp [hf]
    · rfl

namespace Script
variable {α β : Type} {h : List Event} {P : α → List Event → Prop}
  {Q : Fault → List Event → Prop}

@[simp] theorem leads_pure {a : α} : (pure a : Script α).Leads h P Q ↔ P a h := by
  show P a (h ++ []) ↔ P a h
  rw [List.append_nil]

@[simp] theorem leads_fail {e : Fault} : (fail e : Script α).Leads h P Q ↔ Q e h := by
  show Q e (h ++ []) ↔ Q e h
  rw [List.append_nil]

@[simp] theorem leads_bind {s : Script β} {f : β → Script α} :
    (s >>= f).Leads h P Q ↔ s.Leads h (fun b h => (f b).Leads h P Q) Q := by
  unfold Leads
  rw [run_bind]
  rcases s.run .sound with ⟨events, e | b⟩
  · rfl
  · rcases hf : (f b).run .sound with ⟨later, e | a⟩ <;> simp [hf]

theorem leads_lift {r : Except Fault α} :
    (liftM r : Script α).Leads h P Q ↔ (∀ a, r = .ok a → P a h) ∧ ∀ e, r = .error e → Q e h := by
  cases r with
  | error e =>
    show Q e (h ++ []) ↔ _
    simp
  | ok a =>
    show P a (h ++ []) ↔ _
    simp

theorem leads_mapError {ε : Type} {r : Except ε α} {f : ε → Fault}
    (hP : ∀ a, r = .ok a → P a h) (hQ : ∀ e, r = .error e → Q (f e) h) :
    (liftM (r.mapError f) : Script α).Leads h P Q := by
  rw [leads_lift]
  cases r with
  | error e =>
    refine ⟨fun a ha => (by cases ha), fun e' he => ?_⟩
    obtain rfl := Except.error.inj he
    exact hQ e rfl
  | ok a =>
    refine ⟨fun b hb => ?_, fun e he => (by cases he)⟩
    obtain rfl := Except.ok.inj hb
    exact hP a rfl

theorem leads_send {peer : Nat} {m : Message} {P : Unit → List Event → Prop} :
    (send peer m).Leads h P Q ↔ (m.unfit? = none → P () (h ++ [.sent peer m])) ∧
      ∀ e, m.unfit? = some e → Q (.frame e) h := by
  cases hm : m.unfit? with
  | none => simp [Leads, run, send, performAll, Action.perform, hm, Links.sound]
  | some e => simp [Leads, run, send, performAll, Action.perform, hm]

@[simp] theorem leads_call {c : Call} {P : Unit → List Event → Prop} :
    (call c).Leads h P Q ↔ P () (h ++ [.called c]) := Iff.rfl

@[simp] theorem leads_enter {p : Phase} {P : Unit → List Event → Prop} :
    (enter p).Leads h P Q ↔ P () (h ++ [.entered p]) := Iff.rfl

@[simp] theorem leads_accept {m : Message} {P : Unit → List Event → Prop} :
    (accept m).Leads h P Q ↔ P () (h ++ [.accepted m]) := Iff.rfl

theorem Leads.mono {s : Script α} {P' : α → List Event → Prop} {Q' : Fault → List Event → Prop}
    (hs : s.Leads h P Q) (hP : ∀ a h, P a h → P' a h) (hQ : ∀ e h, Q e h → Q' e h) :
    s.Leads h P' Q' := by
  unfold Leads at hs ⊢
  split at hs
  · exact hP _ _ hs
  · exact hQ _ _ hs

theorem leads_sendAll {peers : List Nat} {m : Message} {P : Unit → List Event → Prop}
    (hP : m.unfit? = none ∨ peers = [] → P () (h ++ peers.map fun peer => .sent peer m))
    (hQ : ∀ e, m.unfit? = some e → Q (.frame e) h) : (sendAll peers m).Leads h P Q := by
  cases hm : m.unfit? with
  | none =>
    have hall : performAll .sound (peers.map fun peer => .send peer m) =
        (peers.map fun peer => .sent peer m, none) := by
      clear hP
      induction peers with
      | nil => rfl
      | cons peer peers ih =>
        rw [List.map_cons, performAll, ih]
        simp [Action.perform, hm, Links.sound]
    simpa [Leads, run, sendAll, hall] using hP (.inl hm)
  | some e =>
    cases peers with
    | nil => simpa [Leads, run, sendAll, performAll] using hP (.inr rfl)
    | cons peer peers =>
      simpa [Leads, run, sendAll, performAll, Action.perform, hm] using hQ e hm

end Script

namespace State
open Script
variable {β : Type} {h : List Event} {Q : Fault → List Event → Prop}

theorem leads_sendEach {make : β → Message} {l : List (Nat × β)}
    {P : Unit → List Event → Prop} (I : List (Nat × β) → List Event → Prop) (h₀ : I [] h)
    (hI : ∀ done peer b rest h, done ++ (peer, b) :: rest = l → I done h →
      (make b).unfit? = none → I (done ++ [(peer, b)]) (h ++ [.sent peer (make b)]))
    (hP : ∀ h, I l h → P () h)
    (hQ : ∀ done peer b rest h e, done ++ (peer, b) :: rest = l → I done h →
      (make b).unfit? = some e → Q (.frame e) h) :
    (sendEach make l).Leads h P Q := by
  have main : ∀ done rest h, done ++ rest = l → I done h → (sendEach make rest).Leads h P Q := by
    intro done rest
    induction rest generalizing done with
    | nil =>
      intro h hl hd
      rw [List.append_nil] at hl
      exact leads_pure.2 (hP h (hl ▸ hd))
    | cons p rest ih =>
      obtain ⟨peer, b⟩ := p
      intro h hl hd
      refine leads_bind.2 (leads_send.2 ⟨fun hm => ?_, fun e he => ?_⟩)
      · exact ih (done ++ [(peer, b)]) _ (by simpa using hl) (hI done peer b rest h hl hd hm)
      · exact hQ done peer b rest h e hl hd he
  exact main [] l h rfl h₀

theorem leads_report {s : State} {m : Milestone} {P : Unit → List Event → Prop} :
    (s.report m).Leads h P Q ↔
      P () (if s.seat.config.feedback then h ++ [.called (.milestone m)] else h) := by
  unfold report
  split
  · rfl
  · exact leads_pure

theorem leads_calls {l : List β} {make : β → Call} {P : Unit → List Event → Prop} :
    (l.forM fun b => call (make b)).Leads h P Q ↔
      P () (h ++ l.map fun b => .called (make b)) := by
  induction l generalizing h with
  | nil => exact (leads_pure (a := ())).trans (by rw [List.map_nil, List.append_nil])
  | cons b l ih =>
    show (call (make b) >>= fun _ => l.forM fun b => call (make b)).Leads h P Q ↔ _
    rw [leads_bind, leads_call, ih, List.append_assoc]
    rfl

end State
end MeshNumbering
