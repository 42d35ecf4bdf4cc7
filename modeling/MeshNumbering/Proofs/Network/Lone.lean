import MeshNumbering.Proofs.Network.Runs
import MeshNumbering.Proofs.Processor.Backlog
import MeshNumbering.Proofs.Processor.Intake

/-! A processor among peers that cannot be trusted. They may send any frames in any order and stop
taking messages at any time; the processor still does one thing after the other and waits only when
it has done all it can. -/

namespace MeshNumbering
open History

/-! Carrying out a script over links that may fail. -/

theorem performAll_cut (links : Links) (l : List Action) :
    performAll links l = performAll .sound l ∨ ∃ before peer m later e,
      (performAll .sound l).1 = before ++ .sent peer m :: later ∧
      performAll links l = (before ++ [.refused peer m], some e) := by
  -- Up to the message that is refused all goes as if every message were taken.
  induction l with
  | nil => exact .inl rfl
  | cons a l ih =>
    -- Only a message with a frame can be refused.
    have hfirst : a.perform links = a.perform .sound ∨ ∃ peer m e,
        a.perform .sound = ([.sent peer m], none) ∧
        a.perform links = ([.refused peer m], some e) := by
      cases a with
      | send peer m =>
        simp only [Action.perform, Links.sound]
        cases m.unfit? with
        | some e => exact .inl rfl
        | none =>
          cases links peer with
          | none => exact .inl rfl
          | some e => exact .inr ⟨peer, m, _, rfl, rfl⟩
      | _ => exact .inl rfl
    rw [performAll, performAll]
    rcases hfirst with hsame | ⟨peer, m, e, hsound, hrefused⟩
    · rw [hsame]
      rcases a.perform .sound with ⟨events, _ | e⟩
      · rcases ih with ih | ⟨before, peer, m, later, e, hsound, hcut⟩
        · exact .inl (by rw [ih])
        · refine .inr ⟨events ++ before, peer, m, later, e, ?_, ?_⟩
          · simp [hsound]
          · simp [hcut]
      · exact .inl rfl
    · refine .inr ⟨[], peer, m, (performAll .sound l).1, e, ?_, ?_⟩
      · rw [hsound]
        rfl
      · rw [hrefused]
        rfl

theorem Script.run_cut {α : Type} (links : Links) (s : Script α) :
    s.run links = s.run .sound ∨ ∃ before peer m later e,
      (s.run .sound).1 = before ++ .sent peer m :: later ∧
      s.run links = (before ++ [.refused peer m], .error e) := by
  unfold Script.run
  rcases performAll_cut links s.actions with hsame | ⟨before, peer, m, later, e, hsound, hcut⟩
  · exact .inl (by rw [hsame])
  · refine .inr ⟨before, peer, m, later, e, ?_, by rw [hcut]⟩
    rw [← hsound]
    split
    · next heq => rw [heq]
    · next heq => rw [heq]

theorem Orderly.refuse {pe npes peer : Nat} {h later : List Event} {m : Message}
    (ho : Orderly pe npes (h ++ .sent peer m :: later)) :
    Orderly pe npes (h ++ [.refused peer m]) :=
  orderly_concat.2 ⟨ho.of_append, ho h (.sent peer m) later rfl⟩

theorem Script.InOrder.run {x : Script State} {seat : Seat} {h : List Event}
    (hx : x.InOrder seat h) (links : Links) :
    match x.run links with
    | (events, .ok s) => s.Tracks seat (h ++ events)
    | (events, .error _) => Orderly seat.pe seat.npes (h ++ events) := by
  unfold Script.InOrder Script.Leads at hx
  rcases x.run_cut links with hsame | ⟨before, peer, m, later, e, hsound, hcut⟩
  · rw [hsame]
    split at hx
    · next heq => rwa [heq]
    · next heq => rwa [heq]
  · rw [hcut]
    have hall : Orderly seat.pe seat.npes (h ++ (x.run .sound).1) := by
      split at hx
      · next heq => exact heq ▸ hx.log.orderly
      · next heq => exact heq ▸ hx
    rw [hsound, ← List.append_assoc] at hall
    show Orderly seat.pe seat.npes (h ++ (before ++ [.refused peer m]))
    rw [← List.append_assoc]
    exact hall.refuse

def Status.Tracks (seat : Seat) (h : List Event) : Status → Prop
  | .fresh => h = []
  | .waiting s => s.Tracks seat h
  | .returned (.ok _) => Orderly seat.pe seat.npes h ∧ HeardAll seat.npes h .deviation
  | .returned (.error _) => Orderly seat.pe seat.npes h

theorem Status.Tracks.orderly {seat : Seat} {h : List Event} {x : Status} (hx : x.Tracks seat h) :
    Orderly seat.pe seat.npes h := by
  rcases x with _ | s | (e | outcome)
  · exact (show h = [] from hx) ▸ orderly_nil
  · exact (State.Tracks.log hx).orderly
  · exact hx
  · exact hx.1

namespace Seat
variable {seat : Seat} {h : List Event}

theorem orderly_farewell (ho : Orderly seat.pe seat.npes h) (links : Links) (e : Fault) :
    Orderly seat.pe seat.npes (h ++ seat.farewell links e) := by
  refine ho.append fun e' he' h' => ?_
  unfold farewell at he'
  split at he'
  · cases he'
  · rcases List.mem_append.1 he' with he' | he'
    · obtain ⟨peer, -, rfl⟩ := List.mem_map.1 he'
      split
      · exact ⟨trivial, nofun⟩
      · exact ⟨trivial, nofun⟩
    · obtain rfl := List.mem_singleton.1 he'
      exact trivial

theorem tracks_conclude {x : Script State} (hx : x.InOrder seat h) (links : Links) :
    (seat.conclude links x).status.Tracks seat (h ++ (seat.conclude links x).events) := by
  have hrun := hx.run links
  unfold conclude
  split
  · next events e heq =>
    rw [heq] at hrun
    have hfarewell := orderly_farewell hrun links e
    rwa [List.append_assoc] at hfarewell
  · next events s heq =>
    rw [heq] at hrun
    split
    · next outcome hst => exact ⟨hrun.log.orderly, hrun.of_stage hst⟩
    · exact hrun

end Seat

namespace Processor

/-- A processor on its own: it is started with some reader, hears some frames and perhaps that no
more will come. Nothing is said about who sends what; only the number of peers is known. -/
inductive Lone (seat : Seat) : Processor → Prop
  | fresh : Lone seat (.fresh seat)
  | start {p : Processor} (lone : Lone seat p) (links : Links) (reader : Reader) :
      Lone seat (p.after (p.start links reader))
  | receive {p : Processor} (lone : Lone seat p) (links : Links) {sender : Nat} (frame : Frame)
      (known : sender < seat.npes) : Lone seat (p.after (p.receive links sender frame))
  | close {p : Processor} (lone : Lone seat p) (links : Links) :
      Lone seat (p.after (p.close links))

variable {p : Processor} {seat : Seat}

theorem Lone.tracks (hpe : seat.pe < seat.npes) (hp : p.Lone seat) :
    p.seat = seat ∧ p.status.Tracks seat p.history := by
  induction hp with
  | fresh => exact ⟨rfl, rfl⟩
  | @start p lone links reader ih =>
    obtain ⟨rfl, ih⟩ := ih
    refine ⟨rfl, ?_⟩
    show (p.start links reader).status.Tracks p.seat (p.history ++ (p.start links reader).events)
    unfold Processor.start
    split
    · next hfresh =>
      rw [hfresh] at ih
      rw [show p.history = [] from ih]
      exact Seat.tracks_conclude (State.tracks_begin hpe reader) links
    · exact Seat.orderly_farewell ih.orderly links (.config (.secondRun p.seat.pe))
  | @receive p lone links sender frame known ih =>
    obtain ⟨rfl, ih⟩ := ih
    refine ⟨rfl, ?_⟩
    show (p.receive links sender frame).status.Tracks p.seat
      (p.history ++ (p.receive links sender frame).events)
    unfold Processor.receive
    split
    · next s hwaits =>
      rw [hwaits] at ih
      have hheard : Extends p.history (p.history ++ [.heard sender frame]) [] [] := .of_append _
      have ht : s.Tracks p.seat (p.history ++ [.heard sender frame]) :=
        State.Tracks.follow ih hheard.steady_quiet (ih.log.heard sender frame)
      have hturn := Seat.tracks_conclude (ht.hear known frame) links
      rwa [List.append_assoc] at hturn
    · simpa using ih
  | @close p lone links ih =>
    obtain ⟨rfl, ih⟩ := ih
    refine ⟨rfl, ?_⟩
    show (p.close links).status.Tracks p.seat (p.history ++ (p.close links).events)
    unfold Processor.close
    split
    · have hclosed := orderly_concat.2 ⟨ih.orderly, show Permitted _ _ _ Event.closed from trivial⟩
      have hfarewell := Seat.orderly_farewell hclosed links (.inboxClosed p.seat.pe)
      rwa [List.append_assoc] at hfarewell
    · simpa using ih

end Processor

/-! What a processor has made of the frames it heard. -/

theorem State.run_hear {s s' : State} {links : Links} {sender : Nat} {frame : Frame}
    {events : List Event} (h : (s.hear sender frame).run links = (events, .ok s')) :
    ∃ m, Message.decode s.seat.config.frameLimit frame = .ok m ∧ m.sender = sender ∧
      (s.respond m).run links = (events, .ok s') := by
  unfold State.hear at h
  cases hm : Message.decode s.seat.config.frameLimit frame with
  | error e =>
    rw [hm] at h
    cases h
  | ok m =>
    rw [hm] at h
    change ((pure m : Script Message) >>= fun m => if m.sender = sender then s.respond m
      else Script.fail (.frame (.impostor m.kind sender m.sender))).run links = _ at h
    rw [pure_bind] at h
    split at h
    · next hsender => exact ⟨m, rfl, hsender, h⟩
    · cases h

theorem Seat.run_of_conclude {seat : Seat} {links : Links} {x : Script State} {s : State}
    (h : (seat.conclude links x).status = .waiting s) :
    x.run links = ((seat.conclude links x).events, .ok s) := by
  unfold conclude at h ⊢
  split at h
  · cases h
  · next events s' heq =>
    split at h
    · cases h
    · obtain rfl := Status.waiting.inj h
      rw [heq]

def Seat.Decodes (seat : Seat) (l : List (Nat × Frame)) (came : List Message) : Prop :=
  List.Forall₂ (fun f m => Message.decode seat.config.frameLimit f.2 = .ok m ∧ m.sender = f.1)
    l came

namespace Processor
variable {p : Processor} {seat : Seat} {s : State}

theorem Lone.reached (hpe : seat.pe < seat.npes) (hp : p.Lone seat) (hs : p.status = .waiting s) :
    ∃ came h, State.Reached seat s came h ∧ taken h = taken p.history ∧
      seat.Decodes (frames p.history) came := by
  induction hp generalizing s with
  | fresh => cases hs
  | @start p lone links reader ih =>
    obtain ⟨rfl, ht⟩ := lone.tracks hpe
    change (p.start links reader).status = .waiting s at hs
    show ∃ came h, _ ∧ taken h = taken (p.history ++ (p.start links reader).events) ∧
      p.seat.Decodes (frames (p.history ++ (p.start links reader).events)) came
    unfold Processor.start at hs ⊢
    split at hs
    · next hfresh =>
      rw [hfresh] at ht
      have hrun := Seat.run_of_conclude hs
      rw [show p.history = [] from ht, List.nil_append]
      refine ⟨[], _, .begin hrun, rfl, ?_⟩
      rw [Script.frames_of_run hrun]
      exact .nil
    · cases hs
  | @receive p lone links sender frame known ih =>
    obtain ⟨rfl, ht⟩ := lone.tracks hpe
    change (p.receive links sender frame).status = .waiting s at hs
    show ∃ came h, _ ∧ taken h = taken (p.history ++ (p.receive links sender frame).events) ∧
      p.seat.Decodes (frames (p.history ++ (p.receive links sender frame).events)) came
    unfold Processor.receive at hs ⊢
    split at hs
    · next s₀ hwaits =>
      rw [hwaits] at ht
      obtain ⟨came, h, hreached, htaken, hdecodes⟩ := ih hwaits
      have hrun := Seat.run_of_conclude hs
      obtain ⟨m, hm, hsender, hrespond⟩ := State.run_hear hrun
      rw [State.Tracks.seat_eq ht] at hm
      refine ⟨came ++ [m], _, hreached.respond hrespond, ?_, ?_⟩
      · rw [taken_append, taken_append, htaken]
        rfl
      · rw [frames_append]
        show p.seat.Decodes (frames p.history ++ ((sender, frame) :: frames _)) _
        rw [Script.frames_of_run hrun]
        exact List.rel_append hdecodes (.cons ⟨hm, hsender⟩ .nil)
    · next hidle => exact absurd hs (hidle s)
  | @close p lone links ih =>
    change (p.close links).status = .waiting s at hs
    unfold Processor.close at hs
    split at hs
    · cases hs
    · next hidle => exact absurd hs (hidle s)

/-- A processor that waits, however its peers behave, has acted on every message it heard or keeps it
for a later phase, and could do nothing more with what it has. -/
theorem Lone.at_rest (hpe : seat.pe < seat.npes) (hp : p.Lone seat) (hs : p.status = .waiting s) :
    ∃ came, seat.Decodes (frames p.history) came ∧ (came = [] ∨ s.AtRest came p.history) := by
  obtain ⟨came, h, hreached, htaken, hdecodes⟩ := hp.reached hpe hs
  refine ⟨came, hdecodes, ?_⟩
  cases hreached with
  | begin => exact .inl rfl
  | respond earlier run =>
    obtain ⟨haccounts, hsettled⟩ := earlier.accounts.respond run
    rw [htaken] at haccounts
    exact .inr (haccounts.atRest hsettled)

end Processor

theorem Run.lone {t : Scenario} {d : Delivery} {l : List Packet} {n : Network} (hr : Run t d l n)
    {pe : Nat} {p : Processor} (hp : n.processors[pe]? = some p) : p.Lone (t.seat pe) :=
  hr.each (P := fun pe p => p.Lone (t.seat pe)) (fun _ => .fresh)
    (fun _ _ h _ => h.start .sound t.reader)
    (fun _ _ h _ _ hsender frame => h.receive .sound frame hsender) hp

end MeshNumbering
