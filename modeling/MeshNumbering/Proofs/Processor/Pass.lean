import Mathlib.Data.List.Basic
import MeshNumbering.Processor.Basic
import MeshNumbering.Proofs.Processor.Actions

/-! One run of a processor from its start until it returns, whatever its peers send and whichever of
them can be reached. A failure of its own is told to every other processor once, at the very end;
nothing else is. -/

namespace MeshNumbering

def Event.isNotice : Event → Bool
  | .sent _ (.abort ..) => true
  | .refused _ (.abort ..) => true
  | .halted _ => true
  | _ => false

/-- No message is refused, and no failure is told. -/
def Smooth (events : List Event) : Prop :=
  ∀ x ∈ events, x.isNotice = false ∧ ∀ peer m, x ≠ .refused peer m

/-- What leads to the failure `e`: no failure is told, and a message is refused only if that is the
failure and so the end. -/
structure FailsWith (e : Fault) (events : List Event) : Prop where
  silent : ∀ x ∈ events, x.isNotice = false
  stops : ∀ peer m, .refused peer m ∈ events →
    events.getLast? = some (.refused peer m) ∧ ∃ cause, e = .link peer cause

variable {e : Fault} {events later : List Event}

theorem Smooth.failsWith (h : Smooth events) : FailsWith e events where
  silent x hx := (h x hx).1
  stops peer m hx := absurd rfl ((h _ hx).2 peer m)

theorem Smooth.append (h : Smooth events) (h' : Smooth later) : Smooth (events ++ later) :=
  fun x hx => (List.mem_append.1 hx).elim (h x) (h' x)

theorem Smooth.append_failsWith (h : Smooth events) (h' : FailsWith e later) :
    FailsWith e (events ++ later) where
  silent x hx := (List.mem_append.1 hx).elim (fun hx => (h x hx).1) (h'.silent x)
  stops peer m hx := by
    have hlater : .refused peer m ∈ later :=
      (List.mem_append.1 hx).resolve_left fun hx => (h _ hx).2 peer m rfl
    obtain ⟨hlast, hcause⟩ := h'.stops peer m hlater
    rw [List.getLast?_append, hlast]
    exact ⟨rfl, hcause⟩

theorem smooth_map_event {l : List Action} (h : ∀ a ∈ l, a.isAbort = false) :
    Smooth (l.map Action.event) := by
  intro x hx
  obtain ⟨a, ha, rfl⟩ := List.mem_map.1 hx
  refine ⟨?_, by cases a <;> nofun⟩
  have hnot := h a ha
  cases a with
  | send peer m => cases m <;> first | rfl | cases hnot
  | _ => rfl

theorem Script.Tame.run {α : Type} {s : Script α} (hs : s.Tame) (links : Links) :
    match s.run links with
    | (events, .ok _) => Smooth events
    | (events, .error e) => FailsWith e events := by
  -- A script without aborts runs smoothly, up to its failure if it fails.
  unfold Script.run
  rcases performAll_cases links s.actions with hall | ⟨before, peer, m, after, e, hsplit, hstop⟩
  · rw [hall]
    have hsmooth := smooth_map_event hs
    cases s.result with
    | ok a => exact hsmooth
    | error e => exact hsmooth.failsWith
  · have hbefore : Smooth (before.map Action.event) :=
      smooth_map_event fun a ha => hs a (hsplit ▸ List.mem_append_left _ ha)
    rcases hstop with hstop | ⟨cause, rfl, hstop⟩
    · rw [hstop]
      exact hbefore.failsWith
    · rw [hstop]
      have hm : (Action.send peer m).isAbort = false :=
        hs _ (hsplit ▸ List.mem_append_right _ (List.mem_cons_self ..))
      refine hbefore.append_failsWith ⟨fun x hx => ?_, fun peer' m' hx => ?_⟩
      · obtain rfl := List.mem_singleton.1 hx
        cases m <;> first | rfl | cases hm
      · obtain ⟨rfl, rfl⟩ := Event.refused.inj (List.mem_singleton.1 hx)
        exact ⟨rfl, cause, rfl⟩

def Status.Follows (seat : Seat) (links : Links) (events : List Event) : Status → Prop
  | .returned (.error e) =>
    ∃ before, events = before ++ seat.farewell links e ∧ FailsWith e before
  | _ => Smooth events

theorem Smooth.prepend {seat : Seat} {links : Links} {x : Status}
    (h : Smooth events) (h' : x.Follows seat links later) :
    x.Follows seat links (events ++ later) := by
  match x with
  | .fresh => exact h.append h'
  | .waiting _ => exact h.append h'
  | .returned (.ok _) => exact h.append h'
  | .returned (.error e) =>
    obtain ⟨before, rfl, hbefore⟩ := h'
    exact ⟨events ++ before, (List.append_assoc ..).symm, h.append_failsWith hbefore⟩

theorem Seat.follows_conclude {seat : Seat} {links : Links} {s : Script State} (hs : s.Tame) :
    (seat.conclude links s).status.Follows seat links (seat.conclude links s).events := by
  have hrun := hs.run links
  unfold Seat.conclude
  split
  · next events e heq =>
    rw [heq] at hrun
    exact ⟨events, rfl, hrun⟩
  · next events state heq =>
    rw [heq] at hrun
    split <;> exact hrun

theorem Seat.farewell_of_fits {seat : Seat} (links : Links) (hlocal : e.isRemote = false)
    (hfits : (Message.abort seat.pe e.message).unfit? = none) : seat.farewell links e =
      (((List.range seat.npes).filter (· ≠ seat.pe)).map fun peer =>
        if (links peer).isNone then .sent peer (.abort seat.pe e.message)
        else .refused peer (.abort seat.pe e.message)) ++ [.halted e.message] := by
  simp only [farewell, hlocal, hfits, Bool.false_eq_true, if_false, Option.isSome_none]

theorem Seat.status_conclude_ne_fresh (seat : Seat) (links : Links) (s : Script State) :
    (seat.conclude links s).status ≠ .fresh := by
  unfold Seat.conclude
  split
  · nofun
  · split <;> nofun

namespace Processor

/-- A run of `p`: it is started, and as long as it waits it hears frames, or that no more will come.
Links may change from turn to turn; those given are the ones of the last turn. -/
inductive Pass (p : Processor) : Links → Processor → Prop
  | start (idle : p.isWaiting = false) (links : Links) (reader : Reader) :
      Pass p links (p.after (p.start links reader))
  | receive {earlier : Links} {q : Processor} (pass : Pass p earlier q) (waits : q.isWaiting = true)
      (links : Links) (sender : Nat) (frame : Frame) :
      Pass p links (q.after (q.receive links sender frame))
  | close {earlier : Links} {q : Processor} (pass : Pass p earlier q) (waits : q.isWaiting = true)
      (links : Links) : Pass p links (q.after (q.close links))

variable {p q : Processor} {links : Links}

theorem Pass.follows (h : p.Pass links q) : q.seat = p.seat ∧
    ∃ events, q.history = p.history ++ events ∧ q.status.Follows p.seat links events := by
  induction h with
  | start idle links reader =>
    refine ⟨rfl, _, rfl, ?_⟩
    show (p.start links reader).status.Follows p.seat links (p.start links reader).events
    unfold Processor.start
    split
    · exact Seat.follows_conclude State.moves_begin.tame
    · exact ⟨[], rfl, nofun, nofun⟩
  | @receive _ q _ waits links sender frame ih =>
    obtain ⟨hseat, events, hhistory, hfollows⟩ := ih
    obtain ⟨s, hs⟩ := isWaiting_iff.1 waits
    rw [hs] at hfollows
    refine ⟨hseat, events ++ (q.receive links sender frame).events, ?_, ?_⟩
    · rw [← List.append_assoc, ← hhistory]
      rfl
    · show (q.receive links sender frame).status.Follows p.seat links _
      rw [Processor.receive, hs, hseat]
      have hheard : Smooth [.heard sender frame] := by simp [Smooth, Event.isNotice]
      exact Smooth.prepend hfollows (hheard.prepend (Seat.follows_conclude State.tame_hear))
  | @close _ q _ waits links ih =>
    obtain ⟨hseat, events, hhistory, hfollows⟩ := ih
    obtain ⟨s, hs⟩ := isWaiting_iff.1 waits
    rw [hs] at hfollows
    refine ⟨hseat, events ++ (q.close links).events, ?_, ?_⟩
    · rw [← List.append_assoc, ← hhistory]
      rfl
    · show (q.close links).status.Follows p.seat links _
      rw [Processor.close, hs, hseat]
      refine Smooth.prepend hfollows ⟨[.closed], rfl, ?_, ?_⟩
      all_goals simp [Event.isNotice]

theorem status_start_ne_fresh (p : Processor) (links : Links) (reader : Reader) :
    (p.start links reader).status ≠ .fresh := by
  unfold Processor.start
  split
  · exact Seat.status_conclude_ne_fresh _ _ _
  · nofun

theorem status_receive_ne_fresh (waits : p.isWaiting = true) (links : Links) (sender : Nat)
    (frame : Frame) : (p.receive links sender frame).status ≠ .fresh := by
  obtain ⟨s, hs⟩ := isWaiting_iff.1 waits
  rw [Processor.receive, hs]
  exact Seat.status_conclude_ne_fresh _ _ _

theorem Pass.status_ne_fresh (h : p.Pass links q) : q.status ≠ .fresh := by
  cases h with
  | start idle links reader => exact status_start_ne_fresh p links reader
  | receive _ waits links sender frame => exact status_receive_ne_fresh waits links sender frame
  | @close _ q _ waits links =>
    obtain ⟨s, hs⟩ := isWaiting_iff.1 waits
    show (q.close links).status ≠ .fresh
    rw [Processor.close, hs]
    nofun

/-- A run that ends well, or because a peer has failed, tells nobody. Any other failure, from
wherever it comes, is told at the end: to every other processor once, in ascending order and
whichever of them take it, and then the whole run is halted. -/
theorem Pass.notifies_peers {result : Except Fault Outcome} (h : p.Pass links q)
    (hr : q.status = .returned result) : ∃ events, q.history = p.history ++ events ∧
      ((∀ e, result = .error e → e.isRemote = true) → ∀ x ∈ events, x.isNotice = false) ∧
      ∀ e, result = .error e → e.isRemote = false →
        (Message.abort p.seat.pe e.message).unfit? = none → ∃ before, FailsWith e before ∧
          events = before ++ (((List.range p.seat.npes).filter (· ≠ p.seat.pe)).map fun peer =>
            if (links peer).isNone then .sent peer (.abort p.seat.pe e.message)
            else .refused peer (.abort p.seat.pe e.message)) ++ [.halted e.message] := by
  obtain ⟨-, events, hhistory, hfollows⟩ := h.follows
  rw [hr] at hfollows
  refine ⟨events, hhistory, fun hquiet => ?_, fun e he hlocal hfits => ?_⟩
  · cases result with
    | ok outcome => exact fun x hx => (hfollows x hx).1
    | error e =>
      obtain ⟨before, rfl, hbefore⟩ := hfollows
      rw [Seat.farewell, if_pos (hquiet e rfl), List.append_nil]
      exact hbefore.silent
  · subst he
    obtain ⟨before, rfl, hbefore⟩ := hfollows
    refine ⟨before, hbefore, ?_⟩
    rw [Seat.farewell_of_fits links hlocal hfits, List.append_assoc]

def secondLeft : Links := fun peer => if peer = 1 then some .inboxClosed else none

def firstOfThree : Processor := fresh ⟨0, 3, .ofCount 3, none⟩

theorem departed_peer_notified : ∃ q before, firstOfThree.Pass secondLeft q ∧
    q.status = .returned (.error (.link 1 .inboxClosed)) ∧
    FailsWith (.link 1 .inboxClosed) before ∧ q.history = before ++
      [.refused 1 (.abort 0 (Fault.link 1 .inboxClosed).message),
        .sent 2 (.abort 0 (Fault.link 1 .inboxClosed).message)] ++
      [.halted (Fault.link 1 .inboxClosed).message] := by
  have hpass := Pass.start (p := firstOfThree) rfl secondLeft
    (.recorded (some 3) [0, 1, 2, 3, 1, 2, 3, 4, 2, 3, 4, 5] none)
  have hresult : (firstOfThree.after (firstOfThree.start secondLeft
      (.recorded (some 3) [0, 1, 2, 3, 1, 2, 3, 4, 2, 3, 4, 5] none))).result? =
        some (.error (.link 1 .inboxClosed)) := by
    decide +kernel
  have hstatus := result?_eq_some_iff.1 hresult
  obtain ⟨events, hhistory, -, htells⟩ := hpass.notifies_peers hstatus
  obtain ⟨before, hbefore, rfl⟩ := htells _ rfl rfl (by decide +kernel)
  exact ⟨_, before, hpass, hstatus, hbefore, hhistory⟩

end Processor
end MeshNumbering
