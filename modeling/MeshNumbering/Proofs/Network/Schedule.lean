import MeshNumbering.Proofs.Network.Lone
import MeshNumbering.Proofs.Processor.Calls

/-! The calls of one run of a processor, whatever its peers do to it. They follow one schedule, from
which a run can only break off, and never in the middle of the handover. -/

namespace MeshNumbering
open History

def Status.OnSchedule (seat : Seat) (c : List Call) : Status → Prop
  | .fresh => c = []
  | .waiting s => s.OnSchedule seat c ∧ s.Patient ∧ s.phase ≠ .done
  | .returned (.ok outcome) => ∃ a : Agenda, c = a.schedule seat ∧ (∃ x, a.LaidOut seat x) ∧
      a.rows = outcome.rows ∧ a.statistics = outcome.statistics
  | .returned (.error _) => seat.BreaksOff c

theorem Status.OnSchedule.breaksOff {x : Status} {seat : Seat} {c : List Call}
    (h : x.OnSchedule seat c) (hnot : ∀ outcome, x ≠ .returned (.ok outcome)) :
    seat.BreaksOff c := by
  match x with
  | .fresh =>
    obtain ⟨a⟩ : Nonempty Agenda := inferInstance
    exact ⟨a, a.begins_of_setup (h ▸ List.nil_prefix)⟩
  | .waiting s =>
    obtain ⟨hstate, -, hphase⟩ := h
    exact hstate.breaksOff hphase
  | .returned (.ok outcome) => exact absurd rfl (hnot outcome)
  | .returned (.error e) => exact h

namespace Seat
variable {seat : Seat} {c : List Call} {links : Links}

theorem calls_farewell (seat : Seat) (links : Links) (e : Fault) :
    calls (seat.farewell links e) = [] := by
  rw [calls, List.filterMap_eq_nil_iff]
  unfold farewell
  split
  · exact fun x hx => absurd hx List.not_mem_nil
  · refine List.forall_mem_append.2 ⟨List.forall_mem_map.2 fun peer _ => ?_, ?_⟩
    · cases (links peer).isNone <;> rfl
    · exact List.forall_mem_singleton.2 rfl

theorem onSchedule_conclude {s : Script State} (hs : s.Settles seat links c) :
    (seat.conclude links s).status.OnSchedule seat
      (c ++ calls (seat.conclude links s).events) := by
  unfold Script.Settles Script.Speaks at hs
  unfold Seat.conclude
  rcases hrun : s.run links with ⟨events, e | state⟩
  · rw [hrun] at hs
    show seat.BreaksOff (c ++ calls (events ++ seat.farewell links e))
    rwa [calls_append, calls_farewell, List.append_nil]
  · rw [hrun] at hs
    obtain ⟨hstate, hpatient⟩ := hs
    dsimp only
    split
    · next outcome hst =>
      obtain ⟨a, hc, hlaid, hrows, hstatistics⟩ := hstate.of_stage hst
      exact ⟨a, hc, hlaid, hrows, hstatistics⟩
    · next hnot =>
      refine ⟨hstate, hpatient, fun hdone => ?_⟩
      unfold State.phase at hdone
      cases hst : state.stage with
      | done outcome => exact hnot outcome hst
      | _ => rw [hst] at hdone; cases hdone

end Seat

namespace Processor
variable {p q : Processor} {seat : Seat} {links : Links}

theorem Pass.onSchedule (h : (fresh seat).Pass links q)
    (hknown : ∀ f ∈ frames q.history, f.1 < seat.npes) :
    q.seat = seat ∧ q.status.OnSchedule seat (calls q.history) := by
  induction h with
  | start idle links reader => exact ⟨rfl, Seat.onSchedule_conclude State.settles_begin⟩
  | @receive _ q _ waits links sender frame ih =>
    obtain ⟨s, hs⟩ := isWaiting_iff.1 waits
    have hframes : frames (q.after (q.receive links sender frame)).history =
        frames q.history ++ frames (q.receive links sender frame).events := List.filterMap_append ..
    rw [hframes, Processor.receive, hs] at hknown
    obtain ⟨hbefore, hnow⟩ := List.forall_mem_append.1 hknown
    obtain ⟨rfl, hq⟩ := ih hbefore
    rw [hs] at hq
    obtain ⟨hstate, hpatient, hphase⟩ := hq
    refine ⟨rfl, ?_⟩
    show (q.receive links sender frame).status.OnSchedule q.seat
      (calls (q.history ++ (q.receive links sender frame).events))
    rw [calls_append, Processor.receive, hs]
    have hsender : sender < q.seat.npes := hnow _ (List.mem_cons_self ..)
    exact Seat.onSchedule_conclude (hstate.hear hpatient hphase hsender frame)
  | @close _ q _ waits links ih =>
    obtain ⟨s, hs⟩ := isWaiting_iff.1 waits
    have hframes : frames (q.after (q.close links)).history =
        frames q.history ++ frames (q.close links).events := List.filterMap_append ..
    rw [hframes] at hknown
    obtain ⟨rfl, hq⟩ := ih (List.forall_mem_append.1 hknown).1
    rw [hs] at hq
    obtain ⟨hstate, -, hphase⟩ := hq
    refine ⟨rfl, ?_⟩
    show (q.close links).status.OnSchedule q.seat (calls (q.history ++ (q.close links).events))
    rw [calls_append, Processor.close, hs]
    show q.seat.BreaksOff
      (calls q.history ++ calls (q.seat.farewell links (.inboxClosed q.seat.pe)))
    rw [Seat.calls_farewell, List.append_nil]
    exact hstate.breaksOff hphase

theorem Pass.calls_of_returned {r : Except Fault Outcome} (h : p.Pass links q)
    (hr : p.status = .returned r) :
    calls q.history = calls p.history ∧ ∃ r', q.status = .returned r' := by
  induction h with
  | start idle links reader =>
    have hstart : p.start links reader =
        p.seat.giveUp links (.config (.secondRun p.seat.pe)) := by
      rw [Processor.start, hr]
    rw [after, hstart]
    refine ⟨?_, _, rfl⟩
    show calls (p.history ++ p.seat.farewell links (.config (.secondRun p.seat.pe))) = _
    rw [calls_append, Seat.calls_farewell, List.append_nil]
  | receive pass waits links sender frame ih | close pass waits links ih =>
    obtain ⟨s, hs⟩ := isWaiting_iff.1 waits
    obtain ⟨-, r', hr'⟩ := ih
    rw [hs] at hr'
    cases hr'

theorem calls_of_later {r : Except Fault Outcome} (hr : p.status = .returned r)
    (h : Relation.ReflTransGen (fun p q => ∃ links, Pass p links q) p q) :
    calls q.history = calls p.history := by
  have hall : calls q.history = calls p.history ∧ ∃ r', q.status = .returned r' := by
    induction h with
    | refl => exact ⟨rfl, r, hr⟩
    | tail _ hpass ih =>
      obtain ⟨hsame, r', hr'⟩ := ih
      obtain ⟨links, hpass⟩ := hpass
      obtain ⟨hstep, hreturned⟩ := hpass.calls_of_returned hr'
      exact ⟨hstep.trans hsame, hreturned⟩
  exact hall.1

/-- The calls of a run are the beginning of one schedule, whatever comes in and wherever the run
breaks off: it never does in the middle of the handover, which is to the workers of just the chares
owned. Only a run that ends well makes all calls, and their figures are those of its outcome. Later
runs make no calls. -/
theorem Pass.calls_in_order (h : (fresh seat).Pass links q)
    (hknown : ∀ f ∈ frames q.history, f.1 < seat.npes) :
    ∃ a : Agenda, a.Begins seat (calls q.history) ∧
      (calls q.history = a.schedule seat ↔ ∃ outcome, q.status = .returned (.ok outcome)) ∧
      (∀ outcome, q.status = .returned (.ok outcome) →
        a.rows = outcome.rows ∧ a.statistics = outcome.statistics) ∧
      ∀ result later, q.status = .returned result →
        Relation.ReflTransGen (fun p q => ∃ links, Pass p links q) q later →
          calls later.history = calls q.history := by
  obtain ⟨-, hstatus⟩ := h.onSchedule hknown
  by_cases hok : ∃ outcome, q.status = .returned (.ok outcome)
  · obtain ⟨outcome, hok⟩ := hok
    rw [hok] at hstatus
    obtain ⟨a, hc, ⟨x, hlaid⟩, hrows, hstatistics⟩ := hstatus
    refine ⟨a, hc ▸ Agenda.begins_schedule hlaid, ⟨fun _ => ⟨outcome, hok⟩, fun _ => hc⟩,
      fun outcome' hok' => ?_, fun _ _ => calls_of_later⟩
    obtain rfl := Except.ok.inj (Status.returned.inj (hok.symm.trans hok'))
    exact ⟨hrows, hstatistics⟩
  · obtain ⟨a, hbegins, hnot⟩ := hstatus.breaksOff fun outcome hx => hok ⟨outcome, hx⟩
    refine ⟨a, hbegins, ⟨fun hc => ?_, fun hx => absurd hx hok⟩,
      fun outcome hx => absurd ⟨outcome, hx⟩ hok, fun _ _ => calls_of_later⟩
    exact absurd (hc ▸ a.finished_mem_schedule seat) hnot

end Processor

theorem Run.pass {t : Scenario} {d : Delivery} {l : List Packet} {n : Network} (hr : Run t d l n)
    {pe : Nat} {p : Processor} (hp : n.processors[pe]? = some p) :
    p = .fresh (t.seat pe) ∨ (Processor.fresh (t.seat pe)).Pass .sound p := by
  refine hr.each (P := fun pe p => p = .fresh (t.seat pe) ∨
    (Processor.fresh (t.seat pe)).Pass .sound p) (fun _ => .inl rfl) ?_ ?_ hp
  · rintro pe p (rfl | hpass) hfresh
    · exact .inr (.start rfl .sound t.reader)
    · exact absurd hfresh hpass.status_ne_fresh
  · rintro pe p (rfl | hpass) hwaits sender - frame
    · cases hwaits
    · exact .inr (hpass.receive hwaits .sound sender frame)

def Scenario.reported : Scenario :=
  { twoElements with config := { Config.ofCount 2 with feedback := true } }

theorem reported_on_schedule : ∃ (p : Processor) (outcome : Outcome) (a : Agenda),
    (Processor.fresh (Scenario.reported.seat 0)).Pass .sound p ∧
    (∀ f ∈ frames p.history, f.1 < 2) ∧ p.status = .returned (.ok outcome) ∧
    calls p.history = a.schedule (Scenario.reported.seat 0) ∧
    a.rows = outcome.rows ∧ a.statistics = outcome.statistics ∧
    (calls p.history).length = 14 := by
  obtain ⟨l, hr⟩ := Run.played .reported .exact (.replicate 40 0)
  have hplayed : ∃ p ∈ (Scenario.reported.played .exact (.replicate 40 0)).processors[0]?,
      (∀ f ∈ frames p.history, f.1 < 2) ∧ p.Succeeds ∧ (calls p.history).length = 14 := by
    decide +kernel
  obtain ⟨p, hp, hknown, ⟨outcome, hok⟩, hlength⟩ := hplayed
  rcases hr.pass hp with rfl | hpass
  · cases hok
  · obtain ⟨a, -, hcomplete, hfigures, -⟩ := hpass.calls_in_order hknown
    obtain ⟨hrows, hstatistics⟩ := hfigures outcome hok
    exact ⟨p, outcome, a, hpass, hknown, hok, hcomplete.2 ⟨outcome, hok⟩, hrows, hstatistics,
      hlength⟩

end MeshNumbering
