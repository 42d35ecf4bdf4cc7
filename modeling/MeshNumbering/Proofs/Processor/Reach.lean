import MeshNumbering.Proofs.Processor.Course

/-! What the history of a processor tells, whether it still waits or has returned, and so what its
peers can conclude from what they have heard of it. -/

namespace MeshNumbering
open History

variable {t : Scenario} {once : Prop} {pe q : Nat} {h : List Event} {s : State} {m : Message}

theorem Turn.packets_eq (pe : Nat) (x : Turn) :
    x.packets pe = (sent x.events).map fun y => ⟨pe, y.1, y.2.encode⟩ := by
  rw [Turn.packets, sent, List.map_filterMap]
  apply List.filterMap_congr
  intro e _
  cases e <;> rfl

theorem Turn.source_of_mem_packets {x : Turn} {y : Packet} (h : y ∈ x.packets pe) :
    y.source = pe := by
  rw [Turn.packets_eq] at h
  obtain ⟨z, -, rfl⟩ := List.mem_map.1 h
  rfl

theorem Seat.frames_conclude (seat : Seat) (x : Script State) :
    frames (seat.conclude .sound x).events = [] := by
  have hfarewell : ∀ e, frames (seat.farewell .sound e) = [] := by
    intro e
    obtain ⟨_, -, -, -, ha⟩ := seat.adds_farewell (e := e) []
    exact ha.frames_eq
  unfold conclude
  split
  · next events e heq =>
    show frames (events ++ seat.farewell .sound e) = []
    rw [frames_append, Script.frames_of_run heq, hfarewell]
    rfl
  · next events s' heq => split <;> exact Script.frames_of_run heq

namespace Processor
variable {p : Processor}

/-- A processor of a run in which nothing is forged. -/
structure Stands (p : Processor) (t : Scenario) (once : Prop) (pe : Nat) : Prop where
  seat_eq : p.seat = t.seat pe
  status : p.status.Stands t once pe p.history

theorem Stands.start (hp : p.Stands t once pe) (hpe : pe < t.npes) (hfresh : p.status = .fresh) :
    (p.after (p.start .sound t.reader)).Stands t once pe := by
  have hhistory := hp.status
  rw [hfresh] at hhistory
  have hturn : p.start .sound t.reader =
      (t.seat pe).conclude .sound (State.begin (t.seat pe) t.reader) := by
    rw [Processor.start, hfresh, hp.seat_eq]
  refine ⟨hp.seat_eq, ?_⟩
  show (p.start .sound t.reader).status.Stands t once pe
    (p.history ++ (p.start .sound t.reader).events)
  rw [hturn, show p.history = [] from hhistory]
  exact Seat.stands_conclude (State.leads_begin hpe)

theorem Stands.receive (hp : p.Stands t once pe) (hs : p.status = .waiting s) {f : Frame}
    (ha : t.Arrives once pe s.mark p.history q f) :
    (p.after (p.receive .sound q f)).Stands t once pe := by
  have hw := hp.status
  rw [hs] at hw
  have hturn : p.receive .sound q f =
      ⟨.heard q f :: ((t.seat pe).conclude .sound (s.hear q f)).events,
        ((t.seat pe).conclude .sound (s.hear q f)).status⟩ := by
    rw [Processor.receive, hs, hp.seat_eq]
  refine ⟨hp.seat_eq, ?_⟩
  show (p.receive .sound q f).status.Stands t once pe (p.history ++ (p.receive .sound q f).events)
  rw [hturn]
  have := Seat.stands_conclude (State.Waits.leads_hear hw ha)
  rwa [List.append_assoc] at this

theorem frames_start (p : Processor) (reader : Reader) :
    frames (p.start .sound reader).events = [] := by
  unfold Processor.start
  split
  · exact Seat.frames_conclude ..
  · obtain ⟨_, -, -, -, ha⟩ := p.seat.adds_farewell (e := .config (.secondRun p.seat.pe)) []
    exact ha.frames_eq

theorem frames_receive (hs : p.status = .waiting s) (f : Frame) :
    frames (p.receive .sound q f).events = [(q, f)] := by
  rw [Processor.receive, hs]
  exact congrArg ((q, f) :: ·) (Seat.frames_conclude ..)

def Mourns (p : Processor) (q : Nat) (m : Message) : Prop :=
  ∃ e, p.status = .returned (.error e) ∧ e.isRemote = false ∧
    m = .abort p.seat.pe e.message ∧ m.unfit? = none ∧ q < p.seat.npes ∧ q ≠ p.seat.pe

/-- What the history of a processor that has come as far as mark `μ` tells, its farewell
included. -/
structure Reaches (p : Processor) (t : Scenario) (once : Prop) (pe μ : Nat) : Prop where
  due : ∀ q m, (q, m) ∈ sent p.history → t.Due pe μ p.history q m ∨ p.Mourns q m
  received : ∀ k q, Heard p.history k q → t.Passes k q pe ∧ k.actedFrom ≤ μ ∧
    (q, (t.message k q pe).encode) ∈ frames p.history
  level : ∀ k q, t.Passes k q pe → k.neededFor ≤ μ → Heard p.history k q
  passed : t.Passed pe μ
  handed : handoffs p.history = if μ < 7 then [] else t.handoffs pe
  sent_once : once → (sent p.history).Nodup

theorem reaches_of_record {μ : Nat} {l : List (Nat × Message)} (hr : Record t once pe μ h)
    (ha : Adds h p.history l []) (hl : ∀ q m, (q, m) ∈ l → p.Mourns q m) (hnodup : l.Nodup) :
    p.Reaches t once pe μ where
  due q m hm := by
    rw [ha.sent_eq, List.mem_append] at hm
    refine hm.imp (fun hm => ?_) (hl q m)
    obtain ⟨hg, hp, hf, hs, hk⟩ := hr.due q m hm
    exact ⟨hg, hp, hf, hs, fun k hk' => by rw [ha.heard_eq]; exact hk k hk'⟩
  received k q hh := by
    rw [ha.heard_eq] at hh
    rw [ha.frames_eq]
    obtain ⟨m, hm, rfl, rfl⟩ := hh
    refine ⟨hr.passes m hm, hr.actedFrom_le m hm, ?_⟩
    rw [← hr.genuine m hm]
    exact hr.received m hm
  level := by rw [ha.heard_eq]; exact hr.level
  passed := hr.passed
  handed := by rw [ha.handoffs_eq, List.append_nil]; exact hr.handed
  sent_once ho := by
    rw [ha.sent_eq, List.nodup_append]
    refine ⟨hr.sent_once ho, hnodup, fun x hx y hy hxy => ?_⟩
    subst hxy
    obtain ⟨e, -, -, hm, -⟩ := hl x.1 x.2 hy
    have hp := (hr.due x.1 x.2 hx).passes
    rw [hm] at hp
    exact hp.2.2

theorem Stands.reaches_waiting (hp : p.Stands t once pe) (hs : p.status = .waiting s) :
    p.Reaches t once pe s.mark := by
  have hw := hp.status
  rw [hs] at hw
  exact reaches_of_record hw.live.record (.refl _) (fun q m hm => by cases hm) .nil

theorem Stands.reaches_ok (hp : p.Stands t once pe) {outcome : Outcome}
    (hs : p.status = .returned (.ok outcome)) :
    outcome = t.outcome pe ∧ p.Reaches t once pe 9 := by
  have hw := hp.status
  rw [hs] at hw
  obtain ⟨s, hst, hl⟩ := hw
  have hmark : s.mark = 9 := congrArg Stage.mark hst
  have hat := hl.state.stage
  rw [hst] at hat
  exact ⟨hat, hmark ▸ reaches_of_record hl.record (.refl _) (fun q m hm => by cases hm) .nil⟩

theorem Stands.reaches_error (hp : p.Stands t once pe) {e : Fault}
    (hs : p.status = .returned (.error e)) : ∃ μ, p.Reaches t once pe μ ∧
      (once → t.Reported pe e ∨ e.isMisdelivery = false) ∧
      ((t.Reported pe e ∨ e.isRemote = false) ∧ (once → μ ≤ 6 ∨
          ∃ k q, k ≠ .deviation ∧ t.Passes k q pe ∧ ¬ Heard p.history k q) ∨
        ∃ q reason, (q, (Message.abort q reason).encode) ∈ frames p.history) := by
  have hw := hp.status
  rw [hs] at hw
  obtain ⟨μ, h, hh, hb⟩ := hw
  obtain ⟨peers, hnodup, hpeers, -, ha⟩ := (t.seat pe).adds_farewell (e := e) h
  rw [← hh] at ha
  have hinnocent : once → t.Reported pe e ∨ e.isMisdelivery = false := by
    intro ho
    cases hremote : e.isRemote with
    | true => cases e <;> first | exact .inr rfl | cases hremote
    | false => exact (hb.flaw ho hremote).innocent.imp_right And.right
  refine ⟨μ, reaches_of_record hb.record ha (fun q m hm => ?_) ?_, hinnocent, ?_⟩
  · obtain ⟨q', hq, heq⟩ := List.mem_map.1 hm
    obtain ⟨rfl, rfl⟩ := Prod.mk.inj heq
    obtain ⟨hlt, hne, hremote, hfits⟩ := hpeers q' hq
    rw [← hp.seat_eq] at hlt hne
    exact ⟨e, hs, hremote, by rw [hp.seat_eq], hfits, hlt, hne⟩
  · exact hnodup.map fun a b hab => (Prod.mk.inj hab).1
  · rw [ha.heard_eq, ha.frames_eq]
    exact hb.cause

theorem Stands.flaw (hp : p.Stands t once pe) (ho : once) {e : Fault}
    (hs : p.status = .returned (.error e)) (hremote : e.isRemote = false) : t.Flaw pe e := by
  have hw := hp.status
  rw [hs] at hw
  obtain ⟨μ, h, -, hb⟩ := hw
  exact hb.flaw ho hremote

theorem Stands.tells_failure (hp : p.Stands t once pe) {e : Fault}
    (hs : p.status = .returned (.error e)) (hremote : e.isRemote = false)
    (hfits : (Message.abort pe e.message).unfit? = none) (hq : q < t.npes) (hne : q ≠ pe) :
    (q, .abort pe e.message) ∈ sent p.history := by
  have hw := hp.status
  rw [hs] at hw
  obtain ⟨μ, h, hh, -⟩ := hw
  obtain ⟨peers, -, -, hall, ha⟩ := (t.seat pe).adds_farewell (e := e) h
  rw [hh, ha.sent_eq]
  exact List.mem_append_right _ (List.mem_map.2 ⟨q, hall q hq hne hremote hfits, rfl⟩)

theorem Stands.reaches (hp : p.Stands t once pe) (hpe : pe < t.npes) :
    ∃ μ, p.Reaches t once pe μ := by
  cases hs : p.status with
  | fresh =>
    have hw := hp.status
    rw [hs] at hw
    have hr : Record t once pe 0 p.history := .start hpe (hw ▸ .refl []) .nil
    exact ⟨0, reaches_of_record hr (.refl _) (fun q m hm => by cases hm) .nil⟩
  | waiting s => exact ⟨_, hp.reaches_waiting hs⟩
  | returned r =>
    cases r with
    | ok outcome => exact ⟨9, (hp.reaches_ok hs).2⟩
    | error e =>
      obtain ⟨μ, hr, -⟩ := hp.reaches_error hs
      exact ⟨μ, hr⟩

end Processor
end MeshNumbering
