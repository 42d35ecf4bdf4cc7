import MeshNumbering.Ensemble
import MeshNumbering.Proofs.Network.Failures

/-! What becomes of a processor that hears that another has failed. It fails with that news, unless
the frame that brings it is over the limit; then it fails with the frame, and that failure counts as
its own. -/

namespace MeshNumbering
open History

/-- The failure of a processor that hears from `q` that it has failed. -/
def Scenario.onAbort (t : Scenario) (q : Nat) (reason : String) : Fault :=
  let length := (Message.abort q reason).encode.length
  if ∀ limit ∈ t.config.frameLimit, length ≤ limit then .aborted q reason
  else .frame (.overLimit length (t.config.frameLimit.getD 0))

theorem State.hear_abort {s : State} {t : Scenario} {pe q : Nat} {reason : String}
    (hseat : s.seat = t.seat pe) (hfits : (Message.abort q reason).unfit? = none) :
    s.hear q (Message.abort q reason).encode = Script.fail (t.onAbort q reason) := by
  have hlimit : s.seat.config.frameLimit = t.config.frameLimit :=
    congrArg (fun x => x.config.frameLimit) hseat
  unfold State.hear
  rw [hlimit, Message.decode_encode hfits, Scenario.onAbort]
  split
  · show (if (Message.abort q reason).sender = q then _ else _ : Script State) = _
    rw [if_pos (show (Message.abort q reason).sender = q from rfl)]
    rfl
  · rfl

def Network.Mourning (n : Network) (t : Scenario) : Prop :=
  ∀ (pe : Nat) (p : Processor) (q : Nat) (reason : String), n.processors[pe]? = some p →
    (q, (Message.abort q reason).encode) ∈ frames p.history →
      p.status = .returned (.error (t.onAbort q reason))

theorem Network.Mourning.set {t : Scenario} {n n' : Network} {pe : Nat} {p' : Processor}
    (h : n.Mourning t) (hset : n'.processors = n.processors.set pe p')
    (hself : ∀ q reason, (q, (Message.abort q reason).encode) ∈ frames p'.history →
      p'.status = .returned (.error (t.onAbort q reason))) : n'.Mourning t := by
  intro i r q reason hr hin
  rcases Network.of_processors_set hset hr with ⟨rfl, rfl⟩ | hr
  · exact hself q reason hin
  · exact h i r q reason hr hin

namespace Run
variable {t : Scenario} {d : Delivery} {l : List Packet} {n : Network}

theorem mourning (hr : Run t d l n) : n.Mourning t := by
  induction hr with
  | fresh =>
    intro pe p q reason hp hin
    obtain ⟨i, -, rfl⟩ := List.mem_map.1 (List.mem_of_getElem? hp)
    cases hin
  | @start l n pe p run here fresh ih =>
    refine ih.set (Network.processors_take here _) fun q reason hin => ?_
    have hhistory := (run.sound.stands pe p here).status
    rw [fresh] at hhistory
    replace hin : (q, _) ∈ frames (p.history ++ (p.start .sound t.reader).events) := hin
    rw [frames_append, Processor.frames_start, show p.history = [] from hhistory] at hin
    cases hin
  | @deliver l n x run under waits ih =>
    obtain ⟨p, s, hp, hwaits⟩ := Network.isWaiting_iff.1 waits
    have hs := run.sound
    have hset := Network.processors_take
      (n := ⟨n.processors, d.remaining n.inFlight x⟩) hp fun p =>
        p.receive .sound x.source x.frame
    refine Network.Mourning.set (n := n) ih hset fun q reason hin => ?_
    replace hin : (q, _) ∈ frames (p.history ++ (p.receive .sound x.source x.frame).events) := hin
    rw [frames_append, Processor.frames_receive hwaits, List.mem_append, List.mem_singleton] at hin
    rcases hin with hin | hin
    -- It would have failed before.
    · have hfailed := ih _ p q reason hp hin
      rw [hwaits] at hfailed
      cases hfailed
    · obtain ⟨source, target, frame⟩ := x
      obtain ⟨rfl, rfl⟩ := Prod.mk.inj hin
      obtain ⟨-, hfits, -⟩ := hs.origin_of_abort (List.mem_append_right _ under)
      have hstands := (hs.stands _ p hp).status
      rw [hwaits] at hstands
      show (p.receive .sound q (Message.abort q reason).encode).status = _
      rw [Processor.receive, hwaits]
      dsimp only
      rw [State.hear_abort hstands.live.state.seat_eq hfits]
      rfl

end Run

/-! The failure that is reported of a run. -/

theorem Member.fault?_eq_some_iff {p : Processor} (hreturned : p.HasReturned) {e : Fault} :
    p.member.fault? = some e ↔ p.status = .returned (.error e) := by
  obtain ⟨r, hr⟩ := hreturned
  rw [Member.fault?, Processor.member, Processor.result?_eq_some_iff.2 hr, hr]
  cases r <;> simp [eq_comm]

namespace Ensemble
variable {n : Network} (hreturned : ∀ p ∈ n.processors, p.HasReturned)
include hreturned

theorem mem_faults_iff {e : Fault} : e ∈ (of n).filterMap Member.fault? ↔
    ∃ p ∈ n.processors, p.status = .returned (.error e) := by
  simp only [of, List.mem_filterMap, List.mem_map, exists_exists_and_eq_and]
  constructor
  · rintro ⟨p, hp, he⟩
    exact ⟨p, hp, (Member.fault?_eq_some_iff (hreturned p hp)).1 he⟩
  · rintro ⟨p, hp, he⟩
    exact ⟨p, hp, (Member.fault?_eq_some_iff (hreturned p hp)).2 he⟩

theorem cause?_eq_none_iff : (of n).cause? = none ↔
    ∀ p ∈ n.processors, ∀ e, p.status = .returned (.error e) → e.isRemote = true := by
  simp only [cause?, List.find?_eq_none, mem_faults_iff hreturned, Bool.not_eq_true]
  constructor
  · intro h p hp e he
    simpa using h e ⟨p, hp, he⟩
  · rintro h e ⟨p, hp, he⟩
    simpa using h p hp e he

theorem of_cause?_eq_some {e : Fault} (h : (of n).cause? = some e) :
    e.isRemote = false ∧ ∃ p ∈ n.processors, p.status = .returned (.error e) :=
  ⟨by simpa using List.find?_some h,
    (mem_faults_iff hreturned).1 (List.mem_of_find?_eq_some h)⟩

end Ensemble

namespace Run
variable {t : Scenario} {l : List Packet} {n : Network} (hr : Run t .exact l n)
include hr

theorem fails_of_notice {pe : Nat} {p : Processor} {q : Nat} {reason : String}
    (hp : n.processors[pe]? = some p)
    (hin : (q, (Message.abort q reason).encode) ∈ frames p.history) :
    p.status = .returned (.error (t.onAbort q reason)) ∧
    ∃ (p' : Processor) (e : Fault), n.processors[q]? = some p' ∧
      p'.status = .returned (.error e) ∧ e.isRemote = false ∧ reason = e.message := by
  have hdelivered := (hr.sound.heard_iff pe p hp q _).1 hin
  obtain ⟨-, -, horigin⟩ := hr.sound.origin_of_abort (List.mem_append_left _ hdelivered)
  exact ⟨hr.mourning pe p q reason hp hin, horigin⟩

section
variable (hreturned : ∀ p ∈ n.processors, p.HasReturned)
include hreturned

theorem cause?_eq_none_iff : (Ensemble.of n).cause? = none ↔
    ∀ (pe : Nat) (p : Processor), n.processors[pe]? = some p → p.Succeeds ∨
      ∃ e, p.status = .returned (.error e) ∧ e.isRemote = true ∧ t.Reported pe e := by
  rw [Ensemble.cause?_eq_none_iff hreturned]
  constructor
  · intro hremote pe p hget
    have hmem := List.mem_of_getElem? hget
    obtain ⟨e | outcome, hstatus⟩ := hreturned p hmem
    · obtain ⟨hreported, -⟩ := hr.sound.reported_of_remote
        (fun i r e hget he => hremote r (List.mem_of_getElem? hget) e he) hget hstatus
      exact .inr ⟨e, hstatus, hremote p hmem e hstatus, hreported⟩
    · exact .inl ⟨outcome, hstatus⟩
  · intro hall p hp e he
    obtain ⟨pe, hget⟩ := List.mem_iff_getElem?.1 hp
    rcases hall pe p hget with ⟨outcome, hok⟩ | ⟨e', he', hremote, -⟩
    · rw [he] at hok
      cases hok
    · rw [he] at he'
      obtain rfl := Except.error.inj (Status.returned.inj he')
      exact hremote

theorem flaw_of_cause? {e : Fault} (he : (Ensemble.of n).cause? = some e) :
    ∃ (pe : Nat) (p : Processor), n.processors[pe]? = some p ∧
      p.status = .returned (.error e) ∧ t.Flaw pe e ∧
        ∀ q reason, (q, (Message.abort q reason).encode) ∈ frames p.history →
          ∃ limit ∈ t.config.frameLimit, limit < (Message.abort q reason).encode.length ∧
            e = .frame (.overLimit (Message.abort q reason).encode.length limit) := by
  obtain ⟨hlocal, p, hp, hstatus⟩ := Ensemble.of_cause?_eq_some hreturned he
  obtain ⟨pe, hget⟩ := List.mem_iff_getElem?.1 hp
  refine ⟨pe, p, hget, hstatus, (hr.sound.stands pe p hget).flaw rfl hstatus hlocal,
    fun q reason hin => ?_⟩
  have hfailed := hr.mourning pe p q reason hget hin
  rw [hstatus] at hfailed
  obtain rfl := Except.error.inj (Status.returned.inj hfailed)
  rw [Scenario.onAbort] at hlocal ⊢
  split at hlocal
  · cases hlocal
  · next hlong =>
    rw [if_neg hlong]
    cases hlimit : t.config.frameLimit with
    | none => simp [hlimit] at hlong
    | some limit => exact ⟨limit, rfl, by simpa [hlimit] using hlong, rfl⟩

end

/-- Whoever hears of a failure fails of it, with the failed processor's own words unless the frame
is over the limit. When all have returned, a failure is reported unless all have succeeded or been
answered by their own readers and strategies that another one had failed; what is reported is a
flaw in the inputs, met by a processor that has heard of no other's failure, or of one in a frame
that was over the limit. -/
theorem traces_failure :
    (∀ (pe : Nat) (p : Processor) (q : Nat) (reason : String), n.processors[pe]? = some p →
      (q, (Message.abort q reason).encode) ∈ frames p.history →
        p.status = .returned (.error (t.onAbort q reason)) ∧
        ∃ (p' : Processor) (e : Fault), n.processors[q]? = some p' ∧
          p'.status = .returned (.error e) ∧ e.isRemote = false ∧ reason = e.message) ∧
    ((∀ p ∈ n.processors, p.HasReturned) →
      ((Ensemble.of n).cause? = none ↔
        ∀ (pe : Nat) (p : Processor), n.processors[pe]? = some p → p.Succeeds ∨
          ∃ e, p.status = .returned (.error e) ∧ e.isRemote = true ∧ t.Reported pe e) ∧
      ∀ e, (Ensemble.of n).cause? = some e → ∃ (pe : Nat) (p : Processor),
        n.processors[pe]? = some p ∧ p.status = .returned (.error e) ∧ t.Flaw pe e ∧
          ∀ q reason, (q, (Message.abort q reason).encode) ∈ frames p.history →
            ∃ limit ∈ t.config.frameLimit, limit < (Message.abort q reason).encode.length ∧
              e = .frame (.overLimit (Message.abort q reason).encode.length limit)) :=
  ⟨fun _ _ _ _ => hr.fails_of_notice,
    fun hreturned => ⟨hr.cause?_eq_none_iff hreturned, fun _ => hr.flaw_of_cause? hreturned⟩⟩

end Run

/-- Of two elements the strategy knows one, so that processor 1 fails; a frame that says so has 78
bytes. -/
def Scenario.oneUnlistedWithin (limit : Nat) : Scenario :=
  { Scenario.oneUnlisted with config := { Config.ofCount 2 with frameLimit := some limit } }

theorem unlisted_element_traced : ∃ l n, Run (.oneUnlistedWithin 78) .exact l n ∧
    (∃ p : Processor, n.processors[0]? = some p ∧
      p.status = .returned (.error (.aborted 1 (Fault.strategy (.elementUnlisted 1)).message))) ∧
    (¬ ∀ p ∈ n.processors, p.Succeeds) ∧
    ∃ pe, (Scenario.oneUnlistedWithin 78).Flaw pe (.strategy (.elementUnlisted 1)) := by
  obtain ⟨l, hr⟩ := Run.played (.oneUnlistedWithin 78) .exact [0, 0, 0, 0, 0, 1]
  have hheard : ∃ p ∈ ((Scenario.oneUnlistedWithin 78).played .exact
      [0, 0, 0, 0, 0, 1]).processors[0]?, (1, (Message.abort 1
        (Fault.strategy (.elementUnlisted 1)).message).encode) ∈ frames p.history := by
    decide +kernel
  have hshort : ∀ limit ∈ (Scenario.oneUnlistedWithin 78).config.frameLimit, (Message.abort 1
      (Fault.strategy (.elementUnlisted 1)).message).encode.length ≤ limit := by decide +kernel
  have hreturned : ∀ p ∈ ((Scenario.oneUnlistedWithin 78).played .exact
      [0, 0, 0, 0, 0, 1]).processors, p.HasReturned := by decide +kernel
  have hcause : (Ensemble.of ((Scenario.oneUnlistedWithin 78).played .exact
      [0, 0, 0, 0, 0, 1])).cause? = some (.strategy (.elementUnlisted 1)) := by decide +kernel
  obtain ⟨p, hp, hin⟩ := hheard
  obtain ⟨hstatus, -⟩ := hr.traces_failure.1 0 p 1 _ hp hin
  rw [Scenario.onAbort, if_pos hshort] at hstatus
  obtain ⟨hnone, hfound⟩ := hr.traces_failure.2 hreturned
  obtain ⟨pe, -, -, -, hflaw, -⟩ := hfound _ hcause
  refine ⟨l, _, hr, ⟨p, hp, hstatus⟩, fun hok => ?_, pe, hflaw⟩
  rw [hnone.2 fun pe p hget => .inl (hok p (List.mem_of_getElem? hget))] at hcause
  cases hcause

/-- With a lower limit the frame itself becomes a failure, and that one is reported. -/
theorem unlisted_element_untraced : ∃ l n, Run (.oneUnlistedWithin 64) .exact l n ∧
    (∀ p ∈ n.processors, p.HasReturned) ∧
    n.processors[1]?.bind Processor.result? = some (.error (.strategy (.elementUnlisted 1))) ∧
    (∃ p ∈ n.processors[0]?, (1, (Message.abort 1
      (Fault.strategy (.elementUnlisted 1)).message).encode) ∈ frames p.history ∧
      p.result? = some (.error (.frame (.overLimit 78 64)))) ∧
    (Ensemble.of n).cause? = some (.frame (.overLimit 78 64)) := by
  obtain ⟨l, hr⟩ := Run.played (.oneUnlistedWithin 64) .exact [0, 0, 0, 0, 0, 1]
  refine ⟨l, _, hr, ?_, ?_, ?_, ?_⟩
  all_goals decide +kernel

end MeshNumbering
