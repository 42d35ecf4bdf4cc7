import MeshNumbering.Proofs.Message.Length
import MeshNumbering.Proofs.Network.Failures

/-! A reliable network never gets stuck: as long as some processor waits, a frame is under way to
one that waits. The one that is furthest behind waits for nothing that has not been sent. -/

namespace MeshNumbering
open History

namespace MessageKind

theorem saidFrom_lt_neededFor (k : MessageKind) : k.saidFrom < k.neededFor := by
  cases k <;> decide

theorem actedFrom_lt_neededFor (k : MessageKind) : k.actedFrom < k.neededFor := by
  cases k <;> decide

theorem lt_neededFor_of_answers {k k' : MessageKind} (h : k.answers? = some k') :
    k'.saidFrom < k.neededFor ∧ k'.actedFrom < k.neededFor ∧ k'.answers? = none := by
  cases k <;> cases h <;> decide

end MessageKind

theorem State.Waits.heard_of_frame {t : Scenario} {once : Prop} {s : State} {pe q : Nat}
    {h : List Event} {m : Message} (hw : s.Waits t once pe h) (hf : (q, m.encode) ∈ frames h) :
    m.kind ≠ .abort ∧ (Heard h m.kind q ∨ s.mark < m.kind.actedFrom) := by
  obtain ⟨m', hm', heq⟩ := hw.live.known _ hf
  obtain ⟨rfl, hframe⟩ := Prod.mk.inj heq
  rw [Message.kind_eq_of_encode_eq hframe]
  rw [List.nil_append, List.mem_append] at hm'
  rcases hm' with hm' | hm'
  · have hpass := hw.live.passes m' hm'
    have hearly := hw.patient m' hm'
    have hreceipt : m'.kind ≠ .receipt := fun hk => by
      rw [hk] at hearly
      exact Nat.not_lt_zero _ hearly
    refine ⟨fun hk => ?_, .inr ((Stage.phase_lt_opening_iff hreceipt).1 hearly)⟩
    rw [hk] at hpass
    exact hpass.2.2
  · have hpass := hw.live.record.passes m' hm'
    refine ⟨fun hk => ?_, .inl ⟨m', hm', rfl, rfl⟩⟩
    rw [hk] at hpass
    exact hpass.2.2

/-- It has failed and tells nobody: either the failure looks like that of another processor although
none has told of one, or what there is to tell does not fit into a frame. -/
def Processor.FailsSilently (p : Processor) : Prop :=
  ∃ e, p.status = .returned (.error e) ∧
    (e.isRemote = true ∧
        (∀ q reason, (q, (Message.abort q reason).encode) ∉ frames p.history) ∨
      e.isRemote = false ∧
        (2 ^ 64 ≤ p.seat.pe ∨ 2 ^ 32 ≤ (Message.abort p.seat.pe e.message).body.length))

namespace Network.Sound
variable {t : Scenario} {l : List Packet} {n : Network} {pe q : Nat} {p p' : Processor} {s : State}

theorem heard_of_sent (hs : n.Sound t .exact l) (hp : n.processors[pe]? = some p)
    (hw : p.status = .waiting s) (hquiet : ∀ x ∈ n.inFlight, x.target ≠ pe)
    (hp' : n.processors[q]? = some p') {m : Message} (hm : (pe, m) ∈ sent p'.history) :
    m.kind ≠ .abort ∧ (Heard p.history m.kind q ∨ s.mark < m.kind.actedFrom) := by
  have hpost : (⟨q, pe, m.encode⟩ : Packet) ∈ posts q p'.history := List.mem_map.2 ⟨_, hm, rfl⟩
  rw [← (hs.balanced rfl q p' hp').mem_iff, List.mem_filter, List.mem_append] at hpost
  have hwaits := (hs.stands pe p hp).status
  rw [hw] at hwaits
  rcases hpost.1 with hl | hx
  · exact State.Waits.heard_of_frame hwaits ((hs.heard_iff pe p hp q _).2 hl)
  · exact absurd rfl (hquiet _ hx)

theorem heard_of_told (hs : n.Sound t .exact l) (hp : n.processors[pe]? = some p)
    (hw : p.status = .waiting s) (hquiet : ∀ x ∈ n.inFlight, x.target ≠ pe)
    (hp' : n.processors[q]? = some p') {k : MessageKind} (ht : Told p'.history k pe)
    (hk : k.actedFrom ≤ s.mark) : Heard p.history k q := by
  obtain ⟨m, hm, rfl⟩ := ht
  exact (hs.heard_of_sent hp hw hquiet hp' hm).2.resolve_right (Nat.not_lt_of_le hk)

theorem not_fails_of_quiet (hs : n.Sound t .exact l) (hp : n.processors[pe]? = some p)
    (hw : p.status = .waiting s) (hquiet : ∀ x ∈ n.inFlight, x.target ≠ pe)
    (hloud : ∀ p ∈ n.processors, ¬ p.FailsSilently) (hp' : n.processors[q]? = some p') :
    ¬ p'.Fails := by
  have hown : ∀ (i : Nat) (r : Processor) (e : Fault), n.processors[i]? = some r →
      r.status = .returned (.error e) → e.isRemote = true := by
    intro i r e hr he
    refine Bool.not_eq_false _ ▸ fun hremote => ?_
    have hfits : (Message.abort i e.message).unfit? = none := by
      have hpe : r.seat.pe = i := congrArg Seat.pe (hs.stands i r hr).seat_eq
      have hshort : ¬ (2 ^ 64 ≤ r.seat.pe ∨
          2 ^ 32 ≤ (Message.abort r.seat.pe e.message).body.length) := fun h =>
        hloud r (List.mem_of_getElem? hr) ⟨e, he, .inr ⟨hremote, h⟩⟩
      rw [hpe] at hshort
      push Not at hshort
      exact Message.unfit?_eq_none_iff.2
        ⟨fun m hm => List.mem_singleton.1 hm ▸ hshort.1, hshort.2⟩
    have hne : pe ≠ i := by
      rintro rfl
      obtain rfl := Option.some.inj (hp.symm.trans hr)
      rw [hw] at he
      cases he
    -- It has told so, and whatever has been told here has been acted on.
    have hsent := (hs.stands i r hr).tells_failure he hremote hfits (hs.pe_lt hp) hne
    exact (hs.heard_of_sent hp hw hquiet hr hsent).1 rfl
  intro ⟨e, he⟩
  obtain ⟨-, hnone⟩ := hs.reported_of_remote hown hp' he
  exact hloud p' (List.mem_of_getElem? hp') ⟨e, he, .inl ⟨hown q p' e hp' he, hnone⟩⟩

theorem told_of_waiting (hs : n.Sound t .exact l) (hp : n.processors[pe]? = some p)
    (hw : p.status = .waiting s) (hp' : n.processors[q]? = some p') {s' : State}
    (hw' : p'.status = .waiting s') (hquiet : ∀ x ∈ n.inFlight, x.target ≠ q) {k : MessageKind}
    (hpass : t.Passes k q pe) (hneeded : k.neededFor = s.mark + 1) (hle : s.mark ≤ s'.mark) :
    Told p'.history k pe := by
  have hwaits := (hs.stands pe p hp).status
  rw [hw] at hwaits
  have hwaits' := (hs.stands q p' hp').status
  rw [hw'] at hwaits'
  have hsaid : k.saidFrom ≤ s.mark :=
    Nat.le_of_lt_succ (Nat.lt_of_lt_of_eq k.saidFrom_lt_neededFor hneeded)
  refine hwaits'.live.told k pe hpass (hsaid.trans hle) fun k' hans => ?_
  -- The question has been sent, and as this processor is not behind, it has acted on it.
  obtain ⟨hsaid', hacted', hnone⟩ := MessageKind.lt_neededFor_of_answers hans
  rw [hneeded] at hsaid' hacted'
  have hasks : t.Passes k' pe q := (Scenario.passes_answer hans).1 hpass
  have htold : Told p.history k' q := hwaits.live.told k' q hasks (Nat.le_of_lt_succ hsaid')
    fun k'' hk'' => by rw [hnone] at hk''; cases hk''
  exact hs.heard_of_told hp' hw' hquiet hp htold ((Nat.le_of_lt_succ hacted').trans hle)

theorem told_of_returned (hs : n.Sound t .exact l) (hp : n.processors[pe]? = some p)
    (hw : p.status = .waiting s) (hp' : n.processors[q]? = some p') {outcome : Outcome}
    (hok : p'.status = .returned (.ok outcome)) {k : MessageKind} (hpass : t.Passes k q pe)
    (hneeded : k.neededFor = s.mark + 1) : Told p'.history k pe := by
  have hpe := hs.pe_lt hp
  have hwaits := (hs.stands pe p hp).status
  rw [hw] at hwaits
  have hdone := (hs.stands q p' hp').status
  rw [hok] at hdone
  obtain ⟨s', hst, hlive⟩ := hdone
  have hmark : s'.mark = 9 := congrArg Stage.mark hst
  have hheard : Heard p'.history .deviation pe := by
    apply hlive.record.level .deviation pe ⟨hpe, hpass.1, trivial⟩
    rw [hmark]
    exact Nat.le_refl 9
  -- All deviations are there, so the other one misses nothing but deviations.
  have hfar : 8 ≤ s.mark := (hs.said hp' hp ((hs.stands pe p hp).reaches_waiting hw) hheard).1
  have hunfinished := hwaits.unfinished
  have hlast : s.mark = 8 := by omega
  have hsaid : k.saidFrom ≤ s.mark :=
    Nat.le_of_lt_succ (Nat.lt_of_lt_of_eq k.saidFrom_lt_neededFor hneeded)
  refine hlive.told k pe hpass ?_ fun k' hans => ?_
  · rw [hmark]
    omega
  · rw [hlast] at hneeded
    cases k <;> cases hneeded
    cases hans

theorem exists_behind (hs : n.Sound t .exact l) (hp : n.processors[pe]? = some p)
    (hw : p.status = .waiting s)
    (hquiet : ∀ x ∈ n.inFlight, n.isWaiting x.target = false)
    (hloud : ∀ p ∈ n.processors, ¬ p.FailsSilently)
    (hstarted : ∀ p ∈ n.processors, p.status ≠ .fresh) :
    ∃ (q : Nat) (p' : Processor) (s' : State), n.processors[q]? = some p' ∧
      p'.status = .waiting s' ∧ s'.mark < s.mark := by
  -- What a processor waits for has not been sent to it, so its sender is further behind.
  have hquiet' : ∀ (i : Nat) (r : Processor) (x : State), n.processors[i]? = some r →
      r.status = .waiting x → ∀ y ∈ n.inFlight, y.target ≠ i := by
    rintro i r x hr hx y hy rfl
    have hno := hquiet y hy
    rw [Network.isWaiting_iff.2 ⟨r, x, hr, hx⟩] at hno
    cases hno
  have hwaits := (hs.stands pe p hp).status
  rw [hw] at hwaits
  obtain ⟨k, q, hpass, hneeded, hno⟩ := hwaits.settled
  obtain ⟨p', hp'⟩ := hs.exists_processor hpass.1
  have hacted : k.actedFrom ≤ s.mark :=
    Nat.le_of_lt_succ (Nat.lt_of_lt_of_eq k.actedFrom_lt_neededFor hneeded)
  have hnot : ¬ Told p'.history k pe := fun ht =>
    hno (hs.heard_of_told hp hw (hquiet' pe p s hp hw) hp' ht hacted)
  cases hstatus : p'.status with
  | fresh => exact absurd hstatus (hstarted p' (List.mem_of_getElem? hp'))
  | waiting s' =>
    have hbehind : ¬ s.mark ≤ s'.mark := fun hle =>
      hnot (hs.told_of_waiting hp hw hp' hstatus (hquiet' q p' s' hp' hstatus) hpass hneeded hle)
    exact ⟨q, p', s', hp', hstatus, Nat.lt_of_not_le hbehind⟩
  | returned r =>
    cases r with
    | error e =>
      exact absurd ⟨e, hstatus⟩ (hs.not_fails_of_quiet hp hw (hquiet' pe p s hp hw) hloud hp')
    | ok outcome => exact absurd (hs.told_of_returned hp hw hp' hstatus hpass hneeded) hnot

theorem exists_under_way (hs : n.Sound t .exact l) (hp : n.processors[pe]? = some p)
    (hw : p.status = .waiting s) (hloud : ∀ p ∈ n.processors, ¬ p.FailsSilently)
    (hstarted : ∀ p ∈ n.processors, p.status ≠ .fresh) :
    ∃ x ∈ n.inFlight, n.isWaiting x.target = true := by
  by_contra hno
  have hquiet : ∀ x ∈ n.inFlight, n.isWaiting x.target = false := fun x hx =>
    Bool.eq_false_iff.2 fun h => hno ⟨x, hx, h⟩
  -- Each processor that waits would be ahead of another one.
  generalize hμ : s.mark = μ
  induction μ using Nat.strong_induction_on generalizing pe p s with
  | h μ ih =>
    obtain ⟨q, p', s', hp', hw', hlt⟩ := hs.exists_behind hp hw hquiet hloud hstarted
    exact ih s'.mark (hμ ▸ hlt) hp' hw' rfl

end Network.Sound

/-! The number of deliveries. -/

def Network.complaint (n : Network) (pe : Nat) : String :=
  match n.processors[pe]?.bind Processor.result? with
  | some (.error e) => e.message
  | _ => ""

def Network.packet (n : Network) (t : Scenario) (p q : Nat) (k : MessageKind) : Packet :=
  if k = .abort then ⟨p, q, (Message.abort p (n.complaint p)).encode⟩
  else ⟨p, q, (t.message k p q).encode⟩

def Network.packets (n : Network) (t : Scenario) : List Packet :=
  (List.range t.npes).flatMap fun p => (List.range t.npes).flatMap fun q =>
    MessageKind.all.map (n.packet t p q)

theorem MessageKind.mem_all (k : MessageKind) : k ∈ all := by
  cases k <;> decide

namespace Network
variable {t : Scenario} {d : Delivery} {l : List Packet} {n : Network}

theorem length_packets (n : Network) (t : Scenario) :
    (n.packets t).length = 13 * t.npes ^ 2 := by
  have hkinds : MessageKind.all.length = 13 := rfl
  simp only [packets, List.length_flatMap, List.length_map, hkinds, List.map_const',
    List.length_range, List.sum_replicate_nat]
  rw [Nat.pow_two, Nat.mul_comm 13, Nat.mul_assoc]

theorem Sound.mem_packets (hs : n.Sound t d l) {x : Packet} (hx : x ∈ l ++ n.inFlight) :
    x ∈ n.packets t := by
  obtain ⟨source, target, f⟩ := x
  obtain ⟨p, m, hp, hm, rfl⟩ := hs.posting hx
  obtain ⟨μ, hr⟩ := hs.reaches hp
  have hmem : ∀ k, target < t.npes → n.packet t source target k = ⟨source, target, m.encode⟩ →
      ⟨source, target, m.encode⟩ ∈ n.packets t := fun k htarget heq =>
    List.mem_flatMap.2 ⟨source, List.mem_range.2 (hs.pe_lt hp), List.mem_flatMap.2
      ⟨target, List.mem_range.2 htarget, List.mem_map.2 ⟨k, k.mem_all, heq⟩⟩⟩
  rcases hr.due target m hm with hdue | ⟨e, hstatus, -, rfl, -, htarget, -⟩
  · apply hmem m.kind hdue.passes.2.1
    have hk : m.kind ≠ .abort := fun hk => by
      have hpass := hdue.passes
      rw [hk] at hpass
      exact hpass.2.2
    rw [packet, if_neg hk, ← hdue.genuine]
  · rw [(hs.stands source p hp).seat_eq] at hmem htarget ⊢
    apply hmem .abort htarget
    have hreason : n.complaint source = e.message := by
      rw [complaint, hp]
      simp [Processor.result?, hstatus]
    rw [packet, if_pos rfl, hreason]
    rfl

end Network

namespace Run
variable {t : Scenario} {l : List Packet} {n : Network}

theorem length_le (hr : Run t .exact l n) : l.length ≤ 13 * t.npes ^ 2 := by
  rw [← n.length_packets t]
  have hsub : l ⊆ n.packets t := fun x hx => hr.sound.mem_packets (List.mem_append_left _ hx)
  have hnodup : l.Nodup := List.Nodup.of_append_left hr.sound.nodup
  exact (List.subperm_of_subset hnodup hsub).length_le

theorem exists_next (hr : Run t .exact l n) (hwaits : ∃ p ∈ n.processors, ¬ p.HasReturned) :
    (∃ p ∈ n.processors, p.status = .fresh) ∨
    (∃ x ∈ n.inFlight, n.isWaiting x.target = true) ∨
    ∃ p ∈ n.processors, p.FailsSilently := by
  obtain ⟨p, hp, hreturned⟩ := hwaits
  by_cases hstarted : ∃ p ∈ n.processors, p.status = .fresh
  · exact .inl hstarted
  by_cases hsilent : ∃ p ∈ n.processors, p.FailsSilently
  · exact .inr (.inr hsilent)
  push Not at hstarted hsilent
  obtain ⟨pe, hpe, rfl⟩ := List.mem_iff_getElem.1 hp
  cases hstatus : n.processors[pe].status with
  | fresh => exact absurd hstatus (hstarted _ hp)
  | returned r => exact absurd ⟨r, hstatus⟩ hreturned
  | waiting s =>
    have hget := List.getElem?_eq_getElem hpe
    exact .inr (.inl (hr.sound.exists_under_way hget hstatus hsilent hstarted))

/-- A reliable run can go on until all processors have returned, unless one of them fails and tells
nobody; it does not take more than thirteen deliveries from each to each; and all processors
succeed or all fail. -/
theorem completes (hr : Run t .exact l n) :
    ((∃ p ∈ n.processors, ¬ p.HasReturned) →
      (∃ p ∈ n.processors, p.status = .fresh) ∨
      (∃ x ∈ n.inFlight, n.isWaiting x.target = true) ∨
      ∃ p ∈ n.processors, p.FailsSilently) ∧
    l.length ≤ 13 * t.npes ^ 2 ∧
    ((∀ p ∈ n.processors, p.HasReturned) →
      (∀ p ∈ n.processors, p.Succeeds) ∨ ∀ p ∈ n.processors, p.Fails) ∧
    ∀ p ∈ n.processors, ∀ p' ∈ n.processors, p.Succeeds → ¬ p'.Fails := by
  refine ⟨hr.exists_next, hr.length_le, fun hall => ?_,
    fun p hp p' hp' => hr.not_fails_of_succeeds hp hp'⟩
  by_cases hok : ∃ p ∈ n.processors, p.Succeeds
  · obtain ⟨p, hp, hok⟩ := hok
    apply Or.inl
    intro p' hp'
    obtain ⟨r, hr'⟩ := hall p' hp'
    cases r with
    | ok outcome => exact ⟨outcome, hr'⟩
    | error e => exact absurd ⟨e, hr'⟩ (hr.not_fails_of_succeeds hp hp' hok)
  · apply Or.inr
    intro p hp
    obtain ⟨r, hr'⟩ := hall p hp
    cases r with
    | ok outcome => exact absurd ⟨p, hp, outcome, hr'⟩ hok
    | error e => exact ⟨e, hr'⟩

end Run

theorem two_elements_complete :
    (∃ l n, Run .twoElements .exact l n ∧ (∃ p ∈ n.processors, ¬ p.HasReturned) ∧
      ((∃ p ∈ n.processors, p.status = .fresh) ∨
        (∃ x ∈ n.inFlight, n.isWaiting x.target = true) ∨
        ∃ p ∈ n.processors, p.FailsSilently)) ∧
    ∃ l n, Run .twoElements .exact l n ∧ (∀ p ∈ n.processors, p.Succeeds) ∧ l.length ≤ 52 ∧
      ∀ p ∈ n.processors, ¬ p.Fails := by
  have hwaits : ∃ p ∈ (Scenario.twoElements.played .exact (.replicate 20 0)).processors,
      ¬ p.HasReturned := by decide +kernel
  have hdone := Scenario.twoElements_succeeds
  obtain ⟨l₀, hr₀⟩ := Run.played .twoElements .exact (.replicate 20 0)
  refine ⟨⟨l₀, _, hr₀, hwaits, hr₀.completes.1 hwaits⟩, ?_⟩
  obtain ⟨l, hr⟩ := Run.played .twoElements .exact (.replicate 40 0)
  obtain ⟨-, hlength, -, hall⟩ := hr.completes
  exact ⟨l, _, hr, hdone, hlength, fun p hp => hall p hp p hp (hdone p hp)⟩

/-! Processors that fail when they start. -/

section
variable {seat : Seat} {reader reader' : Reader} {e : Fault}

theorem State.begin_of_check {cause : ConfigFault}
    (h : seat.config.check seat.npes = .error cause) :
    State.begin seat reader = Script.fail (.config cause) := by
  unfold State.begin
  rw [h]
  rfl

theorem State.begin_of_unread (hcheck : seat.config.check seat.npes = .ok ())
    (hread : Chunk.read reader seat.pe seat.npes = .error e) :
    State.begin seat reader = Script.fail e := by
  unfold State.begin
  rw [hcheck, hread]
  rfl

theorem State.begin_congr (hneeds : seat.config.algorithm.needsCentroids = false)
    (hread : Chunk.read reader seat.pe seat.npes = Chunk.read reader' seat.pe seat.npes) :
    State.begin seat reader = State.begin seat reader' := by
  unfold State.begin
  rw [hread, hneeds]
  rfl

theorem Processor.start_of_fail {p : Processor} (hfresh : p.status = .fresh)
    (h : State.begin p.seat reader = Script.fail e) :
    p.start .sound reader = p.seat.giveUp .sound e := by
  rw [Processor.start, hfresh]
  show p.seat.conclude .sound (State.begin p.seat reader) = _
  rw [h]
  rfl

theorem Network.start_congr {n : Network} {pe : Nat}
    (h : ∀ p, n.processors[pe]? = some p → State.begin p.seat reader = State.begin p.seat reader') :
    n.start reader pe = n.start reader' pe := by
  unfold Network.start Network.take
  cases hp : n.processors[pe]? with
  | none => rfl
  | some p =>
    have hstart : p.start .sound reader = p.start .sound reader' := by
      unfold Processor.start
      rw [h p hp]
    simp only [hstart]

theorem Seat.packets_giveUp_of_silent (pe : Nat)
    (h : e.isRemote = true ∨ (Message.abort seat.pe e.message).unfit?.isSome = true) :
    (seat.giveUp .sound e).packets pe = [] := by
  have hsent : sent (seat.farewell .sound e) = [] := by
    rw [Seat.farewell_eq]
    by_cases hremote : e.isRemote = true
    · rw [if_pos hremote]
      rfl
    · rw [if_neg hremote, if_pos (h.resolve_left hremote)]
      rfl
  rw [Turn.packets_eq, Seat.giveUp, hsent]
  rfl

end

/-- All processors have been started, and one of them waits in vain. -/
def Scenario.Strands (t : Scenario) : Prop :=
  ∃ l n, Run t .exact l n ∧ (∀ p ∈ n.processors, p.status ≠ .fresh) ∧
    (∃ p ∈ n.processors, ¬ p.HasReturned) ∧ ∀ x ∈ n.inFlight, n.isWaiting x.target = false

/-- Two processors with an element each, of which the second cannot read its own. -/
def Scenario.oneUnread (e : Fault) : Scenario where
  npes := 2
  reader := ⟨.ok 2, fun start _ => if start = 0 then .ok [0, 1, 2, 3] else .error e,
    fun _ _ => .error e⟩
  config := .ofCount 2
  strategy := none

/-- The network of `oneUnread` once the first processor has heard from itself. -/
def Scenario.firstAlone (e : Fault) : Network :=
  ((Network.fresh 2 (.ofCount 2) none).start (oneUnread e).reader 0).follow .exact [0]

namespace Scenario
variable {e : Fault}

theorem firstAlone_congr (e e' : Fault) : firstAlone e = firstAlone e' := by
  have hstart : (Network.fresh 2 (.ofCount 2) none).start (oneUnread e).reader 0 =
      (Network.fresh 2 (.ofCount 2) none).start (oneUnread e').reader 0 := by
    apply Network.start_congr
    rintro p hp
    obtain rfl : Processor.fresh ((oneUnread e).seat 0) = p := Option.some.inj hp
    have hread : Chunk.read (oneUnread e).reader 0 2 = Chunk.read (oneUnread e').reader 0 2 := rfl
    exact State.begin_congr rfl hread
  rw [firstAlone, firstAlone, hstart]

/-- The first processor waits for word of how much the second one has read. -/
theorem firstAlone_waits (e : Fault) : (firstAlone e).isWaiting 0 = true ∧
    (∀ x ∈ (firstAlone e).inFlight, x.target = 1) ∧
    ∃ p ∈ (firstAlone e).processors[1]?, p.isWaiting = false ∧ p.result?.isNone = true := by
  rw [firstAlone_congr e (.aborted 0 "")]
  decide +kernel

theorem strands_oneUnread
    (h : e.isRemote = true ∨ (Message.abort 1 e.message).unfit?.isSome = true) :
    (oneUnread e).Strands := by
  obtain ⟨l, hr⟩ : ∃ l, Run (oneUnread e) .exact l (firstAlone e) :=
    (Run.start .fresh rfl rfl).follow [0]
  obtain ⟨hwaits, htarget, second, hsecond, hidle, hnone⟩ := firstAlone_waits e
  generalize firstAlone e = n at hr hwaits htarget hsecond
  obtain ⟨first, s, hfirst, hs⟩ := Network.isWaiting_iff.1 hwaits
  have hfresh : second.status = .fresh := by
    cases hst : second.status <;>
      simp [Processor.isWaiting, Processor.result?, hst] at hidle hnone ⊢
  have hboth : n.processors = [first, second] := by
    obtain ⟨p, q, hpq⟩ := List.length_eq_two.1 hr.sound.length_eq
    rw [hpq] at hfirst hsecond ⊢
    cases hfirst
    cases hsecond
    rfl
  -- The second processor fails without having sent anything.
  have hseat : second.seat = (oneUnread e).seat 1 := (hr.sound.stands 1 second hsecond).seat_eq
  have hread : Chunk.read (oneUnread e).reader 1 2 = .error e := rfl
  have hturn : second.start .sound (oneUnread e).reader = second.seat.giveUp .sound e :=
    Processor.start_of_fail hfresh (hseat ▸ State.begin_of_unread rfl hread)
  have hend : n.start (oneUnread e).reader 1 =
      ⟨[first, second.after (second.seat.giveUp .sound e)], n.inFlight⟩ := by
    have hquiet : (second.seat.giveUp .sound e).packets 1 = [] :=
      Seat.packets_giveUp_of_silent 1 (hseat ▸ h)
    rw [Network.start, Network.take, hsecond]
    dsimp only
    rw [hturn, hquiet, hboth, List.append_nil]
    rfl
  refine ⟨l, _, hr.start hsecond hfresh, ?_⟩
  rw [hend]
  refine ⟨?_, ⟨first, List.mem_cons_self .., ?_⟩, ?_⟩
  · intro p hp hstatus
    rcases List.mem_pair.1 hp with rfl | rfl
    · rw [hs] at hstatus
      cases hstatus
    · cases hstatus
  · rintro ⟨r, hstatus⟩
    rw [hs] at hstatus
    cases hstatus
  · intro x hx
    rw [htarget x hx]
    rfl

end Scenario

/-- A processor that cannot read its elements fails, and leaves its peer waiting, when what there is
to tell does not fit into a frame, and also when its failure looks like that of a peer. -/
theorem unread_element_strands_peer :
    (Scenario.oneUnread (.mesh (.reported (String.ofList (.replicate (2 ^ 32) 'a'))))).Strands ∧
      (Scenario.oneUnread (.aborted 0 "")).Strands := by
  refine ⟨Scenario.strands_oneUnread (.inr ?_), Scenario.strands_oneUnread (.inl rfl)⟩
  have htext : (String.ofList (.replicate (2 ^ 32) 'a')).length = 2 ^ 32 := by
    rw [String.length_ofList, List.length_replicate]
  generalize String.ofList (.replicate (2 ^ 32) 'a') = text at htext ⊢
  have hlong : 2 ^ 32 ≤ (Fault.mesh (.reported text)).message.length := by
    show 2 ^ 32 ≤ ("Mesh read error: " ++ text).length
    rw [String.length_append, htext]
    exact Nat.le_add_left ..
  rw [Option.isSome_iff_ne_none]
  intro hnone
  have hshort := (Message.unfit?_eq_none_iff.1 hnone).2
  exact absurd hshort (Nat.not_lt_of_le (hlong.trans (Message.le_length_body_abort _ _)))

end MeshNumbering
