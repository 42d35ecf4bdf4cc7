import MeshNumbering.Proofs.Network.Renumbering
import MeshNumbering.Proofs.Scenario.Elements
import MeshNumbering.Proofs.Scenario.Rows

/-! What a run that succeeds everywhere has told the mergers. The rows of all processors follow one
another without gaps from zero up to the number of nodes. -/

namespace MeshNumbering
open History

namespace Call

def setup? : Call → Option WorkerSetup
  | worker setup => some setup
  | _ => none

def notice? : Call → Option RowNotice
  | rows notice => some notice
  | _ => none

end Call

namespace History

def setups (h : List Event) : List WorkerSetup := (handoffs h).filterMap Call.setup?

def notices (h : List Event) : List RowNotice := (handoffs h).filterMap Call.notice?

end History

namespace Scenario
variable (t : Scenario) (pe : Nat)

theorem filterMap_setup?_handoffs :
    (t.handoffs pe).filterMap Call.setup? = (t.relabelling pe).setups pe t.layout.nchare := by
  have hworkers : ∀ l : List WorkerSetup, (l.map Call.worker).filterMap Call.setup? = l := by
    intro l
    rw [List.filterMap_map]
    exact List.filterMap_some
  unfold handoffs
  rw [List.filterMap_append, hworkers]
  exact List.append_nil _

theorem filterMap_notice?_handoffs :
    (t.handoffs pe).filterMap Call.notice? = [⟨t.rows pe, pe⟩] := by
  have hworkers : ∀ l : List WorkerSetup, (l.map Call.worker).filterMap Call.notice? = [] := by
    intro l
    rw [List.filterMap_map, List.filterMap_eq_nil_iff]
    intro setup _
    rfl
  unfold handoffs
  rw [List.filterMap_append, hworkers]
  rfl

end Scenario

def Network.Yields (n : Network) (pe : Nat) (outcome : Outcome) : Prop :=
  ∃ p : Processor, n.processors[pe]? = some p ∧ p.status = .returned (.ok outcome)

namespace Network.Sound
variable {t : Scenario} {d : Delivery} {l : List Packet} {n : Network} {pe : Nat} {p : Processor}

theorem result (hs : n.Sound t d l) (hp : n.processors[pe]? = some p) {outcome : Outcome}
    (hok : p.status = .returned (.ok outcome)) :
    outcome = t.outcome pe ∧ handoffs p.history = t.handoffs pe := by
  obtain ⟨houtcome, hreach⟩ := (hs.stands pe p hp).reaches_ok hok
  exact ⟨houtcome, hreach.handed⟩

theorem exists_reaches (hs : n.Sound t d l) (hok : ∀ p ∈ n.processors, p.Succeeds)
    (hpe : pe < t.npes) : ∃ p : Processor, n.processors[pe]? = some p ∧
      p.Reaches t (d = .exact) pe 9 := by
  obtain ⟨p, hp⟩ := hs.exists_processor hpe
  obtain ⟨outcome, hstatus⟩ := hok p (List.mem_of_getElem? hp)
  exact ⟨p, hp, ((hs.stands pe p hp).reaches_ok hstatus).2⟩

theorem viable (hs : n.Sound t d l) (hok : ∀ p ∈ n.processors, p.Succeeds) : t.Viable := by
  intro q hq
  obtain ⟨p, -, hreach⟩ := hs.exists_reaches hok hq
  exact hreach.passed.mono (by decide)

theorem yields_iff (hs : n.Sound t d l) (hok : ∀ p ∈ n.processors, p.Succeeds) {outcome : Outcome} :
    n.Yields pe outcome ↔ pe < t.npes ∧ outcome = t.outcome pe := by
  constructor
  · intro ⟨p, hp, hstatus⟩
    exact ⟨hs.pe_lt hp, (hs.result hp hstatus).1⟩
  · intro ⟨hpe, houtcome⟩
    obtain ⟨p, hp⟩ := hs.exists_processor hpe
    obtain ⟨outcome', hstatus⟩ := hok p (List.mem_of_getElem? hp)
    rw [houtcome, ← (hs.result hp hstatus).1]
    exact ⟨p, hp, hstatus⟩

end Network.Sound

/-- Where all succeed, rows begin at zero, go on from each processor to the next one and end with
the last node. They are never inverted, and each merger has been told its own, once. -/
theorem Run.rows_tile {t : Scenario} {d : Delivery} {l : List Packet} {n : Network}
    (hr : Run t d l n) (hok : ∀ p ∈ n.processors, p.Succeeds) :
    (∀ (pe : Nat) (p : Processor) (outcome : Outcome), n.processors[pe]? = some p →
      p.status = .returned (.ok outcome) →
        outcome.total = t.referenced.size ∧
        (pe = 0 → outcome.rows.lower = 0) ∧
        outcome.rows.lower ≤ outcome.rows.upper ∧
        (outcome.rows.upper =
          if pe + 1 = t.npes then outcome.total else outcome.base + max outcome.own 1 - 1) ∧
        notices p.history = [⟨outcome.rows, pe⟩]) ∧
    (∀ pe outcome outcome', n.Yields pe outcome → n.Yields (pe + 1) outcome' →
      outcome.rows.upper = outcome'.rows.lower) ∧
    ∀ row, row < t.referenced.size ↔
      ∃! pe, ∃ outcome, n.Yields pe outcome ∧ outcome.rows.contains row = true := by
  have hs := hr.sound
  have hall := (hs.viable hok).assigns
  have htotal := Scenario.nodeTotal_eq_size hall
  refine ⟨?_, ?_, ?_⟩
  · intro pe p outcome hp hstatus
    obtain ⟨rfl, hhanded⟩ := hs.result hp hstatus
    have hpe := hs.pe_lt hp
    refine ⟨htotal, ?_, Scenario.lower_le_upper hall hpe, Scenario.upper_eq hall hpe, ?_⟩
    · rintro rfl
      rfl
    · unfold notices
      rw [hhanded]
      exact t.filterMap_notice?_handoffs pe
  · intro pe outcome outcome' hyields hyields'
    obtain ⟨-, rfl⟩ := (hs.yields_iff hok).1 hyields
    obtain ⟨-, rfl⟩ := (hs.yields_iff hok).1 hyields'
    rfl
  · intro row
    have hcontains : ∀ pe, (∃ outcome, n.Yields pe outcome ∧ outcome.rows.contains row = true) ↔
        pe < t.npes ∧ (t.rows pe).contains row = true := by
      intro pe
      simp only [hs.yields_iff hok, and_assoc, exists_and_left, exists_eq_left]
      rfl
    simp only [hcontains]
    rw [← htotal]
    exact Scenario.existsUnique_contains_iff hall

theorem two_elements_tiled : ∃ l n, Run .twoElements .exact l n ∧
    (∀ p ∈ n.processors, p.Succeeds) ∧
    ∀ row, row < Scenario.twoElements.referenced.size ↔
      ∃! pe, ∃ outcome, n.Yields pe outcome ∧ outcome.rows.contains row = true := by
  have hdone := Scenario.twoElements_succeeds
  obtain ⟨l, hr⟩ := Run.played .twoElements .exact (.replicate 40 0)
  exact ⟨l, _, hr, hdone, (hr.rows_tile hdone).2.2⟩

end MeshNumbering
