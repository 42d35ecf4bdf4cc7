import MeshNumbering.Proofs.Network.Runs
import MeshNumbering.Proofs.Scenario.Workers

/-! What a run hands to the workers: new ids are ranks. A node's new id is the number of nodes
before it, when nodes are ordered by the processor that numbers them and then by their old ids. -/

namespace MeshNumbering
open History

def Processor.Renumbers (p : Processor) (old new : Nat) : Prop :=
  ∃ setup, .called (.worker setup) ∈ p.history ∧ setup.newIds.get? old = some new

theorem History.worker_mem_handoffs {h : List Event} {setup : WorkerSetup} :
    .worker setup ∈ handoffs h ↔ .called (.worker setup) ∈ h := by
  rw [handoffs, List.mem_filterMap]
  constructor
  · rintro ⟨e, he, heq⟩
    split at heq
    · obtain rfl := Call.worker.inj (Option.some.inj heq)
      exact he
    · cases Option.some.inj heq
    · cases heq
  · exact fun h => ⟨_, h, rfl⟩

namespace Network.Sound
variable {t : Scenario} {d : Delivery} {l : List Packet} {n : Network} {pe μ : Nat} {p : Processor}

theorem assigns (hs : n.Sound t d l) (hp : n.processors[pe]? = some p)
    (hr : p.Reaches t (d = .exact) pe μ) (hμ : 5 ≤ μ) : ∀ q < t.npes, t.Assigns q := by
  intro q hq
  obtain ⟨p', hp'⟩ := hs.exists_processor hq
  obtain ⟨μ', hr'⟩ := hs.reaches hp'
  have hheard := hr.level .offset q ⟨hq, hs.pe_lt hp, trivial⟩ hμ
  have hsaid := (hs.said hp hp' hr' hheard).1
  exact hr'.passed.assigns (Nat.le_trans (by decide) hsaid)

theorem renumbers (hs : n.Sound t d l) (hp : n.processors[pe]? = some p) {old new : Nat}
    (h : p.Renumbers old new) :
    (∀ q < t.npes, t.Assigns q) ∧ t.Uses pe old ∧ new = t.newId old := by
  obtain ⟨setup, hcall, hget⟩ := h
  obtain ⟨μ, hr⟩ := hs.reaches hp
  rw [← worker_mem_handoffs, hr.handed] at hcall
  split at hcall
  · cases hcall
  · next hμ =>
    have hall := hs.assigns hp hr (by omega)
    exact ⟨hall, Scenario.exists_worker_iff.1 ⟨setup, hcall, hget⟩⟩

end Network.Sound

/-- Every worker gets ranks as new ids. When all processors have returned results, these make a
bijection between the nodes of the mesh and an initial range, in which each processor has the
interval of the nodes it numbers. -/
theorem Run.renumbers_by_rank {t : Scenario} {d : Delivery} {l : List Packet} {n : Network}
    (hr : Run t d l n) :
    (∀ p ∈ n.processors, ∀ old new, p.Renumbers old new →
      old ∈ t.referenced ∧ new = t.rank old) ∧
    ((∀ p ∈ n.processors, p.Succeeds) →
      (∀ old new, (∃ p ∈ n.processors, p.Renumbers old new) ↔
        old ∈ t.referenced ∧ new = t.rank old) ∧
      Set.BijOn t.rank {m | m ∈ t.referenced} (Set.Iio t.referenced.size) ∧
      ∀ pe p outcome, n.processors[pe]? = some p → p.status = .returned (.ok outcome) →
        outcome.total = t.referenced.size ∧ outcome.base = t.below pe ∧
        outcome.own = (t.referenced.filter fun m => t.holder m = pe).size) := by
  have hs := hr.sound
  have hranked : ∀ p ∈ n.processors, ∀ old new, p.Renumbers old new →
      old ∈ t.referenced ∧ new = t.rank old := by
    intro p hp old new hnew
    obtain ⟨pe, hpe, rfl⟩ := List.mem_iff_getElem.1 hp
    have hget := List.getElem?_eq_getElem hpe
    obtain ⟨hall, huses, rfl⟩ := hs.renumbers hget hnew
    have hin := (Scenario.exists_uses_iff hall).1 ⟨pe, hs.pe_lt hget, huses⟩
    exact ⟨hin, Scenario.newId_eq_rank hall hin⟩
  refine ⟨hranked, fun hok => ?_⟩
  have hdone : ∀ (pe : Nat) (p : Processor), n.processors[pe]? = some p →
      p.Reaches t (d = .exact) pe 9 := by
    intro pe p hp
    obtain ⟨outcome, hstatus⟩ := hok p (List.mem_of_getElem? hp)
    exact ((hs.stands pe p hp).reaches_ok hstatus).2
  refine ⟨fun old new => ⟨?_, ?_⟩, t.rank_bijOn, fun pe p outcome hp hstatus => ?_⟩
  · rintro ⟨p, hp, hnew⟩
    exact hranked p hp old new hnew
  · rintro ⟨hin, rfl⟩
    -- The holder of a node has a chare that refers to it, so one of its workers gets the new id.
    have hpos : 0 < t.npes := by
      obtain ⟨q, hq, -⟩ := List.mem_flatMap.1 (NatSet.mem_ofList.1 hin)
      exact Nat.zero_lt_of_lt (List.mem_range.1 hq)
    obtain ⟨p₀, hp₀⟩ := hs.exists_processor hpos
    have hall := hs.assigns hp₀ (hdone 0 p₀ hp₀) (by decide)
    have hholder := Scenario.holder_lt ((Scenario.exists_uses_iff hall).2 hin)
    obtain ⟨p, hp⟩ := hs.exists_processor hholder
    have hworker := Scenario.exists_worker_iff.2 ⟨Scenario.uses_holder hholder, rfl⟩
    have hhanded : handoffs p.history = t.handoffs (t.holder old) := (hdone _ p hp).handed
    rw [← hhanded, Scenario.newId_eq_rank hall hin] at hworker
    obtain ⟨setup, hcall, hget⟩ := hworker
    exact ⟨p, List.mem_of_getElem? hp, setup, worker_mem_handoffs.1 hcall, hget⟩
  · obtain ⟨rfl, hreach⟩ := (hs.stands pe p hp).reaches_ok hstatus
    have hall := hs.assigns hp hreach (by decide)
    have hpe := hs.pe_lt hp
    exact ⟨Scenario.nodeTotal_eq_size hall, Scenario.base_eq_below hall (Nat.le_of_lt hpe),
      Scenario.own_eq_size hall hpe⟩

theorem two_elements_renumbered : ∃ l n, Run .twoElements .exact l n ∧
    (∀ p ∈ n.processors, p.Succeeds) ∧
    ∀ old new, (∃ p ∈ n.processors, p.Renumbers old new) ↔
      old ∈ Scenario.twoElements.referenced ∧ new = Scenario.twoElements.rank old := by
  have hdone := Scenario.twoElements_succeeds
  obtain ⟨l, hr⟩ := Run.played .twoElements .exact (.replicate 40 0)
  exact ⟨l, _, hr, hdone, (hr.renumbers_by_rank.2 hdone).1⟩

end MeshNumbering
