import MeshNumbering.Proofs.Network.Results

/-! What a run that succeeds everywhere gives to the workers. Every chare has one worker, at its
owner; every element of the mesh comes to one worker, with its nodes in their new ids; and two
workers know of each other what their chares share. -/

namespace MeshNumbering
open History

def Network.crew (n : Network) : List WorkerSetup := n.processors.flatMap fun p => setups p.history

namespace Network.Sound
variable {t : Scenario} {d : Delivery} {l : List Packet} {n : Network} {pe : Nat} {p : Processor}

theorem flatMap_processors (hs : n.Sound t d l) {α : Type} {f : Processor → List α}
    {g : Nat → List α} (h : ∀ pe p, n.processors[pe]? = some p → f p = g pe) :
    n.processors.flatMap f = (List.range t.npes).flatMap g := by
  rw [List.flatMap_def, List.flatMap_def]
  apply congrArg
  apply List.ext_getElem
  · rw [List.length_map, List.length_map, List.length_range, hs.length_eq]
  · intro pe hpe _
    rw [List.length_map] at hpe
    rw [List.getElem_map, List.getElem_map, List.getElem_range]
    exact h pe _ (List.getElem?_eq_getElem hpe)

theorem setups_eq (hs : n.Sound t d l) (hok : ∀ p ∈ n.processors, p.Succeeds)
    (hp : n.processors[pe]? = some p) :
    setups p.history = (t.relabelling pe).setups pe t.layout.nchare := by
  obtain ⟨outcome, hstatus⟩ := hok p (List.mem_of_getElem? hp)
  obtain ⟨-, hhanded⟩ := hs.result hp hstatus
  unfold setups
  rw [hhanded, t.filterMap_setup?_handoffs]

theorem mem_crew (hs : n.Sound t d l) (hok : ∀ p ∈ n.processors, p.Succeeds) {setup : WorkerSetup}
    (h : setup ∈ n.crew) :
    ∃ pe < t.npes, setup ∈ (t.relabelling pe).setups pe t.layout.nchare := by
  obtain ⟨p, hp, hsetup⟩ := List.mem_flatMap.1 h
  obtain ⟨pe, hpe, rfl⟩ := List.mem_iff_getElem.1 hp
  have hget := List.getElem?_eq_getElem hpe
  rw [hs.setups_eq hok hget] at hsetup
  exact ⟨pe, hs.pe_lt hget, hsetup⟩

theorem map_chare_setups (hs : n.Sound t d l) (hok : ∀ p ∈ n.processors, p.Succeeds)
    (hp : n.processors[pe]? = some p) :
    (setups p.history).map WorkerSetup.chare = (t.layout.owned pe).elems := by
  rw [hs.setups_eq hok hp, t.map_chare_setups]
  exact (hs.viable hok).keys_nodes (hs.pe_lt hp)

theorem map_chare_crew (hs : n.Sound t d l) (hok : ∀ p ∈ n.processors, p.Succeeds)
    (hpos : 0 < t.npes) : n.crew.map WorkerSetup.chare = List.range t.layout.nchare := by
  unfold crew
  rw [List.map_flatMap, hs.flatMap_processors fun pe p => hs.map_chare_setups hok,
    ← (hs.viable hok).npes_layout hpos]
  exact t.layout.flatMap_owned

end Network.Sound

/-- Where all succeed, each processor has created one worker for each of its chares, in order. The
worker has the nodes of all elements of its chare, in the order of the elements in the mesh, and
knows the new ids of just these nodes; so every element has come to one worker, once. The nodes of
all elements together are what a mesh in memory has for them. -/
theorem Run.deals_out_elements {t : Scenario} {d : Delivery} {l : List Packet} {n : Network}
    (hr : Run t d l n) (hpos : 0 < t.npes) (hok : ∀ p ∈ n.processors, p.Succeeds) :
    t.reader.elementCount = .ok t.chares.length ∧
    t.elements = List.range t.chares.length ∧
    (∀ m : Mesh, m.Valid → t.reader = m.reader → t.connectivity = m.connectivity) ∧
    (∀ (pe : Nat) (p : Processor), n.processors[pe]? = some p →
      (setups p.history).map WorkerSetup.chare = (t.layout.owned pe).elems ∧
      ∀ setup ∈ setups p.history, setup.pe = pe ∧
        setup.nodes = (t.nodesOf setup.chare).map t.rank ∧
        ∀ m i, setup.newIds.get? m = some i ↔ m ∈ t.nodesOf setup.chare ∧ i = t.rank m) ∧
    n.crew.map WorkerSetup.chare = List.range t.layout.nchare ∧
    (n.crew.flatMap fun setup => NodeLists.places t.chares setup.chare).Perm t.elements := by
  have hs := hr.sound
  have hviable := hs.viable hok
  obtain ⟨hcount, helements⟩ := hviable.elements_eq hpos
  have hchares := hs.map_chare_crew hok hpos
  refine ⟨hcount, helements, ?_, ?_, hchares, ?_⟩
  · intro m hm hreader
    exact Scenario.connectivity_eq hm hreader hpos
  · intro pe p hp
    refine ⟨hs.map_chare_setups hok hp, fun setup hsetup => ?_⟩
    rw [hs.setups_eq hok hp] at hsetup
    exact ⟨Scenario.pe_of_mem_setups hsetup,
      Scenario.numbers_of_mem_setups hviable.assigns hsetup⟩
  · have hplaces : (n.crew.flatMap fun setup => NodeLists.places t.chares setup.chare) =
        (List.range t.layout.nchare).flatMap (NodeLists.places t.chares) := by
      rw [← hchares, List.flatMap_map]
    rw [hplaces, helements]
    exact NodeLists.flatMap_places_perm fun c => Scenario.lt_of_mem_chares

theorem two_elements_dealt_out : ∃ l n, Run .twoElements .exact l n ∧
    (∀ p ∈ n.processors, p.Succeeds) ∧ 0 < Scenario.twoElements.npes ∧
    n.crew.map WorkerSetup.chare = List.range Scenario.twoElements.layout.nchare ∧
    (n.crew.flatMap fun setup =>
      NodeLists.places Scenario.twoElements.chares setup.chare).Perm
        Scenario.twoElements.elements := by
  have hdone := Scenario.twoElements_succeeds
  have hpos : 0 < Scenario.twoElements.npes := by decide
  obtain ⟨l, hr⟩ := Run.played .twoElements .exact (.replicate 40 0)
  exact ⟨l, _, hr, hdone, hpos, (hr.deals_out_elements hpos hdone).2.2.2.2⟩

/-- Where all succeed, a worker knows just the other chares with which its own shares nodes, each
with the new ids of just these nodes. What two workers know of each other is the same. -/
theorem Run.adjacency_is_shared_nodes {t : Scenario} {d : Delivery} {l : List Packet} {n : Network}
    (hr : Run t d l n) (hok : ∀ p ∈ n.processors, p.Succeeds) :
    (∀ setup ∈ n.crew, ∀ c s, setup.adjacency.get? c = some s ↔
      c ≠ setup.chare ∧ (∃ m, m ∈ t.nodesOf setup.chare ∧ m ∈ t.nodesOf c) ∧
        s = (t.common setup.chare c).image t.rank) ∧
    (∀ setup ∈ n.crew, ∀ other ∈ n.crew,
      setup.adjacency.get? other.chare = other.adjacency.get? setup.chare) ∧
    ∀ setup ∈ n.crew, setup.adjacency.get? setup.chare = none ∧
      ∀ c s, setup.adjacency.get? c = some s → ∃ i, i ∈ s := by
  have hs := hr.sound
  have hall := (hs.viable hok).assigns
  have hexact : ∀ setup ∈ n.crew, ∀ c s, setup.adjacency.get? c = some s ↔
      c ≠ setup.chare ∧ (∃ m, m ∈ t.common setup.chare c) ∧
        s = (t.common setup.chare c).image t.rank := by
    intro setup hsetup c s
    obtain ⟨pe, hpe, hmem⟩ := hs.mem_crew hok hsetup
    exact Scenario.adjacency_of_mem_setups hall (Nat.zero_lt_of_lt hpe) hmem
  refine ⟨?_, ?_, ?_⟩
  · simpa only [Scenario.mem_common] using hexact
  · intro setup hsetup other hother
    apply Option.ext
    intro s
    rw [hexact setup hsetup, hexact other hother, t.common_comm, ne_comm]
  · intro setup hsetup
    constructor
    · apply Option.eq_none_iff_forall_ne_some.2
      intro s hself
      exact ((hexact setup hsetup _ s).1 hself).1 rfl
    · intro c s hs
      obtain ⟨-, ⟨m, hm⟩, rfl⟩ := (hexact setup hsetup c s).1 hs
      exact ⟨t.rank m, NatSet.mem_image.2 ⟨m, hm, rfl⟩⟩

theorem two_elements_adjacent : ∃ l n, Run .twoElements .exact l n ∧
    (∀ p ∈ n.processors, p.Succeeds) ∧
    ∀ setup ∈ n.crew, ∀ other ∈ n.crew,
      setup.adjacency.get? other.chare = other.adjacency.get? setup.chare := by
  have hdone := Scenario.twoElements_succeeds
  obtain ⟨l, hr⟩ := Run.played .twoElements .exact (.replicate 40 0)
  exact ⟨l, _, hr, hdone, (hr.adjacency_is_shared_nodes hdone).2.1⟩

end MeshNumbering
