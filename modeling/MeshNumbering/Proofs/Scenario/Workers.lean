import MeshNumbering.Proofs.Scenario.Elements

/-! What the worker of a chare is to be given: the nodes of the chare's elements, their new ids, and
the nodes it shares with each other chare. -/

namespace MeshNumbering

namespace Scenario
variable {t : Scenario} {pe m i : Nat}

theorem worker_mem_handoffs {setup : WorkerSetup} : .worker setup ∈ t.handoffs pe ↔
    setup ∈ (t.relabelling pe).setups pe t.layout.nchare := by
  rw [handoffs, List.mem_append, List.mem_map]
  constructor
  · rintro (⟨_, hs, heq⟩ | hrows)
    · exact Call.worker.inj heq ▸ hs
    · cases List.mem_singleton.1 hrows
  · exact fun hs => .inl ⟨_, hs, rfl⟩

theorem get?_newIds {c : Nat} : (((t.relabelling pe).newIds.get? c).getD ∅).get? m = some i ↔
    (t.nodes pe).Refers c m ∧ i = t.newId m := by
  have hids : ∀ l : List Nat,
      (NatMap.ofList (l.map fun n => (n, t.newId n))).get? m = some i ↔ m ∈ l ∧ i = t.newId m := by
    intro l
    rw [NatMap.get?_ofList_of_fn (f := t.newId), List.map_map]
    · simp
    · intro e he
      obtain ⟨n, -, rfl⟩ := List.mem_map.1 he
      rfl
  have hget : (t.relabelling pe).newIds.get? c =
      ((t.nodes pe).get? c).map fun l => NatMap.ofList (l.map fun n => (n, t.newId n)) :=
    NatMap.get?_map
  rw [hget]
  cases hc : (t.nodes pe).get? c with
  | none => simp [NodeLists.Refers, hc]
  | some l =>
    refine (hids l).trans (and_congr_left fun _ => ?_)
    simp [NodeLists.Refers, hc]

theorem exists_worker_iff :
    (∃ setup, .worker setup ∈ t.handoffs pe ∧ setup.newIds.get? m = some i) ↔
      t.Uses pe m ∧ i = t.newId m := by
  rw [← mem_holdings]
  show _ ↔ m ∈ (Holdings.index (t.nodes pe)).keys ∧ _
  rw [Holdings.mem_index]
  simp only [worker_mem_handoffs, Relabelling.setups, List.mem_map]
  constructor
  · rintro ⟨_, ⟨e, -, rfl⟩, hget⟩
    obtain ⟨hc, hi⟩ := get?_newIds.1 hget
    exact ⟨⟨e.1, hc⟩, hi⟩
  · rintro ⟨⟨c, hc⟩, hi⟩
    obtain ⟨l, hl, -⟩ := id hc
    have hentry : (c, l.map t.newId) ∈ (t.relabelling pe).nodes.entries := by
      rw [← NatMap.get?_eq_some_iff]
      show ((t.nodes pe).map _).get? c = _
      rw [NatMap.get?_map, hl]
      rfl
    exact ⟨_, ⟨_, hentry, rfl⟩, get?_newIds.2 ⟨hc, hi⟩⟩

section
variable {q c n : Nat} {setup : WorkerSetup}

theorem map_chare_setups (t : Scenario) (q : Nat) :
    ((t.relabelling q).setups q t.layout.nchare).map WorkerSetup.chare =
      (t.nodes q).keys.elems :=
  Relabelling.map_chare_setups.trans (congrArg NatSet.elems (NatMap.keys_map (t.nodes q)))

theorem mem_keys_of_mem_setups (h : setup ∈ (t.relabelling q).setups q t.layout.nchare) :
    setup.chare ∈ (t.nodes q).keys := by
  have hmap := List.mem_map_of_mem (f := WorkerSetup.chare) h
  rw [map_chare_setups] at hmap
  exact hmap

theorem pe_of_mem_setups (h : setup ∈ (t.relabelling q).setups q t.layout.nchare) :
    setup.pe = q := (Relabelling.of_mem_setups h).1

theorem nodes_of_mem_setups (h : setup ∈ (t.relabelling q).setups q t.layout.nchare) :
    setup.nodes = ((t.nodes q).ofChare setup.chare).map t.newId := by
  obtain ⟨e, he, rfl⟩ := List.mem_map.1 h
  obtain ⟨e', he', rfl⟩ := List.mem_map.1 he
  show e'.2.map t.newId = _
  rw [NodeLists.ofChare_eq (NatMap.get?_eq_some_iff.2 he')]

theorem newIds_of_mem_setups (h : setup ∈ (t.relabelling q).setups q t.layout.nchare) :
    setup.newIds = ((t.relabelling q).newIds.get? setup.chare).getD ∅ := by
  obtain ⟨e, -, rfl⟩ := List.mem_map.1 h
  rfl

theorem get?_adjacency_of_mem_setups (h : setup ∈ (t.relabelling q).setups q t.layout.nchare) :
    setup.adjacency.get? c =
      ((((t.adjacency q).get? setup.chare).getD ∅).get? c).map fun s => s.image t.newId := by
  obtain ⟨e, -, rfl⟩ := List.mem_map.1 h
  have haround : (t.relabelling q).adjacency.get? e.1 =
      ((t.adjacency q).get? e.1).map fun around => around.map fun s => s.image t.newId :=
    NatMap.get?_map
  dsimp only
  rw [haround]
  cases (t.adjacency q).get? e.1 with
  | none => rfl
  | some around => exact NatMap.get?_map

theorem mem_referenced_of_mem_nodesOf (h : n ∈ t.nodesOf c) : n ∈ t.referenced := by
  obtain ⟨i, -, hn⟩ := List.mem_flatMap.1 h
  have hconnectivity : n ∈ t.connectivity := mem_of_mem_element hn
  exact NatSet.mem_ofList.2 hconnectivity

theorem newId_of_mem_nodesOf (hall : ∀ p < t.npes, t.Assigns p) (h : n ∈ t.nodesOf c) :
    t.newId n = t.rank n := newId_eq_rank hall (mem_referenced_of_mem_nodesOf h)

theorem owner_of_mem_keys (h : c ∈ (t.nodes q).keys) : t.layout.owner c = q :=
  (Layout.owns_iff.1 (owns_of_mem_nodes h)).2

theorem numbers_of_mem_setups (hall : ∀ p < t.npes, t.Assigns p)
    (h : setup ∈ (t.relabelling q).setups q t.layout.nchare) :
    setup.nodes = (t.nodesOf setup.chare).map t.rank ∧
      ∀ m i, setup.newIds.get? m = some i ↔ m ∈ t.nodesOf setup.chare ∧ i = t.rank m := by
  have howner := owner_of_mem_keys (mem_keys_of_mem_setups h)
  constructor
  · rw [nodes_of_mem_setups h, ofChare_nodes hall, if_pos howner]
    apply List.map_congr_left
    intro m hm
    exact newId_of_mem_nodesOf hall hm
  · intro m i
    rw [newIds_of_mem_setups h, get?_newIds, refers_nodes_iff hall, and_iff_right howner]
    apply and_congr_right
    intro hm
    rw [newId_of_mem_nodesOf hall hm]

/-- The nodes that two chares share. -/
def common (t : Scenario) (c c' : Nat) : NatSet :=
  .ofList ((t.nodesOf c).filter fun n => n ∈ t.nodesOf c')

theorem mem_common {c' : Nat} : n ∈ t.common c c' ↔ n ∈ t.nodesOf c ∧ n ∈ t.nodesOf c' := by
  unfold common
  rw [NatSet.mem_ofList, List.mem_filter, decide_eq_true_eq]

theorem common_comm (t : Scenario) (c c' : Nat) : t.common c c' = t.common c' c := by
  apply NatSet.ext
  intro n
  rw [mem_common, mem_common, and_comm]

theorem adjacency_of_mem_setups (hall : ∀ p < t.npes, t.Assigns p) (hpos : 0 < t.npes)
    (h : setup ∈ (t.relabelling q).setups q t.layout.nchare) {s : NatSet} :
    setup.adjacency.get? c = some s ↔ c ≠ setup.chare ∧ (∃ n, n ∈ t.common setup.chare c) ∧
      s = (t.common setup.chare c).image t.rank := by
  have howner := owner_of_mem_keys (mem_keys_of_mem_setups h)
  have hlists := (adjacency_spec t q).2
  have hshares : ∀ n, ((t.nodes q).Refers setup.chare n ∧ c ≠ setup.chare ∧
      ∃ p < t.npes, (t.nodes p).Refers c n) ↔ c ≠ setup.chare ∧ n ∈ t.common setup.chare c := by
    intro n
    simp only [refers_nodes_iff hall, howner, true_and, mem_common]
    constructor
    · rintro ⟨hown, hne, _, _, _, hother⟩
      exact ⟨hne, hown, hother⟩
    · rintro ⟨hne, hown, hother⟩
      exact ⟨hown, hne, _, owner_lt hpos c, rfl, hother⟩
  have hranks : c ≠ setup.chare → ((t.adjacency q).shared setup.chare c).image t.newId =
      (t.common setup.chare c).image t.rank := by
    intro hne
    apply NatSet.ext
    intro i
    simp only [NatSet.mem_image, hlists.mem_iff, hshares]
    apply exists_congr
    intro n
    rw [and_iff_right hne]
    apply and_congr_right
    intro hn
    rw [newId_of_mem_nodesOf hall (mem_common.1 hn).1]
  rw [get?_adjacency_of_mem_setups h, Option.map_eq_some_iff]
  simp only [hlists.get?_eq_some_iff, hshares, exists_and_left]
  constructor
  · rintro ⟨_, ⟨⟨hne, hcommon⟩, heq⟩, hs⟩
    rw [heq] at hs
    exact ⟨hne, hcommon, (hranks hne ▸ hs).symm⟩
  · rintro ⟨hne, hcommon, hs⟩
    exact ⟨_, ⟨⟨hne, hcommon⟩, rfl⟩, (hranks hne).trans hs.symm⟩

end

end Scenario
end MeshNumbering
