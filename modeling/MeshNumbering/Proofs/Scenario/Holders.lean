import MeshNumbering.Proofs.Holdings
import MeshNumbering.Proofs.Mesh.Chunk
import MeshNumbering.Proofs.Scenario.Basic
import MeshNumbering.Proofs.Sharing

/-! Who holds a node and who numbers it. A processor holds the nodes its chares refer to; of all
that hold a node the lowest numbers it, and every other asks that one. -/

namespace MeshNumbering

namespace Scenario
variable {t : Scenario} {p q n : Nat}

theorem length_connectivity (t : Scenario) (p : Nat) :
    (t.chunk p).connectivity.length = 4 * t.load p := by
  unfold load chunk
  cases h : Chunk.read t.reader p t.npes with
  | error e => rfl
  | ok c => exact Chunk.length_connectivity h

theorem layout_eq {nchare : Nat} {layout : Layout}
    (hn : t.config.chares.forMesh t.total t.npes = .ok nchare)
    (hl : Layout.of nchare t.npes = .ok layout) :
    t.layout = layout ∧ nchare = t.layout.nchare := by
  have hlayout : t.layout = layout := by
    rw [Scenario.layout, layout?, hn]
    show (Layout.of nchare t.npes).toOption.getD _ = _
    rw [hl]
    rfl
  exact ⟨hlayout, by rw [hlayout, (Layout.of_eq_ok hl).1]⟩

def Assigns (t : Scenario) (p : Nat) : Prop := (t.assignment? p).isSome = true

theorem assignment?_eq_some {chares : List Nat} (h : t.assignment? p = some chares) :
    chares.length = t.load p ∧ ∀ c ∈ chares, c < t.layout.nchare := by
  obtain ⟨-, hv⟩ := Option.filter_eq_some_iff.1 h
  obtain ⟨u, hu⟩ := Option.isSome_iff_exists.1 hv
  apply Strategy.verify_eq_ok_iff.1
  cases hr : Strategy.verify chares (t.load p) t.layout.nchare with
  | error e => simp [hr, Except.toOption] at hu
  | ok u => rfl

theorem assignment?_of_verify {chares : List Nat}
    (h : t.planner (t.centroids p) (t.chunk p).elements (t.load p) t.layout.nchare = .ok chares)
    (hv : Strategy.verify chares (t.load p) t.layout.nchare = .ok ()) :
    t.assignment? p = some chares := by
  rw [assignment?, Option.filter_eq_some_iff, h, hv]
  exact ⟨rfl, rfl⟩

theorem Assigns.length_assignment (h : t.Assigns p) : (t.assignment p).length = t.load p := by
  obtain ⟨chares, hc⟩ := Option.isSome_iff_exists.1 h
  rw [assignment, hc]
  exact (assignment?_eq_some hc).1

theorem length_assignment_le (t : Scenario) (p : Nat) : (t.assignment p).length ≤ t.load p := by
  unfold assignment
  cases h : t.assignment? p with
  | none => exact Nat.zero_le _
  | some chares => exact Nat.le_of_eq (assignment?_eq_some h).1

theorem lt_of_mem_assignment {c : Nat} (h : c ∈ t.assignment p) : c < t.layout.nchare := by
  unfold assignment at h
  cases hc : t.assignment? p with
  | none => simp [hc] at h
  | some chares => exact (assignment?_eq_some hc).2 c (by simpa [hc] using h)

theorem refers_part : (∃ c, (t.part p q).Refers c n) ↔ t.Supplies p q n := by
  have hlen : 4 * (t.assignment p).length ≤ (t.chunk p).connectivity.length := by
    rw [length_connectivity]
    exact Nat.mul_le_mul_left 4 (length_assignment_le t p)
  have hc : ∀ c, (t.part p q).Refers c n ↔ t.layout.owner c = q ∧
      ∃ i, (t.assignment p)[i]? = some c ∧ n ∈ NodeLists.element (t.chunk p).connectivity i := by
    intro c
    rw [← (NodeLists.refers_collect (m := ∅) hlen).trans (or_iff_right NodeLists.not_refers_empty)]
    unfold NodeLists.Refers part
    rw [NatMap.get?_filterKeys]
    by_cases ho : t.layout.owner c = q
    · simp [ho, NodeLists.ofAssignment]
    · simp [ho]
  simp only [hc, Supplies]
  constructor
  · rintro ⟨c, ho, i, hi, hn⟩
    exact ⟨i, c, hi, ho, hn⟩
  · rintro ⟨i, c, hi, ho, hn⟩
    exact ⟨c, ho, i, hi, hn⟩

theorem owns_of_mem_part {c : Nat} (h : c ∈ (t.part p q).keys) : t.layout.owns q c = true := by
  obtain ⟨l, hl⟩ := NatMap.mem_keys.1 h
  rw [part, NatMap.get?_filterKeys] at hl
  split at hl
  · next ho =>
    have hmem := NodeLists.keys_collect (m := ∅) (NatMap.mem_keys.2 ⟨l, hl⟩)
    have hc : c ∈ t.assignment p := by simpa using hmem
    exact Layout.owns_iff.2 ⟨lt_of_mem_assignment hc, of_decide_eq_true ho⟩
  · simp at hl

theorem get?_received {a : NodeLists} : (t.received q).get? p = some a ↔
    p < t.npes ∧ (t.part p q).isEmpty = false ∧ a = t.part p q := by
  rw [received, NatMap.get?_filterKeys, NatMap.get?_tabulate]
  by_cases hp : p < t.npes <;> by_cases he : (t.part p q).isEmpty <;> simp [hp, he, eq_comm]

theorem mem_values_received {m : NodeLists} : m ∈ (t.received q).values ↔
    ∃ p < t.npes, (t.part p q).isEmpty = false ∧ m = t.part p q := by
  simp only [NatMap.mem_values, get?_received]

theorem owns_of_mem_nodes {c : Nat} (h : c ∈ (t.nodes q).keys) : t.layout.owns q c = true := by
  obtain ⟨m, hm, hc⟩ := NodeLists.keys_concat.1 h
  obtain ⟨p, -, -, rfl⟩ := mem_values_received.1 hm
  exact owns_of_mem_part hc

theorem mem_holdings : n ∈ (t.holdings q).nodes ↔ t.Uses q n := by
  show n ∈ (Holdings.index (t.nodes q)).keys ↔ _
  rw [Holdings.mem_index]
  simp only [Uses, ← refers_part, nodes, NodeLists.refers_concat, mem_values_received]
  constructor
  · rintro ⟨c, m, ⟨p, hp, -, rfl⟩, hr⟩
    exact ⟨p, hp, c, hr⟩
  · rintro ⟨p, hp, c, hr⟩
    refine ⟨c, _, ⟨p, hp, ?_, rfl⟩, hr⟩
    obtain ⟨l, hl, -⟩ := hr
    rw [← Bool.not_eq_true, NatMap.isEmpty_iff]
    intro hempty
    simp [hempty c] at hl

theorem holder_eq_iff (hp : p < t.npes) :
    t.holder n = p ↔ t.Uses p n ∧ ∀ j < p, ¬ t.Uses j n := by
  unfold holder
  cases hf : (List.range t.npes).find? fun q => decide (t.Uses q n) with
  | none =>
    have hno := List.find?_range_eq_none.1 hf p hp
    rw [Option.getD_none]
    exact ⟨fun h => absurd h (Nat.ne_of_gt hp), fun h => absurd h.1 (by simpa using hno)⟩
  | some p' =>
    obtain ⟨hu, -, hfirst⟩ := List.find?_range_eq_some.1 hf
    have hu : t.Uses p' n := of_decide_eq_true hu
    have hfirst : ∀ j < p', ¬ t.Uses j n := fun j hj => by simpa using hfirst j hj
    rw [Option.getD_some]
    constructor
    · rintro rfl
      exact ⟨hu, hfirst⟩
    · rintro ⟨hp, hlow⟩
      rcases Nat.lt_trichotomy p' p with h | h | h
      · exact absurd hu (hlow p' h)
      · exact h
      · exact absurd hp (hfirst p h)

theorem holder_le (hq : q < t.npes) (h : t.Uses q n) : t.holder n ≤ q := by
  apply Nat.le_of_not_lt
  intro hlt
  unfold holder at hlt
  cases hf : (List.range t.npes).find? fun q => decide (t.Uses q n) with
  | none =>
    have hno := List.find?_range_eq_none.1 hf q hq
    simp [h] at hno
  | some p =>
    obtain ⟨-, -, hfirst⟩ := List.find?_range_eq_some.1 hf
    rw [hf, Option.getD_some] at hlt
    have hno := hfirst q hlt
    simp [h] at hno

theorem mem_mask : n ∈ (t.mask p q).keys ↔ n ∈ (t.holdings q).nodes ∧ n ∈ (t.holdings p).nodes :=
  Holdings.mem_maskOf

theorem keys_masks_ascending :
    ((t.masks q).contributions.map Prod.fst).Pairwise (· < ·) := (t.masks q).heard.ascending

theorem find?_lower_masks (hq : q < t.npes) :
    ((Claims.lower q (t.masks q).contributions).find? fun e => decide (n ∈ e.2)).map Prod.fst =
      some p ↔ p < q ∧ n ∈ (t.holdings q).nodes ∧ t.holder n = p := by
  have hlower : Claims.lower q (t.masks q).contributions =
      (List.range q).map fun p => (p, (t.mask p q).keys) := by
    have hrange : (List.range t.npes).filter (fun p => decide (p < q)) = List.range q :=
      NatSet.eq_of_ascending (List.pairwise_lt_range.filter _) List.pairwise_lt_range fun m => by
        simp only [List.mem_filter, List.mem_range, decide_eq_true_eq]
        omega
    rw [Claims.lower, masks, RollCall.contributions_full, List.filter_map, List.map_map, ← hrange]
    rfl
  rw [hlower, List.find?_map, Option.map_map]
  have hf : (fun p => decide (n ∈ (p, (t.mask p q).keys).2)) =
      fun p => decide (n ∈ (t.holdings q).nodes ∧ n ∈ (t.holdings p).nodes) :=
    funext fun p => decide_eq_decide.2 mem_mask
  rw [show (fun e : Nat × NatSet => decide (n ∈ e.2)) ∘ (fun p => (p, (t.mask p q).keys)) = _
    from hf]
  show ((List.range q).find? _).map id = _ ↔ _
  rw [Option.map_id, id, List.find?_range_eq_some]
  simp only [decide_eq_true_eq, Bool.not_eq_true', decide_eq_false_iff_not, not_and,
    List.mem_range]
  constructor
  · rintro ⟨⟨hnq, hnp⟩, hpq, hfirst⟩
    refine ⟨hpq, hnq, (holder_eq_iff (hpq.trans hq)).2 ⟨mem_holdings.1 hnp, fun j hj hu => ?_⟩⟩
    exact hfirst j hj hnq (mem_holdings.2 hu)
  · rintro ⟨hpq, hnq, hp⟩
    obtain ⟨hu, hfirst⟩ := (holder_eq_iff (hpq.trans hq)).1 hp
    exact ⟨⟨hnq, mem_holdings.2 hu⟩, hpq, fun j hj _ hn => hfirst j hj (mem_holdings.1 hn)⟩

theorem mem_wants (hq : q < t.npes) :
    n ∈ t.wants q p ↔ p < q ∧ n ∈ (t.holdings q).nodes ∧ t.holder n = p := by
  rw [← find?_lower_masks hq, ← Claims.get?_ofMasks keys_masks_ascending, wants]
  show n ∈ ((t.claims q).byPeer.get? p).getD ∅ ↔ ∃ s, (t.claims q).byPeer.get? p = some s ∧ n ∈ s
  cases (t.claims q).byPeer.get? p with
  | none => simp
  | some s => simp

theorem get?_claims {s : NatSet} : (t.claims q).byPeer.get? p = some s ↔
    (t.claims q).byPeer.contains p = true ∧ s = t.wants q p := by
  rw [NatMap.contains, wants]
  cases (t.claims q).byPeer.get? p with
  | none => simp
  | some s' => simp [eq_comm]

theorem contains_claims :
    (t.claims q).byPeer.contains p = true ↔ ∃ n, n ∈ t.wants q p := by
  constructor
  · intro h
    have hs := get?_claims.2 ⟨h, rfl⟩
    exact Claims.exists_mem_of_get?_ofMasks keys_masks_ascending hs
  · rintro ⟨n, hn⟩
    rw [wants] at hn
    rw [NatMap.contains]
    cases hs : (t.claims q).byPeer.get? p with
    | none => simp [hs] at hn
    | some s => rfl

theorem lt_of_contains_claims (hq : q < t.npes) (h : (t.claims q).byPeer.contains p = true) :
    p < q := by
  obtain ⟨n, hn⟩ := contains_claims.1 h
  exact ((mem_wants hq).1 hn).1

theorem claimant?_eq_some (hq : q < t.npes) :
    (t.claims q).claimant? n = some p ↔ n ∈ t.wants q p := by
  have hmem : ∀ p, (∃ s, (t.claims q).byPeer.get? p = some s ∧ n ∈ s) ↔ n ∈ t.wants q p := by
    intro p
    simp only [get?_claims]
    constructor
    · rintro ⟨s, ⟨-, rfl⟩, hn⟩
      exact hn
    · intro hn
      exact ⟨_, ⟨contains_claims.2 ⟨n, hn⟩, rfl⟩, hn⟩
  rw [← hmem]
  by_cases hp : t.holder n = p
  · refine Claims.claimant?_eq_some fun p' s hs hn => ?_
    rw [← hp, ((mem_wants hq).1 ((hmem p').1 ⟨s, hs, hn⟩)).2.2]
  · constructor
    · intro h
      obtain ⟨⟨p', s⟩, he, rfl⟩ := Option.map_eq_some_iff.1 h
      have hn := List.find?_some he
      exact ⟨s, NatMap.get?_eq_some_iff.2 (List.mem_of_find?_eq_some he), of_decide_eq_true hn⟩
    · intro h
      exact absurd ((mem_wants hq).1 ((hmem p).1 h)).2.2 hp

theorem mem_ownNodes (hq : q < t.npes) :
    n ∈ t.ownNodes q ↔ n ∈ (t.holdings q).nodes ∧ t.holder n = q := by
  rw [ownNodes, NatSet.mem_filter]
  apply and_congr_right
  intro hn
  rw [Option.isNone_iff_eq_none, Option.eq_none_iff_forall_ne_some]
  simp only [ne_eq, claimant?_eq_some hq, mem_wants hq, not_and]
  have hle := holder_le hq (mem_holdings.1 hn)
  constructor
  · intro h
    exact Nat.le_antisymm hle (Nat.le_of_not_lt fun hlt => h _ hlt hn rfl)
  · rintro rfl p hp _ rfl
    exact Nat.lt_irrefl _ hp

theorem size_filter_add_size_filter (s : NatSet) (f : Nat → Bool) :
    (s.filter f).size + (s.filter fun n => !f n).size = s.size :=
  (List.length_eq_length_filter_add f).symm

theorem own_eq (hq : q < t.npes) : t.own q = (t.ownNodes q).size := by
  have hclaims : (t.claims q).size =
      ((t.holdings q).nodes.filter fun n => !((t.claims q).claimant? n).isNone).size := by
    rw [claims, Claims.size_ofMasks keys_masks_ascending]
    apply NatSet.size_congr
    intro n
    rw [Claims.mem_foldl_union, NatSet.mem_filter]
    -- A node is claimed by somebody just when a lower processor names it.
    have hfind : (∃ e ∈ Claims.lower q (t.masks q).contributions, n ∈ e.2) ↔
        ∃ p, ((Claims.lower q (t.masks q).contributions).find? fun e => decide (n ∈ e.2)).map
          Prod.fst = some p := by
      constructor
      · rintro ⟨e, he, hn⟩
        cases hf : (Claims.lower q (t.masks q).contributions).find? fun e => decide (n ∈ e.2) with
        | none => simpa [hn] using List.find?_eq_none.1 hf e he
        | some e => exact ⟨e.1, rfl⟩
      · rintro ⟨p, hp⟩
        obtain ⟨e, he, -⟩ := Option.map_eq_some_iff.1 hp
        have hn := List.find?_some he
        exact ⟨e, List.mem_of_find?_eq_some he, of_decide_eq_true hn⟩
    have hclaimed : (!((t.claims q).claimant? n).isNone) = true ↔
        ∃ p, (t.claims q).claimant? n = some p := by
      cases (t.claims q).claimant? n <;> simp
    have hclaimant : (∃ p, (t.claims q).claimant? n = some p) ↔ ∃ p, n ∈ t.wants q p :=
      exists_congr fun p => claimant?_eq_some hq
    rw [← claims, hfind, hclaimed, hclaimant]
    simp only [find?_lower_masks hq, mem_wants hq, NatSet.not_mem_empty, false_or]
    constructor
    · rintro ⟨p, hp⟩
      exact ⟨hp.2.1, p, hp⟩
    · exact And.right
  have := size_filter_add_size_filter (t.holdings q).nodes
    fun n => ((t.claims q).claimant? n).isNone
  rw [own, hclaims, ← this]
  exact Nat.add_sub_cancel ..

theorem adjacency_spec (t : Scenario) (q : Nat) :
    Adjacency.addMasks (t.holdings q) q ∅ (t.masks q).contributions = .ok (t.adjacency q) ∧
      (t.adjacency q).Lists fun c s n =>
        (t.nodes q).Refers c n ∧ s ≠ c ∧ ∃ p < t.npes, (t.nodes p).Refers s n := by
  have hmasks : ∀ e ∈ (t.masks q).contributions, ∀ n ∈ e.2.keys.elems,
      n ∈ (t.holdings q).nodes := by
    intro e he n hn
    rw [masks, RollCall.contributions_full] at he
    obtain ⟨p, -, rfl⟩ := List.mem_map.1 he
    exact (mem_mask.1 hn).1
  obtain ⟨a, ha, hlists⟩ := Adjacency.addMasks_eq_ok q hmasks Adjacency.lists_empty
  have hadjacency : t.adjacency q = a := by
    rw [adjacency, ha]
    rfl
  rw [hadjacency]
  refine ⟨ha, hlists.congr fun c s n => ?_⟩
  have hnames : (t.holdings q).Names n c ↔ (t.nodes q).Refers c n := Holdings.names_index
  rw [false_or, hnames]
  apply and_congr_right
  intro hc
  apply and_congr_right
  intro _
  have hheld : n ∈ (t.holdings q).nodes := Holdings.mem_index.2 ⟨c, hc⟩
  have hmask : ∀ p, (∃ chares, (t.mask p q).get? n = some chares ∧ s ∈ chares) ↔
      (t.nodes p).Refers s n := by
    intro p
    unfold mask
    simp only [Holdings.get?_maskOf, NatSet.mem_def.1 hheld, true_and]
    exact Holdings.names_index
  rw [masks, RollCall.contributions_full]
  constructor
  · rintro ⟨e, he, hs⟩
    obtain ⟨p, hp, rfl⟩ := List.mem_map.1 he
    exact ⟨p, List.mem_range.1 hp, (hmask p).1 hs⟩
  · rintro ⟨p, hp, hs⟩
    exact ⟨(p, t.mask p q), List.mem_map.2 ⟨p, List.mem_range.2 hp, rfl⟩, (hmask p).2 hs⟩

theorem ofMasks_masks (t : Scenario) (q : Nat) :
    Sharing.ofMasks q (t.masks q) (t.holdings q) = .ok (t.sharing q) := by
  have hcomplete : (t.masks q).isComplete = true := RollCall.isComplete_full
  rw [Sharing.ofMasks, hcomplete, if_pos rfl, (adjacency_spec t q).1]
  rfl

end Scenario
end MeshNumbering
