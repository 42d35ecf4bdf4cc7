import MeshNumbering.Proofs.Relabelling
import MeshNumbering.Proofs.Scenario.Rank
import MeshNumbering.Proofs.Steps

/-! What a processor knows of new ids at any time: those of its own nodes once it knows where they
start, and those of the nodes of each lower processor once that one has answered. -/

namespace MeshNumbering

namespace Scenario
variable {t : Scenario} {p q n i : Nat}

theorem get?_idsFor : (t.idsFor p q).get? n = some i ↔ n ∈ t.wants q p ∧ i = t.newId n := by
  rw [idsFor, NatMap.get?_ofList_of_fn (f := t.newId), List.map_map]
  · simp [Function.comp_def, NatSet.mem_def]
  · simp

theorem mem_ownNodes_of_wants (hp : p < t.npes) (hq : q < t.npes) (h : n ∈ t.wants q p) :
    n ∈ t.ownNodes p := by
  obtain ⟨-, -, rfl⟩ := (mem_wants hq).1 h
  exact (mem_ownNodes hp).2 ⟨mem_holdings.2 (uses_holder hp), rfl⟩

theorem mem_holdings_iff (hp : p < t.npes) :
    n ∈ (t.holdings p).nodes ↔ n ∈ t.ownNodes p ∨ ∃ q, n ∈ t.wants p q := by
  rw [mem_ownNodes hp]
  simp only [mem_wants hp]
  constructor
  · intro hn
    rcases Nat.lt_or_eq_of_le (holder_le hp (mem_holdings.1 hn)) with h | h
    · exact .inr ⟨_, h, hn, rfl⟩
    · exact .inl ⟨hn, h⟩
  · rintro (h | ⟨q, h⟩)
    · exact h.1
    · exact h.2.1

end Scenario

namespace Numbering

theorem get?_number {ids : NatMap Nat} {next : Nat} {l : List Nat} (hl : l.Pairwise (· < ·))
    {n : Nat} : (number ids next l).get? n =
      if n ∈ l then some (next + (l.filter fun m => decide (m < n)).length) else ids.get? n := by
  induction l generalizing ids next with
  | nil => simp [number]
  | cons a l ih =>
    rw [List.pairwise_cons] at hl
    rw [number, ih hl.2, NatMap.get?_insert]
    by_cases hna : n = a
    · subst hna
      have hnot : n ∉ l := fun hm => Nat.lt_irrefl _ (hl.1 n hm)
      have hnone : l.filter (fun m => decide (m < n)) = [] :=
        List.filter_eq_nil_iff.2 fun m hm => by simpa using Nat.le_of_lt (hl.1 m hm)
      simp [hnot, hnone]
    · by_cases hn : n ∈ l
      · have han := hl.1 n hn
        rw [if_pos hn, if_pos (List.mem_cons_of_mem a hn),
          List.filter_cons_of_pos (by simpa using han), List.length_cons, Nat.add_assoc,
          Nat.add_comm 1]
      · simp [hna, hn]

/-- The numbering of `pe` after some requests and answers; `given` says whether the own nodes have
ids, `once` that nobody asks twice. -/
structure At (r : Numbering) (t : Scenario) (pe : Nat) (requests answers : Nat → Prop)
    (given : Bool) (once : Prop) : Prop where
  pe_eq : r.pe = pe
  held_eq : r.held = (t.holdings pe).nodes.size
  own_eq : r.own = t.ownNodes pe
  claims_eq : r.claims = t.claims pe
  base_eq : r.base? = if given then some (t.base pe) else none
  ids_iff : ∀ n i, r.ids.get? n = some i ↔ i = t.newId n ∧
    (given = true ∧ n ∈ t.ownNodes pe ∨ ∃ q, n ∈ t.wants pe q ∧ answers q)
  queued_iff : ∀ e, e ∈ r.queued ↔
    given = false ∧ requests e.1 ∧ e.2 = (t.wants e.1 pe).elems
  queued_once : once → (r.queued.map Prod.fst).Nodup

variable {r : Numbering} {t : Scenario} {pe q : Nat} {requests answers : Nat → Prop} {given : Bool}
  {once : Prop}

theorem at_start (hr : ∀ q, ¬ requests q) (ha : ∀ q, ¬ answers q) :
    (start pe (t.holdings pe).nodes (t.claims pe)).At t pe requests answers false once where
  pe_eq := rfl
  held_eq := rfl
  own_eq := rfl
  claims_eq := rfl
  base_eq := rfl
  ids_iff n i := by simp [start, ha]
  queued_iff e := by simp [start, hr]
  queued_once _ := .nil

theorem At.isGivenOut_eq (h : r.At t pe requests answers given once) : r.isGivenOut = given := by
  rw [isGivenOut, h.base_eq]
  cases given <;> rfl

theorem lookUp_eq {nodes : List Nat} {f : Nat → Nat}
    (h : ∀ n ∈ nodes, r.ids.get? n = some (f n)) :
    r.lookUp q nodes = .ok (.ofList (nodes.map fun n => (n, f n))) := by
  have hnode : ∀ n ∈ nodes, r.lookUpNode q n = .ok (n, f n) := fun n hn => by
    rw [lookUpNode, h n hn]
  rw [lookUp, mapM_eq_ok_of_forall hnode]
  rfl

theorem At.lookUp_eq (h : r.At t pe requests answers true once) (hpe : pe < t.npes)
    (hq : q < t.npes) : r.lookUp q (t.wants q pe).elems = .ok (t.idsFor pe q) :=
  Numbering.lookUp_eq fun n hn =>
    (h.ids_iff n _).2 ⟨rfl, .inl ⟨rfl, Scenario.mem_ownNodes_of_wants hpe hq hn⟩⟩

theorem At.ask (h : r.At t pe requests answers given once) (hp : t.Passes .request q pe)
    (hq : once → ¬ requests q) :
    ∃ r', r.ask q (t.wants q pe).elems = .ok (if given then some (t.idsFor pe q) else none, r') ∧
      r'.At t pe (fun j => requests j ∨ j = q) answers given once := by
  -- Only own nodes are asked for, so a request is answered or waits.
  obtain ⟨hqn, hpe, -⟩ := hp
  have hown : (t.wants q pe).elems.find? (fun n => !r.own.elems.contains n) = none := by
    refine List.find?_eq_none.2 fun n hn => ?_
    have : n ∈ (t.ownNodes pe).elems := Scenario.mem_ownNodes_of_wants hpe hqn hn
    simp [h.own_eq, this]
  cases given with
  | true =>
    refine ⟨r, ?_, { h with queued_iff := fun e => ?_ }⟩
    · rw [Numbering.ask, hown]
      simp [h.isGivenOut_eq, h.lookUp_eq hpe hqn, Except.map]
    · simpa using h.queued_iff e
  | false =>
    refine ⟨{ r with queued := r.queued ++ [(q, (t.wants q pe).elems)] }, ?_,
      { h with queued_iff := fun e => ?_, queued_once := fun ho => ?_ }⟩
    · rw [Numbering.ask, hown]
      simp [h.isGivenOut_eq]
    · rw [List.mem_append, h.queued_iff, List.mem_singleton]
      obtain ⟨j, nodes⟩ := e
      constructor
      · rintro (⟨-, hj, hn⟩ | heq)
        · exact ⟨rfl, .inl hj, hn⟩
        · obtain ⟨rfl, rfl⟩ := Prod.mk.inj heq
          exact ⟨rfl, .inr rfl, rfl⟩
      · rintro ⟨-, hj | rfl, hn⟩
        · exact .inl ⟨rfl, hj, hn⟩
        · exact .inr (Prod.ext rfl hn)
    · rw [List.map_append, List.nodup_append]
      refine ⟨h.queued_once ho, by simp, fun j hj k hk hjk => ?_⟩
      obtain ⟨e, he, rfl⟩ := List.mem_map.1 hj
      obtain rfl : k = q := by simpa using hk
      exact hq ho (hjk ▸ ((h.queued_iff e).1 he).2.1)

theorem At.giveOut (h : r.At t pe requests answers false once) (hpe : pe < t.npes)
    (hr : ∀ q, requests q → q < t.npes) :
    ∃ r', r.giveOut (t.base pe) = (.ok (r.queued.map fun e => (e.1, t.idsFor pe e.1)), r') ∧
      r'.At t pe requests answers true once := by
  have hat : At { r with
      ids := number r.ids (t.base pe) r.own.elems
      base? := some (t.base pe)
      queued := [] } t pe requests answers true once := by
    refine { h with base_eq := rfl, ids_iff := fun n i => ?_, queued_iff := ?_, queued_once := ?_ }
    · rw [get?_number r.own.ascending, h.own_eq]
      show (if n ∈ t.ownNodes pe then _ else _) = _ ↔ _
      have hwants : ∀ q, n ∈ t.wants pe q → n ∉ (t.ownNodes pe).elems := fun q hn hown => by
        obtain ⟨hlt, -, hq⟩ := (Scenario.mem_wants hpe).1 hn
        have := ((Scenario.mem_ownNodes hpe).1 hown).2
        omega
      by_cases hn : n ∈ t.ownNodes pe
      · have hid : t.newId n = t.base pe +
            ((t.ownNodes pe).elems.filter fun m => decide (m < n)).length := by
          rw [Scenario.newId, ((Scenario.mem_ownNodes hpe).1 hn).2]
          rfl
        rw [if_pos hn, ← hid]
        simp [hn, eq_comm]
      · rw [if_neg hn, h.ids_iff]
        simp [hn]
    · simp
    · exact fun _ => .nil
  refine ⟨_, Prod.ext ?_ rfl, hat⟩
  apply mapM_eq_ok_of_forall
  intro e he
  obtain ⟨-, hq, hn⟩ := (h.queued_iff e).1 he
  rw [hn, hat.lookUp_eq hpe (hr _ hq)]
  rfl

theorem absorb_eq {l : List (Nat × Nat)} (hl : ∀ e ∈ l, r.claims.claimant? e.1 = some q ∧
    ∀ known, r.ids.get? e.1 = some known → known = e.2) (hone : (l.map Prod.fst).Nodup) :
    ∃ ids, absorb q r l = (none, { r with ids }) ∧
      ∀ n i, ids.get? n = some i ↔ r.ids.get? n = some i ∨ (n, i) ∈ l := by
  induction l generalizing r with
  | nil => exact ⟨r.ids, rfl, by simp⟩
  | cons e l ih =>
    obtain ⟨old, new⟩ := e
    obtain ⟨hclaim, hknown⟩ := hl _ (List.mem_cons_self ..)
    rw [List.map_cons, List.nodup_cons] at hone
    have hnot : ∀ i, (old, i) ∉ l := fun i hi => hone.1 (List.mem_map.2 ⟨_, hi, rfl⟩)
    have hstep : absorb q r ((old, new) :: l) =
        absorb q { r with ids := r.ids.insert old new } l := by
      rw [absorb, if_pos hclaim]
      cases hg : r.ids.get? old with
      | none => rfl
      | some known => simp [hknown known hg]
    have hl' : ∀ e ∈ l, r.claims.claimant? e.1 = some q ∧
        ∀ known, (r.ids.insert old new).get? e.1 = some known → known = e.2 := by
      intro e he
      refine ⟨(hl e (List.mem_cons_of_mem _ he)).1, fun known hk => ?_⟩
      have hne : e.1 ≠ old := fun h => hnot e.2 (h ▸ he)
      rw [NatMap.get?_insert, if_neg hne] at hk
      exact (hl e (List.mem_cons_of_mem _ he)).2 known hk
    -- Every node is named once, so the rest of the answer does not touch this one.
    obtain ⟨ids, hids, hget⟩ := ih (r := { r with ids := r.ids.insert old new }) hl' hone.2
    refine ⟨ids, hstep.trans hids, fun n i => ?_⟩
    rw [hget, NatMap.get?_insert, List.mem_cons, Prod.mk.injEq]
    by_cases hn : n = old
    · subst hn
      rw [if_pos rfl]
      constructor
      · rintro (h | h)
        · exact .inr (.inl ⟨rfl, (Option.some.inj h).symm⟩)
        · exact absurd h (hnot i)
      · rintro (h | ⟨-, rfl⟩ | h)
        · exact .inl (congrArg some (hknown i h).symm)
        · exact .inl rfl
        · exact absurd h (hnot i)
    · simp [hn]

theorem of_absorb {l : List (Nat × Nat)} {r' : Numbering} (h : absorb q r l = (none, r')) :
    ∃ ids, r' = { r with ids } ∧
      (∀ n i, ids.get? n = some i →
        r.ids.get? n = some i ∨ r.claims.claimant? n = some q ∧ (n, i) ∈ l) ∧
      ∀ n i, r.ids.get? n = some i → ids.get? n = some i := by
  induction l generalizing r with
  | nil =>
    obtain ⟨-, rfl⟩ := Prod.mk.inj h
    exact ⟨r.ids, rfl, fun n i => .inl, fun n i hi => hi⟩
  | cons e l ih =>
    obtain ⟨old, new⟩ := e
    rw [absorb] at h
    split at h
    rotate_left
    · cases (Prod.mk.inj h).1
    next hclaim =>
    have hstored : absorb q { r with ids := r.ids.insert old new } l = (none, r') ∧
        ∀ i, r.ids.get? old = some i → i = new := by
      split at h
      · next known hknown =>
        split at h
        · next heq => exact ⟨h, fun i hi => Option.some.inj (hi.symm.trans hknown) ▸ heq⟩
        · cases (Prod.mk.inj h).1
      · next hnone => exact ⟨h, fun i hi => by rw [hnone] at hi; cases hi⟩
    obtain ⟨ids, rfl, hnew, hkept⟩ := ih hstored.1
    refine ⟨ids, rfl, fun n i hn => ?_, fun n i hn => hkept n i ?_⟩
    · rcases hnew n i hn with hn | ⟨hc, hmem⟩
      · rw [NatMap.get?_insert] at hn
        split at hn
        · next heq =>
          obtain rfl := Option.some.inj hn
          exact .inr ⟨heq ▸ hclaim, heq ▸ List.mem_cons_self ..⟩
        · exact .inl hn
      · exact .inr ⟨hc, List.mem_cons_of_mem _ hmem⟩
    · rw [NatMap.get?_insert]
      split
      · next heq => rw [hstored.2 i (heq ▸ hn)]
      · exact hn

theorem of_ask {sender : Nat} {nodes : List Nat} {answer : Option (NatMap Nat)} {r' : Numbering}
    (h : r.ask sender nodes = .ok (answer, r')) :
    (∃ queued, r' = { r with queued }) ∧ (answer.isSome = true → r.isGivenOut = true) := by
  unfold Numbering.ask at h
  split at h
  · cases h
  · split at h
    · next hgiven =>
      obtain ⟨ids, -, heq⟩ := map_eq_ok h
      obtain ⟨rfl, rfl⟩ := Prod.mk.inj heq
      exact ⟨⟨r.queued, rfl⟩, fun _ => hgiven⟩
    · obtain ⟨rfl, rfl⟩ := Prod.mk.inj (Except.ok.inj h)
      exact ⟨⟨_, rfl⟩, fun hs => by cases hs⟩

theorem At.learn (h : r.At t pe requests answers given once) (hp : t.Passes .assigned q pe) :
    ∃ r', r.learn q (t.idsFor q pe) = (none, r') ∧
      r'.At t pe requests (fun j => answers j ∨ j = q) given once := by
  obtain ⟨hqn, hpe, -⟩ := hp
  have hentry : ∀ n i, (n, i) ∈ (t.idsFor q pe).entries ↔ n ∈ t.wants pe q ∧ i = t.newId n :=
    fun n i => by rw [← NatMap.get?_eq_some_iff, Scenario.get?_idsFor]
  obtain ⟨ids, hids, hget⟩ := absorb_eq (r := r) (q := q) (l := (t.idsFor q pe).entries)
    (fun e he => by
      obtain ⟨hw, hi⟩ := (hentry e.1 e.2).1 he
      refine ⟨by rw [h.claims_eq, Scenario.claimant?_eq_some hpe]; exact hw, fun known hk => ?_⟩
      rw [hi, ((h.ids_iff _ _).1 hk).1])
    (NatSet.nodup_elems (t.idsFor q pe).keys)
  refine ⟨_, hids, { h with ids_iff := fun n i => ?_ }⟩
  rw [hget, h.ids_iff, hentry]
  constructor
  · rintro (⟨hi, hown | ⟨j, hw, hj⟩⟩ | ⟨hw, hi⟩)
    · exact ⟨hi, .inl hown⟩
    · exact ⟨hi, .inr ⟨j, hw, .inl hj⟩⟩
    · exact ⟨hi, .inr ⟨q, hw, .inr rfl⟩⟩
  · rintro ⟨hi, hown | ⟨j, hw, hj | rfl⟩⟩
    · exact .inl ⟨hi, .inl hown⟩
    · exact .inl ⟨hi, .inr ⟨j, hw, hj⟩⟩
    · exact .inr ⟨hw, hi⟩

theorem At.mem_wanted (h : r.At t pe requests answers given once) {e : Nat × List Nat} :
    e ∈ r.wanted ↔ (t.claims pe).byPeer.contains e.1 = true ∧ e.2 = (t.wants pe e.1).elems := by
  rw [wanted, h.claims_eq, List.mem_map]
  constructor
  · rintro ⟨⟨p, s⟩, hs, rfl⟩
    obtain ⟨hc, rfl⟩ := Scenario.get?_claims.1 (NatMap.get?_eq_some_iff.2 hs)
    exact ⟨hc, rfl⟩
  · rintro ⟨hc, he⟩
    exact ⟨(e.1, t.wants pe e.1), NatMap.get?_eq_some_iff.1 (Scenario.get?_claims.2 ⟨hc, rfl⟩),
      Prod.ext rfl he.symm⟩

theorem nodup_wanted (r : Numbering) : (r.wanted.map Prod.fst).Nodup := by
  have : r.wanted.map Prod.fst = r.claims.byPeer.keys.elems := by
    rw [wanted, List.map_map]
    rfl
  rw [this]
  exact NatSet.nodup_elems _

theorem At.isComplete_iff (h : r.At t pe requests answers true once) (hpe : pe < t.npes) :
    r.isComplete = true ↔ ∀ q, (t.claims pe).byPeer.contains q = true → answers q := by
  have hsub : ∀ n i, r.ids.get? n = some i → n ∈ (t.holdings pe).nodes := by
    intro n i hi
    refine (Scenario.mem_holdings_iff hpe).2 ?_
    obtain ⟨-, ⟨-, hown⟩ | ⟨q, hw, -⟩⟩ := (h.ids_iff n i).1 hi
    · exact .inl hown
    · exact .inr ⟨q, hw⟩
  rw [isComplete, decide_eq_true_eq, h.isGivenOut_eq, h.held_eq, NatMap.size_eq_size_iff hsub,
    eq_self, true_and]
  constructor
  · intro hall q hq
    obtain ⟨n, hn⟩ := Scenario.contains_claims.1 hq
    obtain ⟨i, hi⟩ := hall n ((Scenario.mem_holdings_iff hpe).2 (.inr ⟨q, hn⟩))
    obtain ⟨-, -, hq'⟩ := (Scenario.mem_wants hpe).1 hn
    obtain ⟨-, ⟨-, hown⟩ | ⟨j, hw, hj⟩⟩ := (h.ids_iff n i).1 hi
    · have hlt := Scenario.lt_of_contains_claims hpe hq
      have := ((Scenario.mem_ownNodes hpe).1 hown).2
      omega
    · obtain ⟨-, -, rfl⟩ := (Scenario.mem_wants hpe).1 hw
      exact hq' ▸ hj
  · intro hall n hn
    refine ⟨t.newId n, (h.ids_iff n _).2 ⟨rfl, ?_⟩⟩
    rcases (Scenario.mem_holdings_iff hpe).1 hn with hown | ⟨q, hw⟩
    · exact .inl ⟨rfl, hown⟩
    · exact .inr ⟨q, hw, hall q (Scenario.contains_claims.2 ⟨n, hw⟩)⟩

theorem At.get?_ids (h : r.At t pe requests answers true once) (hpe : pe < t.npes)
    (hall : ∀ q, (t.claims pe).byPeer.contains q = true → answers q) {n : Nat}
    (hn : n ∈ (t.holdings pe).nodes) : r.ids.get? n = some (t.newId n) := by
  refine (h.ids_iff n _).2 ⟨rfl, ?_⟩
  rcases (Scenario.mem_holdings_iff hpe).1 hn with hown | ⟨q, hw⟩
  · exact .inl ⟨rfl, hown⟩
  · exact .inr ⟨q, hw, hall q (Scenario.contains_claims.2 ⟨n, hw⟩)⟩

end Numbering

theorem Relabelling.of_eq {t : Scenario} {pe : Nat} {ids : NatMap Nat}
    (h : ∀ n ∈ (t.holdings pe).nodes.elems, ids.get? n = some (t.newId n)) :
    Relabelling.of pe (t.nodes pe) (t.adjacency pe) ids = .ok (t.relabelling pe) := by
  have hmet : ∀ n ∈ occurrences (t.nodes pe) (t.adjacency pe), ids.get? n = some (t.newId n) := by
    intro n hn
    apply h n
    rcases mem_occurrences.1 hn with ⟨c, l, hl, hn⟩ | ⟨c, s, hn⟩
    · exact Holdings.mem_index.2 ⟨c, NodeLists.refers_iff_entries.2
        ⟨(c, l), NatMap.get?_eq_some_iff.1 hl, rfl, hn⟩⟩
    · exact Holdings.mem_index.2
        ⟨c, (((Scenario.adjacency_spec t pe).2.mem_iff c s n).1 hn).1⟩
  rw [of_eq_provided fun n hn i hi => Option.some.inj ((hmet n hn).symm.trans hi)]
  refine provided_eq_ok_iff.2 ⟨fun n hn => ?_, rfl⟩
  rw [NatMap.contains, hmet n hn]
  rfl

end MeshNumbering
