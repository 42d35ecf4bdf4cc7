import MeshNumbering.Proofs.Holdings.Index
import MeshNumbering.Sharing

/-! Claims and adjacency as the masks determine them. A node goes to the first processor that names
it, and the claims together count every node just once. -/

namespace MeshNumbering

namespace Claims

theorem settle_cons {taken : NatSet} {p : Nat} {nodes : NatSet} {l : List (Nat × NatSet)} :
    settle taken ((p, nodes) :: l) =
      if (nodes.diff taken).isEmpty then settle taken l
      else (p, nodes.diff taken) :: settle (taken.union (nodes.diff taken)) l := rfl

theorem mem_settle {taken : NatSet} {l : List (Nat × NatSet)} {n p : Nat} :
    (∃ s, (p, s) ∈ settle taken l ∧ n ∈ s) ↔
      ¬ n ∈ taken ∧ (l.find? fun e => decide (n ∈ e.2)).map Prod.fst = some p := by
  induction l generalizing taken with
  | nil => simp [settle]
  | cons e l ih =>
    obtain ⟨p₀, nodes⟩ := e
    rw [settle_cons, List.find?_cons]
    by_cases hn : n ∈ nodes
    · rw [decide_eq_true hn]
      by_cases ht : n ∈ taken
      · have hdiff : ¬ n ∈ nodes.diff taken := by simp [ht]
        split
        · rw [ih]
          simp [ht]
        · simp only [List.mem_cons, Prod.mk.injEq, or_and_right, exists_or]
          rw [ih]
          simp [ht]
      · have hmine : n ∈ nodes.diff taken := by simp [hn, ht]
        rw [if_neg fun he => NatSet.isEmpty_iff.1 he n hmine]
        simp only [List.mem_cons, Prod.mk.injEq, or_and_right, exists_or]
        rw [ih]
        simp [hn, ht, eq_comm]
    · rw [decide_eq_false hn]
      split
      · exact ih
      · simp only [List.mem_cons, Prod.mk.injEq, or_and_right, exists_or]
        rw [ih]
        simp [hn]

theorem settle_keys_sublist (taken : NatSet) {l : List (Nat × NatSet)} :
    ((settle taken l).map Prod.fst).Sublist (l.map Prod.fst) := by
  induction l generalizing taken with
  | nil => exact .refl _
  | cons e l ih =>
    rw [settle_cons, List.map_cons]
    split
    · exact (ih _).cons _
    · exact (ih _).cons_cons _

theorem exists_mem_of_mem_settle {taken : NatSet} {l : List (Nat × NatSet)} {e : Nat × NatSet}
    (h : e ∈ settle taken l) : ∃ n, n ∈ e.2 := by
  induction l generalizing taken with
  | nil => simp [settle] at h
  | cons a l ih =>
    rw [settle_cons] at h
    split at h
    · exact ih h
    · next hne =>
      rcases List.mem_cons.1 h with rfl | h
      · exact NatSet.isEmpty_eq_false_iff.1 (Bool.not_eq_true _ ▸ hne)
      · exact ih h

theorem size_union_diff {s t : NatSet} : (s.union (t.diff s)).size = s.size + (t.diff s).size := by
  have hdisj : Disjoint s.toFinset (t.diff s).toFinset := by
    rw [Finset.disjoint_left]
    intro n hs ht
    rw [NatSet.mem_toFinset] at hs
    rw [NatSet.mem_toFinset, NatSet.mem_diff] at ht
    exact ht.2 hs
  rw [← NatSet.card_toFinset s, ← NatSet.card_toFinset (t.diff s),
    ← Finset.card_union_of_disjoint hdisj]
  exact NatSet.size_eq_card fun n => by
    rw [Finset.mem_union, NatSet.mem_toFinset, NatSet.mem_toFinset, NatSet.mem_union]

theorem sum_size_settle {taken : NatSet} {l : List (Nat × NatSet)} :
    taken.size + ((settle taken l).map fun e => e.2.size).sum =
      (l.foldl (fun u e => u.union (e.2.diff u)) taken).size := by
  induction l generalizing taken with
  | nil => rfl
  | cons e l ih =>
    obtain ⟨p, nodes⟩ := e
    rw [settle_cons, List.foldl_cons]
    split
    · next he =>
      have hsame : taken.union (nodes.diff taken) = taken := NatSet.ext fun n => by
        rw [NatSet.mem_union]
        exact or_iff_left (NatSet.isEmpty_iff.1 he n)
      rw [hsame, ih]
    · rw [List.map_cons, List.sum_cons, ← Nat.add_assoc, ← size_union_diff, ih]

theorem mem_foldl_union {l : List (Nat × NatSet)} {s : NatSet} {n : Nat} :
    n ∈ l.foldl (fun u e => u.union (e.2.diff u)) s ↔ n ∈ s ∨ ∃ e ∈ l, n ∈ e.2 := by
  induction l generalizing s with
  | nil => simp
  | cons e l ih =>
    rw [List.foldl_cons, ih, NatSet.mem_union, NatSet.mem_diff, List.exists_mem_cons_iff]
    by_cases hn : n ∈ s <;> simp [hn]

section
variable {pe : Nat} {masks : List (Nat × Mask)}

def lower (pe : Nat) (masks : List (Nat × Mask)) : List (Nat × NatSet) :=
  (masks.filter fun m => m.1 < pe).map fun m => (m.1, m.2.keys)

theorem entries_ofMasks (h : (masks.map Prod.fst).Pairwise (· < ·)) :
    (ofMasks pe masks).byPeer.entries = settle ∅ (lower pe masks) := by
  have hlower : ((lower pe masks).map Prod.fst).Pairwise (· < ·) := by
    rw [lower, List.map_map]
    exact h.sublist (List.filter_sublist.map _)
  have hsettle := hlower.sublist (settle_keys_sublist ∅)
  show (NatMap.ofList (settle ∅ (lower pe masks))).entries = _
  rw [show settle ∅ (lower pe masks) = (⟨_, hsettle⟩ : NatMap NatSet).entries from rfl,
    NatMap.ofList_entries]

theorem size_ofMasks (h : (masks.map Prod.fst).Pairwise (· < ·)) :
    (ofMasks pe masks).size =
      ((lower pe masks).foldl (fun u e => u.union (e.2.diff u)) (∅ : NatSet)).size := by
  rw [size, NatMap.values, entries_ofMasks h, List.map_map, ← sum_size_settle]
  exact (Nat.zero_add _).symm

theorem get?_ofMasks (h : (masks.map Prod.fst).Pairwise (· < ·)) {n p : Nat} :
    (∃ s, (ofMasks pe masks).byPeer.get? p = some s ∧ n ∈ s) ↔
      ((lower pe masks).find? fun e => decide (n ∈ e.2)).map Prod.fst = some p := by
  simp only [NatMap.get?_eq_some_iff, entries_ofMasks h]
  rw [mem_settle]
  simp

theorem exists_mem_of_get?_ofMasks (h : (masks.map Prod.fst).Pairwise (· < ·)) {p : Nat}
    {s : NatSet} (hs : (ofMasks pe masks).byPeer.get? p = some s) : ∃ n, n ∈ s := by
  rw [NatMap.get?_eq_some_iff, entries_ofMasks h] at hs
  exact exists_mem_of_mem_settle hs

end

theorem of_claimant?_eq_some {c : Claims} {n p : Nat} (h : c.claimant? n = some p) :
    ∃ s, c.byPeer.get? p = some s ∧ n ∈ s := by
  obtain ⟨⟨_, s⟩, he, rfl⟩ := Option.map_eq_some_iff.1 h
  have hn := List.find?_some he
  exact ⟨s, NatMap.get?_eq_some_iff.2 (List.mem_of_find?_eq_some he), of_decide_eq_true hn⟩

theorem claimant?_eq_some {c : Claims} {n p : Nat}
    (hone : ∀ p' s, c.byPeer.get? p' = some s → n ∈ s → p' = p) :
    c.claimant? n = some p ↔ ∃ s, c.byPeer.get? p = some s ∧ n ∈ s := by
  refine ⟨of_claimant?_eq_some, ?_⟩
  rintro ⟨s, hs, hn⟩
  cases hc : c.claimant? n with
  | none =>
    rw [claimant?, Option.map_eq_none_iff, List.find?_eq_none] at hc
    exact absurd (decide_eq_true hn) (hc _ (NatMap.get?_eq_some_iff.1 hs))
  | some q =>
    obtain ⟨s', hs', hn'⟩ := of_claimant?_eq_some hc
    exact congrArg some (hone q s' hs' hn')

/-- The claims divide some of the held nodes among the lower processors. -/
structure Portions (c : Claims) (held : NatSet) : Prop where
  held : ∀ q s, c.byPeer.get? q = some s → ∀ n, n ∈ s → n ∈ held
  disjoint : ∀ p s q s', c.byPeer.get? p = some s → c.byPeer.get? q = some s' →
    ∀ n, n ∈ s → n ∈ s' → p = q

theorem Portions.claimant?_eq_some {c : Claims} {held : NatSet} (h : c.Portions held)
    {n q : Nat} : c.claimant? n = some q ↔ ∃ s, c.byPeer.get? q = some s ∧ n ∈ s := by
  refine ⟨of_claimant?_eq_some, ?_⟩
  rintro ⟨s, hs, hn⟩
  exact (Claims.claimant?_eq_some fun p s' hs' hn' => h.disjoint p s' q s hs' hs n hn' hn).2
    ⟨s, hs, hn⟩

/-! The claimant of a node, from the masks of all processors. -/

theorem mem_lower {pe : Nat} {masks : List (Nat × Mask)} {q : Nat} {s : NatSet} :
    (q, s) ∈ lower pe masks ↔ q < pe ∧ ∃ mask, (q, mask) ∈ masks ∧ s = mask.keys := by
  simp only [lower, List.mem_map, List.mem_filter, decide_eq_true_eq, Prod.mk.injEq]
  constructor
  · rintro ⟨⟨_, mask⟩, ⟨hm, hq⟩, rfl, rfl⟩
    exact ⟨hq, mask, hm, rfl⟩
  · rintro ⟨hq, mask, hm, rfl⟩
    exact ⟨(q, mask), ⟨hm, hq⟩, rfl, rfl⟩

theorem claimant?_iff_get? {pe n q : Nat} {masks : List (Nat × Mask)}
    (h : (masks.map Prod.fst).Pairwise (· < ·)) : (ofMasks pe masks).claimant? n = some q ↔
      ∃ s, (ofMasks pe masks).byPeer.get? q = some s ∧ n ∈ s := by
  refine ⟨of_claimant?_eq_some, fun hq => (claimant?_eq_some fun p s hs hn => ?_).2 hq⟩
  exact Option.some.inj (((get?_ofMasks h).1 ⟨s, hs, hn⟩).symm.trans ((get?_ofMasks h).1 hq))

theorem claimant?_ofMasks {pe n q : Nat} {masks : List (Nat × Mask)}
    (h : (masks.map Prod.fst).Pairwise (· < ·)) : (ofMasks pe masks).claimant? n = some q ↔
      q < pe ∧ (∃ mask, (q, mask) ∈ masks ∧ n ∈ mask.keys) ∧
        ∀ j < q, ∀ mask, (j, mask) ∈ masks → ¬ n ∈ mask.keys := by
  have hascending : ((lower pe masks).map Prod.fst).Pairwise (· < ·) := by
    rw [lower, List.map_map]
    exact h.sublist (List.filter_sublist.map _)
  rw [claimant?_iff_get? h, get?_ofMasks h, find?_eq_some_iff_isLeast hascending]
  constructor
  · rintro ⟨⟨⟨_, s⟩, hs, rfl, hn⟩, hleast⟩
    obtain ⟨hq, mask, hm, rfl⟩ := mem_lower.1 hs
    refine ⟨hq, ⟨mask, hm, of_decide_eq_true hn⟩, fun j hj mask' hm' hn' => ?_⟩
    have hlower := mem_lower.2 ⟨hj.trans hq, mask', hm', rfl⟩
    exact Nat.not_le_of_lt hj (hleast ⟨_, hlower, rfl, decide_eq_true hn'⟩)
  · rintro ⟨hq, ⟨mask, hm, hn⟩, hlowest⟩
    refine ⟨⟨_, mem_lower.2 ⟨hq, mask, hm, rfl⟩, rfl, decide_eq_true hn⟩, ?_⟩
    rintro _ ⟨⟨j, s⟩, hs, rfl, hn'⟩
    obtain ⟨-, mask', hm', rfl⟩ := mem_lower.1 hs
    exact Nat.le_of_not_lt fun hj => hlowest j hj mask' hm' (of_decide_eq_true hn')

end Claims

namespace Adjacency

def shared (a : Adjacency) (c s : Nat) : NatSet := (((a.get? c).getD ∅).get? s).getD ∅

/-- Node `n` is listed for `c` and `s` just when they are related by it, and nothing is listed
empty. -/
structure Lists (a : Adjacency) (R : Nat → Nat → Nat → Prop) : Prop where
  mem_iff : ∀ c s n, n ∈ a.shared c s ↔ R c s n
  filled : ∀ c around s nodes, a.get? c = some around → around.get? s = some nodes →
    ∃ n, n ∈ nodes

variable {R R' : Nat → Nat → Nat → Prop} {a : Adjacency} {h : Holdings} {c s n : Nat}

theorem shared_eq {around : NatMap NatSet} {nodes : NatSet} (hc : a.get? c = some around)
    (hs : around.get? s = some nodes) : a.shared c s = nodes := by
  unfold shared
  rw [hc, Option.getD_some, hs]
  rfl

theorem mem_shared : n ∈ a.shared c s ↔
    ∃ around nodes, a.get? c = some around ∧ around.get? s = some nodes ∧ n ∈ nodes := by
  constructor
  · intro h
    unfold shared at h
    cases hc : a.get? c with
    | none => exact absurd (hc ▸ h) NatSet.not_mem_empty
    | some around =>
      rw [hc, Option.getD_some] at h
      cases hs : around.get? s with
      | none => exact absurd (hs ▸ h) NatSet.not_mem_empty
      | some nodes => exact ⟨around, nodes, rfl, hs, by rwa [hs] at h⟩
  · rintro ⟨around, nodes, hc, hs, hn⟩
    rwa [shared_eq hc hs]

theorem Lists.get?_eq_some_iff (ha : a.Lists R) {nodes : NatSet} :
    ((a.get? c).getD ∅).get? s = some nodes ↔ (∃ n, R c s n) ∧ nodes = a.shared c s := by
  constructor
  · intro hs
    have hnodes : nodes = a.shared c s := by
      unfold shared
      rw [hs]
      rfl
    refine ⟨?_, hnodes⟩
    cases hc : a.get? c with
    | none =>
      rw [hc] at hs
      cases hs
    | some around =>
      rw [hc] at hs
      obtain ⟨n, hn⟩ := ha.filled c around s nodes hc hs
      exact ⟨n, (ha.mem_iff c s n).1 (hnodes ▸ hn)⟩
  · intro ⟨⟨n, hn⟩, hnodes⟩
    have hmem : n ∈ a.shared c s := (ha.mem_iff c s n).2 hn
    unfold shared at hmem hnodes
    cases hs : ((a.get? c).getD ∅).get? s with
    | none =>
      rw [hs] at hmem
      exact absurd hmem NatSet.not_mem_empty
    | some nodes' =>
      rw [hs] at hnodes
      rw [hnodes]
      rfl

theorem Lists.congr (ha : a.Lists R) (h : ∀ c s n, R c s n ↔ R' c s n) : a.Lists R' where
  mem_iff c s n := (ha.mem_iff c s n).trans (h c s n)
  filled := ha.filled

theorem lists_empty : Lists ∅ fun _ _ _ => False where
  mem_iff _ _ _ := iff_false_intro NatSet.not_mem_empty
  filled _ _ _ _ hc := by cases hc

theorem shared_add {c' s' : Nat} : (a.add c s n).shared c' s' =
    if c' = c ∧ s' = s then (a.shared c s).insert n else a.shared c' s' := by
  unfold shared add
  rw [NatMap.get?_upsert]
  by_cases hc : c' = c
  · subst hc
    rw [if_pos rfl, Option.getD_some, NatMap.get?_upsert]
    by_cases hs : s' = s
    · subst hs
      rw [if_pos rfl, if_pos ⟨rfl, rfl⟩]
      rfl
    · rw [if_neg hs, if_neg fun h => hs h.2]
  · rw [if_neg hc, if_neg fun h => hc h.1]

theorem Lists.add (ha : a.Lists R) (c s n : Nat) :
    (a.add c s n).Lists fun c' s' n' => R c' s' n' ∨ c' = c ∧ s' = s ∧ n' = n where
  mem_iff c' s' n' := by
    rw [shared_add, ← ha.mem_iff]
    by_cases h : c' = c ∧ s' = s
    · obtain ⟨rfl, rfl⟩ := h
      rw [if_pos ⟨rfl, rfl⟩, NatSet.mem_insert, or_comm]
      simp
    · rw [if_neg h]
      apply (or_iff_left _).symm
      intro h'
      exact h ⟨h'.1, h'.2.1⟩
  filled c' around s' nodes hc hs := by
    unfold Adjacency.add at hc
    rw [NatMap.get?_upsert] at hc
    split at hc
    · obtain rfl := Option.some.inj hc
      rw [NatMap.get?_upsert] at hs
      split at hs
      · obtain rfl := Option.some.inj hs
        exact ⟨n, NatSet.mem_insert.2 (.inl rfl)⟩
      · cases hac : a.get? c with
        | none =>
          rw [hac] at hs
          cases hs
        | some around =>
          rw [hac] at hs
          exact ha.filled c around s' nodes hac hs
    · exact ha.filled c' around s' nodes hc hs

theorem Lists.addAround (ha : a.Lists R) (c n : Nat) (surrounding : List Nat) :
    (surrounding.foldl (fun a s => if s = c then a else a.add c s n) a).Lists fun c' s n' =>
      R c' s n' ∨ c' = c ∧ s ∈ surrounding ∧ s ≠ c ∧ n' = n := by
  induction surrounding generalizing a R with
  | nil =>
    apply ha.congr
    simp
  | cons s l ih =>
    rw [List.foldl_cons]
    split
    · next hs =>
      apply (ih ha).congr
      intro c' s' n'
      apply or_congr_right
      apply and_congr_right
      intro _
      rw [List.mem_cons, or_and_right, or_iff_right]
      rintro ⟨rfl, hne, -⟩
      exact hne hs
    · next hs =>
      apply (ih (ha.add c s n)).congr
      intro c' s' n'
      rw [or_assoc, List.mem_cons]
      apply or_congr_right
      constructor
      · rintro (⟨hc, rfl, hn⟩ | ⟨hc, hl, hrest⟩)
        · exact ⟨hc, .inl rfl, hs, hn⟩
        · exact ⟨hc, .inr hl, hrest⟩
      · rintro ⟨hc, rfl | hl, hne, hn⟩
        · exact .inl ⟨hc, rfl, hn⟩
        · exact .inr ⟨hc, hl, hne, hn⟩

theorem Lists.addNode (ha : a.Lists R) (n : Nat) (chares surrounding : List Nat) :
    (a.addNode n chares surrounding).Lists fun c s n' =>
      R c s n' ∨ c ∈ chares ∧ s ∈ surrounding ∧ s ≠ c ∧ n' = n := by
  unfold Adjacency.addNode
  induction chares generalizing a R with
  | nil =>
    apply ha.congr
    simp
  | cons c chares ih =>
    rw [List.foldl_cons]
    apply (ih (ha.addAround c n surrounding)).congr
    intro c' s n'
    rw [or_assoc, List.mem_cons, or_and_right]
    apply or_congr_right
    apply or_congr_left
    apply and_congr_right
    rintro rfl
    rfl

theorem addMask_eq_ok (pe sender : Nat) {l : List (Nat × List Nat)} (hl : ∀ e ∈ l, e.1 ∈ h.nodes)
    (ha : a.Lists R) : ∃ a', addMask h pe sender a l = .ok a' ∧ a'.Lists fun c s n =>
      R c s n ∨ h.Names n c ∧ s ≠ c ∧ ∃ e ∈ l, e.1 = n ∧ s ∈ e.2 := by
  induction l generalizing a R with
  | nil =>
    refine ⟨a, rfl, ha.congr fun c s n => ?_⟩
    simp
  | cons e l ih =>
    obtain ⟨chares, hchares⟩ := Holdings.mem_nodes.1 (hl e (List.mem_cons_self ..))
    have hnames : ∀ c, h.Names e.1 c ↔ c ∈ chares := by
      intro c
      unfold Holdings.Names
      rw [hchares]
      simp
    obtain ⟨a', haddMask, ha'⟩ := ih (fun e' he' => hl e' (List.mem_cons_of_mem e he'))
      (ha.addNode e.1 chares e.2)
    refine ⟨a', ?_, ha'.congr fun c s n => ?_⟩
    · rw [addMask, hchares]
      exact haddMask
    · rw [or_assoc, List.exists_mem_cons_iff, ← hnames]
      apply or_congr_right
      constructor
      · rintro (⟨hc, hs, hne, rfl⟩ | ⟨hc, hne, he⟩)
        · exact ⟨hc, hne, .inl ⟨rfl, hs⟩⟩
        · exact ⟨hc, hne, .inr he⟩
      · rintro ⟨hc, hne, ⟨rfl, hs⟩ | he⟩
        · exact .inl ⟨hc, hs, hne, rfl⟩
        · exact .inr ⟨hc, hne, he⟩

theorem addMasks_eq_ok (pe : Nat) {l : List (Nat × Mask)}
    (hl : ∀ e ∈ l, ∀ n ∈ e.2.keys.elems, n ∈ h.nodes) (ha : a.Lists R) :
    ∃ a', addMasks h pe a l = .ok a' ∧ a'.Lists fun c s n =>
      R c s n ∨ h.Names n c ∧ s ≠ c ∧ ∃ e ∈ l, ∃ chares, e.2.get? n = some chares ∧ s ∈ chares := by
  induction l generalizing a R with
  | nil =>
    refine ⟨a, rfl, ha.congr fun c s n => ?_⟩
    simp
  | cons e l ih =>
    have he : ∀ x ∈ e.2.entries, x.1 ∈ h.nodes := fun x hx =>
      hl e (List.mem_cons_self ..) x.1 (List.mem_map_of_mem hx)
    obtain ⟨a₁, haddMask, ha₁⟩ := addMask_eq_ok pe e.1 he ha
    obtain ⟨a₂, haddMasks, ha₂⟩ := ih (fun e' he' => hl e' (List.mem_cons_of_mem e he')) ha₁
    refine ⟨a₂, ?_, ha₂.congr fun c s n => ?_⟩
    · rw [addMasks, haddMask]
      exact haddMasks
    · have hentries : (∃ x ∈ e.2.entries, x.1 = n ∧ s ∈ x.2) ↔
          ∃ chares, e.2.get? n = some chares ∧ s ∈ chares := by
        constructor
        · rintro ⟨x, hx, rfl, hs⟩
          exact ⟨x.2, NatMap.get?_eq_some_iff.2 hx, hs⟩
        · rintro ⟨chares, hchares, hs⟩
          exact ⟨(n, chares), NatMap.get?_eq_some_iff.1 hchares, rfl, hs⟩
      rw [or_assoc, hentries, List.exists_mem_cons_iff, ← and_or_left, ← and_or_left]

theorem mem_nodes_of_addMask {pe sender : Nat} {a' : Adjacency} {l : List (Nat × List Nat)}
    (hok : addMask h pe sender a l = .ok a') : ∀ e ∈ l, e.1 ∈ h.nodes := by
  induction l generalizing a with
  | nil => simp
  | cons e l ih =>
    rw [addMask] at hok
    split at hok
    · cases hok
    · next chares hchares =>
      exact List.forall_mem_cons.2 ⟨Holdings.mem_nodes.2 ⟨chares, hchares⟩, ih hok⟩

theorem mem_nodes_of_addMasks {pe : Nat} {a' : Adjacency} {l : List (Nat × Mask)}
    (hok : addMasks h pe a l = .ok a') : ∀ e ∈ l, ∀ n, n ∈ e.2.keys → n ∈ h.nodes := by
  induction l generalizing a with
  | nil => simp
  | cons e l ih =>
    rw [addMasks] at hok
    split at hok
    · cases hok
    · next a₁ hmask =>
      refine List.forall_mem_cons.2 ⟨fun n hn => ?_, ih hok⟩
      obtain ⟨x, hx, rfl⟩ := List.mem_map.1 hn
      exact mem_nodes_of_addMask hmask x hx

end Adjacency

theorem Sharing.of_ofMasks {pe : Nat} {masks : RollCall Mask} {h : Holdings} {sharing : Sharing}
    (hok : Sharing.ofMasks pe masks h = .ok sharing) :
    masks.isComplete = true ∧ sharing.claims = Claims.ofMasks pe masks.contributions ∧
      ∀ q mask, masks.heard.get? q = some mask → ∀ n, n ∈ mask.keys → n ∈ h.nodes := by
  unfold Sharing.ofMasks at hok
  split at hok
  · next hcomplete =>
    split at hok
    · cases hok
    · next adjacency hmasks =>
      obtain rfl := Except.ok.inj hok
      refine ⟨hcomplete, rfl, fun q mask hm => ?_⟩
      exact Adjacency.mem_nodes_of_addMasks hmasks _ (NatMap.get?_eq_some_iff.1 hm)
  · cases hok

end MeshNumbering
