import MeshNumbering.Holdings
import MeshNumbering.Proofs.Layout
import MeshNumbering.Proofs.NodeLists

/-! What a processor holds: the nodes its chares refer to, each with these chares. Every chare it
owns must have some. -/

namespace MeshNumbering

theorem Shipment.foreign?_eq_none_iff {layout : Layout} {pe : Nat} {chares : NodeLists} :
    foreign? layout pe chares = none ↔ ∀ c, c ∈ chares.keys → layout.owns pe c = true := by
  simp [foreign?, List.find?_eq_none, NatSet.mem_def]

namespace Holdings

theorem index_eq (nodes : NodeLists) : index nodes =
    nodes.uses.foldl (fun m u => m.upsert u.2 fun old => addChare u.1 (old.getD [])) ∅ := by
  unfold index NodeLists.uses
  rw [List.foldl_flatMap]
  simp only [List.foldl_map]

theorem keys_foldl_upsert {α β : Type} {l : List α} {m : NatMap β} {key : α → Nat}
    {f : α → Option β → β} {n : Nat} :
    n ∈ (l.foldl (fun m a => m.upsert (key a) (f a)) m).keys ↔ n ∈ m.keys ∨ ∃ a ∈ l, key a = n := by
  induction l generalizing m with
  | nil => simp
  | cons a l ih =>
    have hone : n ∈ (m.upsert (key a) (f a)).keys ↔ n ∈ m.keys ∨ key a = n := by
      simp only [NatMap.mem_keys, NatMap.get?_upsert]
      by_cases hn : n = key a
      · simp [hn]
      · simp [hn, Ne.symm hn]
    rw [List.foldl_cons, ih, hone, or_assoc, List.exists_mem_cons_iff]

theorem mem_index {nodes : NodeLists} {n : Nat} :
    n ∈ (index nodes).keys ↔ ∃ c, nodes.Refers c n := by
  rw [index_eq, keys_foldl_upsert]
  simp only [← NodeLists.mem_uses]
  constructor
  · rintro (h | ⟨u, hu, rfl⟩)
    · exact absurd h NatSet.not_mem_empty
    · exact ⟨u.1, hu⟩
  · intro ⟨c, hc⟩
    exact .inr ⟨(c, n), hc, rfl⟩

def Names (h : Holdings) (n c : Nat) : Prop := ∃ cs, h.users? n = some cs ∧ c ∈ cs

theorem mem_addChare {chare c : Nat} {cs : List Nat} :
    c ∈ addChare chare cs ↔ c ∈ cs ∨ c = chare := by
  unfold addChare
  split
  · next hlast =>
    apply (or_iff_left_of_imp _).symm
    intro h
    exact h ▸ List.mem_of_getLast? hlast
  · rw [List.mem_append, List.mem_singleton]

theorem names_upsert {m : Mask} {chare n' n c : Nat} :
    Names ⟨m.upsert n' fun old => addChare chare (old.getD [])⟩ n c ↔
      Names ⟨m⟩ n c ∨ n = n' ∧ c = chare := by
  unfold Names users?
  rw [NatMap.get?_upsert]
  by_cases hn : n = n'
  · subst hn
    cases m.get? n with
    | none => simp [mem_addChare]
    | some cs => simp [mem_addChare]
  · simp [hn]

theorem names_index {nodes : NodeLists} {n c : Nat} :
    Names ⟨index nodes⟩ n c ↔ nodes.Refers c n := by
  have hfold : ∀ (l : List (Nat × Nat)) (m : Mask),
      Names ⟨l.foldl (fun m u => m.upsert u.2 fun old => addChare u.1 (old.getD [])) m⟩ n c ↔
        Names ⟨m⟩ n c ∨ (c, n) ∈ l := by
    intro l
    induction l with
    | nil => simp
    | cons u l ih =>
      intro m
      rw [List.foldl_cons, ih, names_upsert, or_assoc, List.mem_cons, and_comm, ← Prod.mk.injEq]
  have hempty : ¬ Names ⟨∅⟩ n c := by
    intro ⟨cs, hcs, _⟩
    cases hcs
  rw [index_eq, hfold, NodeLists.mem_uses]
  exact or_iff_right hempty

theorem get?_maskOf {h : Holdings} {queried : List Nat} {n : Nat} {cs : List Nat} :
    (h.maskOf queried).get? n = some cs ↔ n ∈ queried ∧ h.users? n = some cs := by
  have hfn : ∀ p ∈ queried.filterMap fun n => (h.users? n).map fun cs => (n, cs),
      p.2 = (h.users? p.1).getD [] := by
    intro p hp
    obtain ⟨n, -, hn⟩ := List.mem_filterMap.1 hp
    obtain ⟨cs, hcs, rfl⟩ := Option.map_eq_some_iff.1 hn
    simp [hcs]
  rw [maskOf, NatMap.get?_ofList_of_fn (f := fun n => (h.users? n).getD []) hfn, List.mem_map]
  constructor
  · rintro ⟨⟨⟨n', cs'⟩, hp, rfl⟩, rfl⟩
    obtain ⟨n, hq, hn⟩ := List.mem_filterMap.1 hp
    obtain ⟨cs, hcs, heq⟩ := Option.map_eq_some_iff.1 hn
    obtain ⟨rfl, rfl⟩ := Prod.mk.inj heq
    exact ⟨hq, by simp [hcs]⟩
  · rintro ⟨hq, hcs⟩
    exact ⟨⟨(n, cs), List.mem_filterMap.2 ⟨n, hq, by simp [hcs]⟩, rfl⟩, by simp [hcs]⟩

theorem mem_nodes {h : Holdings} {n : Nat} : n ∈ h.nodes ↔ ∃ cs, h.users? n = some cs :=
  NatMap.mem_keys

theorem mem_maskOf {h : Holdings} {queried : List Nat} {n : Nat} :
    n ∈ (h.maskOf queried).keys ↔ n ∈ queried ∧ n ∈ h.nodes := by
  rw [NatMap.mem_keys, mem_nodes]
  simp only [get?_maskOf, exists_and_left]

section
variable {next c : Nat} {l : List (Nat × List Nat)}

theorem le_firstIdle : next ≤ firstIdle next l := by
  induction l generalizing next with
  | nil => exact Nat.le_refl next
  | cons e l ih =>
    rw [firstIdle]
    split
    · exact Nat.le_of_succ_le ih
    · exact Nat.le_refl next

theorem exists_of_lt_firstIdle (hnext : next ≤ c) (h : c < firstIdle next l) :
    ∃ nodes, (c, nodes) ∈ l ∧ nodes ≠ [] := by
  induction l generalizing next with
  | nil => exact absurd h (Nat.not_lt_of_le hnext)
  | cons e l ih =>
    rw [firstIdle] at h
    split at h
    · next he =>
      rcases Nat.eq_or_lt_of_le hnext with rfl | hlater
      · exact ⟨e.2, he.1 ▸ List.mem_cons_self .., he.2⟩
      · obtain ⟨nodes, hmem, hne⟩ := ih hlater h
        exact ⟨nodes, List.mem_cons_of_mem e hmem, hne⟩
    · exact absurd h (Nat.not_lt_of_le hnext)

theorem eq_nil_of_firstIdle (hl : (l.map Prod.fst).Pairwise (· < ·))
    (hnext : ∀ e ∈ l, next ≤ e.1) {nodes : List Nat} (h : (firstIdle next l, nodes) ∈ l) :
    nodes = [] := by
  induction l generalizing next with
  | nil => cases h
  | cons e l ih =>
    rw [List.map_cons, List.pairwise_cons] at hl
    have hlater : ∀ e' ∈ l, e.1 < e'.1 := fun e' he' => hl.1 e'.1 (List.mem_map_of_mem he')
    rw [firstIdle] at h
    split at h
    · next he =>
      rcases List.mem_cons.1 h with heq | h
      · have hbeyond : next + 1 ≤ e.1 := congrArg Prod.fst heq ▸ le_firstIdle
        omega
      · exact ih hl.2 (fun e' he' => he.1 ▸ hlater e' he') h
    · next he =>
      rcases List.mem_cons.1 h with heq | h
      · by_contra hne
        exact he ⟨(congrArg Prod.fst heq).symm, congrArg Prod.snd heq ▸ hne⟩
      · have hfirst : next ≤ e.1 := hnext e (List.mem_cons_self ..)
        have hafter : e.1 < next := hlater _ h
        omega

end

section
variable {layout : Layout} {pe c : Nat} {nodes : NodeLists}

theorem ofChare_ne_nil_of_eq_ok {h : Holdings} (hof : of layout pe nodes = .ok h)
    (hc : c ∈ layout.owned pe) : nodes.ofChare c ≠ [] := by
  unfold of at hof
  split at hof
  · cases hof
  · dsimp only at hof
    split at hof
    · cases hof
    · next hidle =>
      have hlt : c < firstIdle (layout.owned pe).start nodes.entries :=
        Nat.lt_of_lt_of_le hc.2 (Nat.le_of_not_lt hidle)
      obtain ⟨l, hl, hne⟩ := exists_of_lt_firstIdle hc.1 hlt
      rw [NodeLists.ofChare_eq (NatMap.get?_eq_some_iff.2 hl)]
      exact hne

theorem keys_of_eq_ok {h : Holdings} (hof : of layout pe nodes = .ok h) :
    nodes.keys.elems = (layout.owned pe).elems := by
  have hkey : ∀ c, c ∈ layout.owned pe → c ∈ nodes.keys := fun c hc =>
    NodeLists.mem_keys_of_ofChare_ne_nil (ofChare_ne_nil_of_eq_ok hof hc)
  have howns : ∀ c, c ∈ nodes.keys → layout.owns pe c = true := by
    unfold of at hof
    split at hof
    · cases hof
    · next hnone => exact Shipment.foreign?_eq_none_iff.1 hnone
  -- Some chare is owned, and its owner is a processor of the layout.
  have hpe : pe < layout.npes := by
    have hfirst : (layout.owned pe).start ∈ layout.owned pe := by
      refine ⟨Nat.le_refl _, ?_⟩
      show pe * layout.share < if pe + 1 = layout.npes then layout.nchare else _
      split
      · next hlast =>
        have hshares : layout.npes * layout.share ≤ layout.nchare := Nat.mul_div_le ..
        rw [← hlast, Nat.succ_mul] at hshares
        exact Nat.lt_of_lt_of_le (Nat.lt_add_of_pos_right layout.share_pos) hshares
      · exact Nat.lt_add_of_pos_right layout.share_pos
    obtain ⟨-, howner⟩ := Layout.owns_iff.1 (howns _ (hkey _ hfirst))
    exact howner ▸ layout.owner_lt _
  refine NatSet.eq_of_ascending nodes.keys.ascending (Span.ascending_elems _) fun c => ?_
  rw [Span.mem_elems]
  exact ⟨fun hc => (Layout.mem_owned_iff hpe).2 (howns c hc), hkey c⟩

end

end Holdings
end MeshNumbering
