import MeshNumbering.NodeLists
import MeshNumbering.Proofs.Ordered.Counting

/-! Node lists element by element. What a chare is given are the nodes of its elements, one element
after the other; putting lists together keeps that order. -/

namespace MeshNumbering.NodeLists
variable {chares chares' connectivity connectivity' : List Nat} {c n : Nat}

/-! What an assignment gives to each chare. -/

def element (connectivity : List Nat) (i : Nat) : List Nat := (connectivity.drop (4 * i)).take 4

def places (chares : List Nat) (c : Nat) : List Nat :=
  (List.range chares.length).filter fun i => chares[i]? = some c

def gather (chares connectivity : List Nat) (c : Nat) : List Nat :=
  (places chares c).flatMap (element connectivity)

theorem take_drop_eq_flatMap (connectivity : List Nat) (start count : Nat) :
    (connectivity.drop (4 * start)).take (4 * count) =
      (List.range' start count).flatMap (element connectivity) := by
  induction count generalizing start with
  | zero => rfl
  | succ count ih =>
    rw [List.range'_succ, List.flatMap_cons, ← ih, Nat.mul_succ 4 count, Nat.add_comm,
      List.take_add, List.drop_drop, Nat.mul_succ 4 start]
    rfl

theorem map_element_flatten {l : List (List Nat)} (h : ∀ nodes ∈ l, nodes.length = 4) :
    (List.range l.length).map (element l.flatten) = l := by
  induction l with
  | nil => rfl
  | cons nodes l ih =>
    rw [List.forall_mem_cons] at h
    have hfirst : element (nodes :: l).flatten 0 = nodes := by
      unfold element
      rw [List.flatten_cons]
      exact List.take_left' h.1
    have hrest : ∀ i, element (nodes :: l).flatten (i + 1) = element l.flatten i := by
      intro i
      unfold element
      rw [List.flatten_cons, Nat.mul_succ, Nat.add_comm, ← List.drop_drop, List.drop_left' h.1]
    rw [List.length_cons, List.range_succ_eq_map, List.map_cons, List.map_map, hfirst]
    conv_rhs => rw [← ih h.2]
    apply congrArg
    apply List.map_congr_left
    intro i _
    exact hrest i

@[simp] theorem mem_places {i : Nat} : i ∈ places chares c ↔ chares[i]? = some c := by
  unfold places
  rw [List.mem_filter, List.mem_range, decide_eq_true_eq]
  apply and_iff_right_of_imp
  intro h
  exact (List.getElem?_eq_some_iff.1 h).1

theorem places_append : places (chares ++ chares') c =
    places chares c ++ (places chares' c).map (chares.length + ·) := by
  unfold places
  rw [List.length_append, List.range_add, List.filter_append, List.filter_map]
  congr 1
  · apply List.filter_congr
    intro i hi
    rw [List.getElem?_append_left (List.mem_range.1 hi)]
  · apply congrArg
    apply List.filter_congr
    intro i _
    have hlater : (chares ++ chares')[chares.length + i]? = chares'[i]? := by
      rw [List.getElem?_append_right (Nat.le_add_right ..), Nat.add_sub_cancel_left]
    rw [Function.comp_apply, hlater]

theorem places_singleton {a : Nat} : places [a] c = if a = c then [0] else [] := by
  unfold places
  by_cases h : a = c <;> simp [h]

theorem flatMap_places_perm {k : Nat} (h : ∀ c ∈ chares, c < k) :
    ((List.range k).flatMap (places chares)).Perm (List.range chares.length) := by
  have hnodup : ((List.range k).flatMap (places chares)).Nodup := by
    rw [List.nodup_flatMap]
    constructor
    · intro c _
      exact List.nodup_range.filter _
    · apply List.nodup_range.imp
      intro c c' hne i hi hi'
      exact hne (Option.some.inj ((mem_places.1 hi).symm.trans (mem_places.1 hi')))
  apply (List.perm_ext_iff_of_nodup hnodup List.nodup_range).2
  intro i
  rw [List.mem_flatMap, List.mem_range]
  constructor
  · intro ⟨c, _, hi⟩
    exact (List.getElem?_eq_some_iff.1 (mem_places.1 hi)).1
  · intro hi
    have hmem : chares[i] ∈ chares := List.getElem_mem hi
    exact ⟨chares[i], List.mem_range.2 (h _ hmem), mem_places.2 (List.getElem?_eq_getElem hi)⟩

theorem gather_append (h : connectivity.length = 4 * chares.length) :
    gather (chares ++ chares') (connectivity ++ connectivity') c =
      gather chares connectivity c ++ gather chares' connectivity' c := by
  unfold gather
  rw [places_append, List.flatMap_append, List.flatMap_map]
  congr 1
  · apply List.flatMap_congr
    intro i hi
    obtain ⟨hlt, -⟩ := List.getElem?_eq_some_iff.1 (mem_places.1 hi)
    have hdrop : 4 * i ≤ connectivity.length := by omega
    have htake : 4 ≤ (connectivity.drop (4 * i)).length := by
      rw [List.length_drop]
      omega
    unfold element
    rw [List.drop_append_of_le_length hdrop, List.take_append_of_le_length htake]
  · apply List.flatMap_congr
    intro i _
    have hlater : 4 * (chares.length + i) = connectivity.length + 4 * i := by omega
    unfold element
    have hpast : connectivity.drop (connectivity.length + 4 * i) = [] :=
      List.drop_eq_nil_of_le (Nat.le_add_right ..)
    rw [hlater, List.drop_append, hpast, List.nil_append, Nat.add_sub_cancel_left]

theorem gather_cons {a x y z w : Nat} : gather (a :: chares) (x :: y :: z :: w :: connectivity) c =
    (if a = c then [x, y, z, w] else []) ++ gather chares connectivity c := by
  have hone : gather [a] [x, y, z, w] c = if a = c then [x, y, z, w] else [] := by
    unfold gather
    rw [places_singleton]
    split <;> rfl
  have happend : gather ([a] ++ chares) ([x, y, z, w] ++ connectivity) c =
      gather [a] [x, y, z, w] c ++ gather chares connectivity c := gather_append rfl
  rw [← hone]
  exact happend

theorem gather_flatMap {f g : Nat → List Nat} {l : List Nat}
    (h : ∀ p ∈ l, (g p).length = 4 * (f p).length) :
    gather (l.flatMap f) (l.flatMap g) c = l.flatMap fun p => gather (f p) (g p) c := by
  induction l with
  | nil => rfl
  | cons p l ih =>
    have hrest := ih fun p' hp' => h p' (List.mem_cons_of_mem p hp')
    rw [List.flatMap_cons, List.flatMap_cons, List.flatMap_cons,
      gather_append (h p (List.mem_cons_self ..)), hrest]

theorem gather_ne_nil (h : connectivity.length = 4 * chares.length) :
    gather chares connectivity c ≠ [] ↔ c ∈ chares := by
  unfold gather
  rw [Ne, List.flatMap_eq_nil_iff, List.mem_iff_getElem?]
  push Not
  simp only [mem_places]
  constructor
  · intro ⟨i, hi, _⟩
    exact ⟨i, hi⟩
  · intro ⟨i, hi⟩
    obtain ⟨hlt, -⟩ := List.getElem?_eq_some_iff.1 hi
    have hpos : 0 < (element connectivity i).length := by
      unfold element
      rw [List.length_take, List.length_drop]
      omega
    exact ⟨i, hi, List.ne_nil_of_length_pos hpos⟩

theorem mem_gather : n ∈ gather chares connectivity c ↔
    ∃ i, chares[i]? = some c ∧ n ∈ element connectivity i := by
  unfold gather
  simp only [List.mem_flatMap, mem_places]

/-! What a chare has in node lists. -/

def ofChare (m : NodeLists) (c : Nat) : List Nat := (m.get? c).getD []

theorem ofChare_eq {m : NodeLists} {l : List Nat} (h : m.get? c = some l) : m.ofChare c = l := by
  unfold ofChare
  rw [h]
  rfl

theorem mem_keys_of_ofChare_ne_nil {m : NodeLists} (h : m.ofChare c ≠ []) : c ∈ m.keys := by
  unfold ofChare at h
  rw [NatMap.mem_keys]
  cases hget : m.get? c with
  | none =>
    rw [hget] at h
    exact absurd rfl h
  | some l => exact ⟨l, rfl⟩

theorem get?_eq_some_iff_ofChare {m : NodeLists} {l : List Nat} :
    m.get? c = some l ↔ c ∈ m.keys ∧ l = m.ofChare c := by
  unfold ofChare
  rw [NatMap.mem_keys]
  cases m.get? c <;> simp [eq_comm]

theorem ofChare_extend {m : NodeLists} {c' : Nat} {nodes : List Nat} :
    (m.extend c' nodes).ofChare c = m.ofChare c ++ if c' = c then nodes else [] := by
  unfold ofChare extend
  rw [NatMap.get?_upsert]
  by_cases h : c = c'
  · subst h
    simp
  · rw [if_neg h, if_neg (Ne.symm h), List.append_nil]

theorem ofChare_collect {m : NodeLists} (h : 4 * chares.length ≤ connectivity.length) :
    (m.collect chares connectivity).ofChare c = m.ofChare c ++ gather chares connectivity c := by
  fun_induction collect m chares connectivity with
  | case1 m chare chares a b c' d connectivity ih =>
    have hrest : 4 * chares.length ≤ connectivity.length := by
      simp only [List.length_cons] at h
      omega
    rw [ih hrest, ofChare_extend, gather_cons, List.append_assoc]
  | case2 chares m connectivity hne =>
    -- The chares run out first, as every one of them has an element.
    have hchares : chares = [] := by
      rcases chares with _ | ⟨chare, chares⟩
      · rfl
      · obtain _ | ⟨a, _ | ⟨b, _ | ⟨c', _ | ⟨d, l⟩⟩⟩⟩ := connectivity
        all_goals simp only [List.length_cons, List.length_nil] at h
        all_goals first | omega | exact (hne _ _ _ _ _ _ _ rfl rfl).elim
    rw [hchares]
    exact (List.append_nil _).symm

theorem ofChare_filterKeys {m : NodeLists} {f : Nat → Bool} :
    ofChare (m.filterKeys f) c = if f c then m.ofChare c else [] := by
  unfold ofChare
  rw [NatMap.get?_filterKeys]
  split <;> rfl

theorem ofChare_foldl_extend {m : NodeLists} {l : List (Nat × List Nat)} :
    (l.foldl (fun m e => extend m e.1 e.2) m).ofChare c =
      m.ofChare c ++ l.flatMap fun e => if e.1 = c then e.2 else [] := by
  induction l generalizing m with
  | nil => simp
  | cons e l ih => rw [List.foldl_cons, ih, ofChare_extend, List.flatMap_cons, List.append_assoc]

theorem flatMap_entries (m : NodeLists) (c : Nat) :
    (m.entries.flatMap fun e => if e.1 = c then e.2 else []) = m.ofChare c := by
  have hfind : ∀ l : List (Nat × List Nat), (l.map Prod.fst).Pairwise (· < ·) →
      (l.flatMap fun e => if e.1 = c then e.2 else []) = (NatMap.findIn c l).getD [] := by
    intro l hl
    induction l with
    | nil => rfl
    | cons e l ih =>
      rw [List.map_cons, List.pairwise_cons] at hl
      rw [List.flatMap_cons, ih hl.2, NatMap.findIn]
      split
      · next h =>
        have hlater : NatMap.findIn c l = none :=
          NatMap.findIn_eq_none fun hm => Nat.lt_irrefl c (h ▸ hl.1 c hm)
        rw [hlater]
        exact List.append_nil _
      · rfl
  exact hfind m.entries m.ascending

theorem concat_eq (l : List NodeLists) :
    concat l = (l.flatMap NatMap.entries).foldl (fun m e => extend m e.1 e.2) ∅ := by
  unfold concat
  rw [List.foldl_flatMap]

theorem ofChare_concat {l : List NodeLists} :
    (concat l).ofChare c = l.flatMap fun m => m.ofChare c := by
  have hempty : ofChare ∅ c = [] := rfl
  rw [concat_eq, ofChare_foldl_extend, hempty, List.nil_append, List.flatMap_assoc]
  apply List.flatMap_congr
  intro m _
  exact flatMap_entries m c

theorem ofChare_concat_values {m : NatMap NodeLists} {bound : Nat}
    (h : ∀ k b, m.get? k = some b → k < bound) : (concat m.values).ofChare c =
      (List.range bound).flatMap fun k => ((m.get? k).getD ∅).ofChare c := by
  rw [ofChare_concat, NatMap.flatMap_values h]
  apply List.flatMap_congr
  intro k _
  cases m.get? k <;> rfl

/-! Which chares there are. -/

theorem keys_extend {m : NodeLists} {c' : Nat} {nodes : List Nat} :
    c ∈ (m.extend c' nodes).keys ↔ c ∈ m.keys ∨ c = c' := by
  simp only [NatMap.mem_keys, extend, NatMap.get?_upsert]
  by_cases hc : c = c' <;> simp [hc]

theorem keys_collect {m : NodeLists} (h : c ∈ (m.collect chares connectivity).keys) :
    c ∈ m.keys ∨ c ∈ chares := by
  fun_induction collect m chares connectivity with
  | case1 m chare chares a b c' d connectivity ih =>
    rcases ih h with h | h
    · rcases keys_extend.1 h with h | rfl
      · exact .inl h
      · exact .inr (List.mem_cons_self ..)
    · exact .inr (List.mem_cons_of_mem _ h)
  | case2 => exact .inl h

theorem keys_foldl_extend {m : NodeLists} {l : List (Nat × List Nat)} :
    c ∈ (l.foldl (fun m e => extend m e.1 e.2) m).keys ↔ c ∈ m.keys ∨ ∃ e ∈ l, e.1 = c := by
  induction l generalizing m with
  | nil => simp
  | cons e l ih =>
    rw [List.foldl_cons, ih, keys_extend, or_assoc, List.exists_mem_cons_iff, eq_comm]

theorem keys_concat {l : List NodeLists} : c ∈ (concat l).keys ↔ ∃ m ∈ l, c ∈ m.keys := by
  have hempty : ¬ c ∈ (∅ : NodeLists).keys := NatSet.not_mem_empty
  rw [concat_eq, keys_foldl_extend, or_iff_right hempty]
  constructor
  · rintro ⟨e, he, rfl⟩
    obtain ⟨m, hm, he⟩ := List.mem_flatMap.1 he
    exact ⟨m, hm, List.mem_map_of_mem he⟩
  · rintro ⟨m, hm, hc⟩
    obtain ⟨e, he, rfl⟩ := List.mem_map.1 hc
    exact ⟨e, List.mem_flatMap.2 ⟨m, hm, he⟩, rfl⟩

theorem ofChare_ofAssignment (h : 4 * chares.length ≤ connectivity.length) :
    (ofAssignment chares connectivity).ofChare c = gather chares connectivity c := by
  have hempty : ofChare ∅ c = [] := rfl
  unfold ofAssignment
  rw [ofChare_collect h, hempty, List.nil_append]

theorem values_ofAssignment_perm (h : connectivity.length = 4 * chares.length) :
    (ofAssignment chares connectivity).values.flatten.Perm connectivity := by
  have hbound : ∀ c ∈ chares, c < chares.max?.getD 0 + 1 := fun c hc =>
    Nat.lt_succ_of_le (List.le_max?_getD_of_mem hc)
  generalize chares.max?.getD 0 + 1 = k at hbound
  have hkeys : ∀ c l, (ofAssignment chares connectivity).get? c = some l → c < k := by
    intro c l hl
    rcases keys_collect (NatMap.mem_keys.2 ⟨l, hl⟩) with hc | hc
    · exact absurd hc NatSet.not_mem_empty
    · exact hbound c hc
  have hlists : (ofAssignment chares connectivity).values.flatten =
      (List.range k).flatMap fun c => gather chares connectivity c := by
    rw [← List.flatMap_id', NatMap.flatMap_values hkeys]
    apply List.flatMap_congr
    intro c _
    rw [Option.map_id', ← ofChare_ofAssignment (Nat.le_of_eq h.symm)]
    rfl
  have hwhole : (List.range chares.length).flatMap (element connectivity) = connectivity := by
    rw [List.range_eq_range', ← take_drop_eq_flatMap, ← h]
    exact List.take_length
  calc (ofAssignment chares connectivity).values.flatten
      = ((List.range k).flatMap (places chares)).flatMap (element connectivity) := by
        rw [hlists, List.flatMap_assoc]
        rfl
    List.Perm _ ((List.range chares.length).flatMap (element connectivity)) :=
        (flatMap_places_perm hbound).flatMap_right _
    _ = connectivity := hwhole

/-! Which chares refer to which nodes. -/

def Refers (m : NodeLists) (c n : Nat) : Prop := ∃ l, m.get? c = some l ∧ n ∈ l

theorem not_refers_empty : ¬ Refers ∅ c n := by
  rintro ⟨l, hl, -⟩
  simp at hl

theorem refers_iff_mem {m : NodeLists} : m.Refers c n ↔ n ∈ m.ofChare c := by
  unfold Refers ofChare
  cases m.get? c with
  | none => simp
  | some l => simp

theorem refers_iff_entries {m : NodeLists} :
    m.Refers c n ↔ ∃ e ∈ m.entries, e.1 = c ∧ n ∈ e.2 := by
  constructor
  · rintro ⟨l, hl, hn⟩
    exact ⟨(c, l), NatMap.get?_eq_some_iff.1 hl, rfl, hn⟩
  · rintro ⟨⟨c', l⟩, he, rfl, hn⟩
    exact ⟨l, NatMap.get?_eq_some_iff.2 he, hn⟩

def uses (m : NodeLists) : List (Nat × Nat) := m.entries.flatMap fun e => e.2.map fun n => (e.1, n)

theorem mem_uses {m : NodeLists} : (c, n) ∈ m.uses ↔ m.Refers c n := by
  unfold uses
  simp only [List.mem_flatMap, List.mem_map, Prod.mk.injEq, refers_iff_entries]
  constructor
  · intro ⟨e, he, _, hn, hc, heq⟩
    exact ⟨e, he, hc, heq ▸ hn⟩
  · intro ⟨e, he, hc, hn⟩
    exact ⟨e, he, n, hn, hc, rfl⟩

theorem refers_collect {m : NodeLists} (h : 4 * chares.length ≤ connectivity.length) :
    (m.collect chares connectivity).Refers c n ↔
      m.Refers c n ∨ ∃ i, chares[i]? = some c ∧ n ∈ element connectivity i := by
  rw [refers_iff_mem, ofChare_collect h, List.mem_append, mem_gather, refers_iff_mem]

theorem refers_concat {l : List NodeLists} : (concat l).Refers c n ↔ ∃ m ∈ l, m.Refers c n := by
  simp only [refers_iff_mem, ofChare_concat, List.mem_flatMap]

end MeshNumbering.NodeLists
