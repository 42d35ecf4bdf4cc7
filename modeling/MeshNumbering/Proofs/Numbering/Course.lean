import MeshNumbering.Proofs.Numbering

/-! A numbering over its whole course. Requests, answers and the giving out of the own ids may come
in any order and say anything; whatever is accepted, ids once known stay, and the numbering counts
as complete exactly when nothing is missing. -/

namespace MeshNumbering.Numbering

/-- What happens to a numbering: a request, the start of the own ids, or somebody's answer. -/
inductive Move where
  | ask (sender : Nat) (nodes : List Nat)
  | giveOut (base : Nat)
  | learn (sender : Nat) (ids : NatMap Nat)

def Move.base? : Move → Option Nat
  | .giveOut base => some base
  | _ => none

def move (r : Numbering) : Move → Option Numbering
  | .ask sender nodes =>
    match r.ask sender nodes with
    | .ok (_, r') => some r'
    | .error _ => none
  | .giveOut base =>
    match r.giveOut base with
    | (.ok _, r') => some r'
    | (.error _, _) => none
  | .learn sender ids =>
    match r.learn sender ids with
    | (none, r') => some r'
    | (some _, _) => none

def follow (r : Numbering) (moves : List Move) : Option Numbering := moves.foldlM move r

theorem follow_cons {r : Numbering} {m : Move} {moves : List Move} :
    r.follow (m :: moves) = (r.move m).bind fun r => r.follow moves := rfl

theorem follow_append {r : Numbering} {before after : List Move} :
    r.follow (before ++ after) = (r.follow before).bind fun r => r.follow after :=
  List.foldlM_append

def free (held : NatSet) (claims : Claims) : NatSet :=
  held.filter fun n => (claims.claimant? n).isNone

/-- A numbering of the nodes held, the own ones from `base?` on once that is known. -/
structure OnCourse (r : Numbering) (held : NatSet) (claims : Claims) (base? : Option Nat) :
    Prop where
  held_eq : r.held = held.size
  own_eq : r.own = free held claims
  claims_eq : r.claims = claims
  base_eq : r.base? = base?
  ids_held : ∀ n i, r.ids.get? n = some i → n ∈ held
  own_ids : ∀ k n, (free held claims).elems[k]? = some n →
    r.ids.get? n = base?.map fun base => base + k

def Keeps (r r' : Numbering) : Prop := ∀ n i, r.ids.get? n = some i → r'.ids.get? n = some i

section
variable {r r' : Numbering} {pe base sender n q : Nat} {held : NatSet} {claims : Claims}
  {base? : Option Nat} {nodes : List Nat} {ids : NatMap Nat} {m : Move} {moves : List Move}

theorem of_move_ask (h : r.move (.ask sender nodes) = some r') :
    ∃ queued, r' = { r with queued } := by
  rw [move] at h
  split at h
  · next he =>
    obtain rfl := Option.some.inj h
    exact (of_ask he).1
  · cases h

theorem of_move_giveOut (h : r.move (.giveOut base) = some r') :
    r' = { r with ids := number r.ids base r.own.elems, base? := some base, queued := [] } := by
  rw [move] at h
  split at h
  · next he =>
    obtain rfl := Option.some.inj h
    exact (Prod.mk.inj he).2.symm
  · cases h

theorem of_move_learn (h : r.move (.learn sender ids) = some r') :
    ∃ known, r' = { r with ids := known } ∧
      (∀ n i, known.get? n = some i →
        r.ids.get? n = some i ∨ r.claims.claimant? n = some sender ∧ ids.get? n = some i) ∧
      ∀ n i, r.ids.get? n = some i → known.get? n = some i := by
  rw [move] at h
  split at h
  · next he =>
    obtain rfl := Option.some.inj h
    obtain ⟨known, hr, hnew, hkept⟩ := of_absorb he
    exact ⟨known, hr, by simpa only [NatMap.get?_eq_some_iff] using hnew, hkept⟩
  · cases h

theorem get?_ids_of_move_learn (hm : r.move (.learn sender ids) = some r')
    (hn : r.claims.claimant? n = none) : r'.ids.get? n = r.ids.get? n := by
  obtain ⟨known, rfl, hnew, hkept⟩ := of_move_learn hm
  cases hr : r.ids.get? n with
  | some i => exact hkept n i hr
  | none =>
    refine Option.eq_none_iff_forall_ne_some.2 fun i hi => ?_
    rcases hnew n i hi with hi | ⟨hclaim, -⟩
    · rw [hr] at hi
      cases hi
    · rw [hn] at hclaim
      cases hclaim

theorem get?_number_getElem? {ids : NatMap Nat} {l : List Nat} (hl : l.Pairwise (· < ·)) {k : Nat}
    (hk : l[k]? = some n) : (number ids base l).get? n = some (base + k) := by
  induction l generalizing ids base k with
  | nil => cases hk
  | cons a l ih =>
    rw [List.pairwise_cons] at hl
    rw [number]
    cases k with
    | zero =>
      obtain rfl : a = n := Option.some.inj hk
      have hnot : a ∉ l := fun ha => Nat.lt_irrefl a (hl.1 a ha)
      rw [get?_number hl.2, if_neg hnot, NatMap.get?_insert, if_pos rfl, Nat.add_zero]
    | succ k => rw [ih hl.2 hk, Nat.add_right_comm, Nat.add_assoc]

theorem onCourse_start : (start pe held claims).OnCourse held claims none where
  held_eq := rfl
  own_eq := rfl
  claims_eq := rfl
  base_eq := rfl
  ids_held n i hi := by cases hi
  own_ids k n hn := rfl

theorem OnCourse.ask (h : r.OnCourse held claims base?)
    (hm : r.move (.ask sender nodes) = some r') : r'.OnCourse held claims base? ∧ r.Keeps r' := by
  obtain ⟨queued, rfl⟩ := of_move_ask hm
  exact ⟨{ h with }, fun n i hi => hi⟩

theorem OnCourse.giveOut (h : r.OnCourse held claims none)
    (hm : r.move (.giveOut base) = some r') :
    r'.OnCourse held claims (some base) ∧ r.Keeps r' := by
  -- The own nodes have no ids before they are given out, so nothing known is replaced.
  obtain rfl := of_move_giveOut hm
  have hids : ∀ n, (number r.ids base r.own.elems).get? n =
      if n ∈ r.own.elems then _ else r.ids.get? n := fun n => get?_number r.own.ascending
  refine ⟨{ h with base_eq := rfl, ids_held := fun n i hi => ?_, own_ids := fun k n hk => ?_ },
    fun n i hi => ?_⟩
  · rw [hids] at hi
    split at hi
    · next hown =>
      rw [h.own_eq] at hown
      exact (NatSet.mem_filter.1 hown).1
    · exact h.ids_held n i hi
  · rw [h.own_eq]
    exact get?_number_getElem? (free held claims).ascending hk
  · have hnot : n ∉ r.own.elems := by
      rw [h.own_eq]
      intro hn
      obtain ⟨k, hk⟩ := List.mem_iff_getElem?.1 hn
      rw [h.own_ids k n hk] at hi
      cases hi
    rw [hids, if_neg hnot]
    exact hi

theorem OnCourse.learn (h : r.OnCourse held claims base?) (hp : claims.Portions held)
    (hm : r.move (.learn sender ids) = some r') :
    r'.OnCourse held claims base? ∧ r.Keeps r' := by
  -- Nobody else numbers an own node, so an answer leaves those alone.
  have hsame := fun n => get?_ids_of_move_learn (n := n) hm
  rw [h.claims_eq] at hsame
  obtain ⟨known, rfl, hnew, hkept⟩ := of_move_learn hm
  rw [h.claims_eq] at hnew
  refine ⟨{ h with ids_held := fun n i hi => ?_, own_ids := fun k n hk => ?_ }, hkept⟩
  · rcases hnew n i hi with hi | ⟨hclaim, -⟩
    · exact h.ids_held n i hi
    · obtain ⟨s, hs, hn⟩ := hp.claimant?_eq_some.1 hclaim
      exact hp.held _ s hs n hn
  · have hn : n ∈ free held claims := List.mem_of_getElem? hk
    rw [← h.own_ids k n hk]
    exact hsame n (Option.isNone_iff_eq_none.1 (NatSet.mem_filter.1 hn).2)

theorem OnCourse.isComplete_iff (h : r.OnCourse held claims base?) :
    r.isComplete = true ↔ base?.isSome = true ∧ ∀ n, n ∈ held → ∃ i, r.ids.get? n = some i := by
  rw [isComplete, decide_eq_true_eq, isGivenOut, h.base_eq, h.held_eq,
    NatMap.size_eq_size_iff h.ids_held]

theorem OnCourse.of_move_ne (h : r.OnCourse held claims base?) (hm : r.move m = some r')
    (hq : claims.claimant? n = some q) (hne : r'.ids.get? n ≠ r.ids.get? n) :
    ∃ ids, m = .learn q ids ∧ r.ids.get? n = none ∧ r'.ids.get? n = ids.get? n := by
  cases m with
  | ask sender nodes =>
    obtain ⟨queued, rfl⟩ := of_move_ask hm
    exact absurd rfl hne
  | giveOut base =>
    obtain rfl := of_move_giveOut hm
    have hnot : n ∉ r.own.elems := by
      rw [h.own_eq]
      intro hn
      have hfree := (NatSet.mem_filter.1 hn).2
      rw [hq] at hfree
      cases hfree
    exact absurd (by rw [get?_number r.own.ascending, if_neg hnot]) hne
  | learn sender ids =>
    obtain ⟨known, rfl, hnew, hkept⟩ := of_move_learn hm
    rw [h.claims_eq] at hnew
    have hnone : r.ids.get? n = none :=
      Option.eq_none_iff_forall_ne_some.2 fun i hi => hne (by rw [hi]; exact hkept n i hi)
    rw [hnone] at hne
    obtain ⟨i, hi⟩ := Option.ne_none_iff_exists'.1 hne
    rcases hnew n i hi with hi' | ⟨hclaim, hi'⟩
    · rw [hnone] at hi'
      cases hi'
    · obtain rfl := Option.some.inj (hq.symm.trans hclaim)
      exact ⟨ids, rfl, hnone, hi.trans hi'.symm⟩

theorem OnCourse.follow (h : r.OnCourse held claims base?) (hp : claims.Portions held)
    (hr : r.follow moves = some r')
    (honce : (base?.toList ++ moves.filterMap Move.base?).length ≤ 1) :
    r'.OnCourse held claims (base?.toList ++ moves.filterMap Move.base?).head? ∧ r.Keeps r' := by
  induction moves generalizing r base? with
  | nil =>
    obtain rfl := Option.some.inj hr
    refine ⟨?_, fun n i hi => hi⟩
    rw [List.filterMap_nil, List.append_nil, Option.head?_toList]
    exact h
  | cons m moves ih =>
    obtain ⟨r₁, hm, hrest⟩ := Option.bind_eq_some_iff.1 (follow_cons.symm.trans hr)
    cases m with
    | ask sender nodes =>
      obtain ⟨h₁, hkeeps⟩ := h.ask hm
      obtain ⟨h₂, hkeeps'⟩ := ih h₁ hrest honce
      exact ⟨h₂, fun n i hi => hkeeps' n i (hkeeps n i hi)⟩
    | giveOut base =>
      cases base? with
      | none =>
        obtain ⟨h₁, hkeeps⟩ := h.giveOut hm
        obtain ⟨h₂, hkeeps'⟩ := ih h₁ hrest honce
        exact ⟨h₂, fun n i hi => hkeeps' n i (hkeeps n i hi)⟩
      | some b => simp [Move.base?] at honce
    | learn sender ids =>
      obtain ⟨h₁, hkeeps⟩ := h.learn hp hm
      obtain ⟨h₂, hkeeps'⟩ := ih h₁ hrest honce
      exact ⟨h₂, fun n i hi => hkeeps' n i (hkeeps n i hi)⟩

theorem mem_filterMap_base? : base ∈ moves.filterMap Move.base? ↔ .giveOut base ∈ moves := by
  rw [List.mem_filterMap]
  constructor
  · rintro ⟨m, hm, hbase⟩
    cases m with
    | giveOut b => exact Option.some.inj hbase ▸ hm
    | ask => cases hbase
    | learn => cases hbase
  · exact fun hm => ⟨_, hm, rfl⟩

theorem isSome_head?_filterMap : (moves.filterMap Move.base?).head?.isSome = true ↔
    ∃ base, .giveOut base ∈ moves := by
  rw [List.isSome_head?]
  constructor
  · intro hne
    obtain ⟨base, hbase⟩ := List.exists_mem_of_ne_nil _ hne
    exact ⟨base, mem_filterMap_base?.1 hbase⟩
  · rintro ⟨base, hbase⟩
    exact List.ne_nil_of_mem (mem_filterMap_base?.2 hbase)

theorem head?_filterMap (honce : (moves.filterMap Move.base?).length ≤ 1)
    (h : .giveOut base ∈ moves) : (moves.filterMap Move.base?).head? = some base := by
  have hbase := mem_filterMap_base?.2 h
  have hlength := Nat.le_antisymm honce (List.length_pos_of_mem hbase)
  obtain ⟨b, hb⟩ := List.length_eq_one_iff.1 hlength
  rw [hb] at hbase ⊢
  exact congrArg some (List.mem_singleton.1 hbase).symm

theorem mem_free (hp : claims.Portions held) : n ∈ free held claims ↔
    n ∈ held ∧ ∀ q nodes, claims.byPeer.get? q = some nodes → ¬ n ∈ nodes := by
  rw [free, NatSet.mem_filter, Option.isNone_iff_eq_none, Option.eq_none_iff_forall_ne_some]
  simp only [ne_eq, hp.claimant?_eq_some, not_exists, not_and]

end

structure Faithful (r : Numbering) (pe : Nat) (held : NatSet) (claims : Claims)
    (moves : List Move) : Prop where
  ids_held : ∀ n i, r.ids.get? n = some i → n ∈ held
  mem_free : ∀ n, n ∈ free held claims ↔
    n ∈ held ∧ ∀ q nodes, claims.byPeer.get? q = some nodes → ¬ n ∈ nodes
  own_ids : ∀ base, .giveOut base ∈ moves → ∀ k n, (free held claims).elems[k]? = some n →
    r.ids.get? n = some (base + k)
  isComplete_iff : r.isComplete = true ↔
    (∃ base, .giveOut base ∈ moves) ∧ ∀ n, n ∈ held → ∃ i, r.ids.get? n = some i
  -- From any time on nothing known is lost, and complete remains complete.
  keeps : ∀ before after s, moves = before ++ after →
    (start pe held claims).follow before = some s →
      s.Keeps r ∧ (s.isComplete = true → r.isComplete = true)
  -- At any time only `q` itself can set an id of a node it numbers.
  set_by : ∀ before m after s s', moves = before ++ m :: after →
    (start pe held claims).follow before = some s → s.move m = some s' →
      ∀ q nodes n, claims.byPeer.get? q = some nodes → n ∈ nodes →
        s'.ids.get? n ≠ s.ids.get? n →
          ∃ ids, m = .learn q ids ∧ s.ids.get? n = none ∧ s'.ids.get? n = ids.get? n

/-- Moves may come in any order and from anybody: as long as all are accepted, and the own ids are
given out at most once, no id is lost, overwritten or set by the wrong processor. -/
theorem follow_faithful {pe : Nat} {held : NatSet} {claims : Claims} {moves : List Move}
    {r : Numbering} (hp : claims.Portions held)
    (hr : (start pe held claims).follow moves = some r)
    (honce : (moves.filterMap Move.base?).length ≤ 1) : r.Faithful pe held claims moves := by
  have hcourse : ∀ {before after : List Move} {s : Numbering}, moves = before ++ after →
      (start pe held claims).follow before = some s →
        s.OnCourse held claims (before.filterMap Move.base?).head? := by
    intro before after s hmoves hs
    rw [hmoves, List.filterMap_append, List.length_append] at honce
    exact (onCourse_start.follow hp hs (Nat.le_of_add_right_le honce)).1
  have hend := hcourse (List.append_nil moves).symm hr
  refine
    { ids_held := hend.ids_held
      mem_free := fun n => mem_free hp
      own_ids := fun base hbase k n hk => ?_
      isComplete_iff := by rw [hend.isComplete_iff, isSome_head?_filterMap]
      keeps := fun before after s hmoves hs => ?_
      set_by := fun before m after s s' hmoves hs hm q nodes n hq hn hne => ?_ }
  · rw [hend.own_ids k n hk, head?_filterMap honce hbase]
    rfl
  · have hs' := hcourse hmoves hs
    have hrest : s.follow after = some r := by
      rw [hmoves, follow_append, hs] at hr
      exact hr
    have hkeeps : s.Keeps r := by
      refine (hs'.follow hp hrest (Nat.le_trans ?_ honce)).2
      rw [hmoves, List.filterMap_append, List.length_append, List.length_append, ← List.take_one]
      exact Nat.add_le_add_right (List.length_take_le' ..) _
    refine ⟨hkeeps, fun hc => ?_⟩
    obtain ⟨hgiven, hall⟩ := hs'.isComplete_iff.1 hc
    obtain ⟨base, hbase⟩ := isSome_head?_filterMap.1 hgiven
    refine hend.isComplete_iff.2 ⟨isSome_head?_filterMap.2 ⟨base, ?_⟩, fun n hn => ?_⟩
    · rw [hmoves]
      exact List.mem_append_left _ hbase
    · obtain ⟨i, hi⟩ := hall n hn
      exact ⟨i, hkeeps n i hi⟩
  · exact (hcourse hmoves hs).of_move_ne hm (hp.claimant?_eq_some.2 ⟨nodes, hq, hn⟩) hne

def interleaved : List Move := [.ask 3 [5], .learn 1 (.ofList [(7, 0)]), .giveOut 4,
  .learn 1 (.ofList [(7, 0)]), .ask 3 [9]]

theorem interleaved_faithful : ∃ r,
    (start 2 (.ofList [5, 7, 9]) ⟨.ofList [(1, .ofList [7])]⟩).follow interleaved = some r ∧
      r.ids.get? 5 = some 4 ∧ r.ids.get? 9 = some 5 ∧ r.isComplete = true := by
  have hone : ∀ q s, (NatMap.ofList [(1, NatSet.ofList [7])]).get? q = some s →
      q = 1 ∧ s = .ofList [7] := fun q s hq =>
    Prod.mk.inj (List.mem_singleton.1 (NatMap.get?_eq_some_iff.1 hq))
  have hp : Claims.Portions ⟨.ofList [(1, .ofList [7])]⟩ (.ofList [5, 7, 9]) := by
    refine ⟨fun q s hq n hn => ?_, fun p s q s' hp hq n _ _ => ?_⟩
    · obtain ⟨-, rfl⟩ := hone q s hq
      obtain rfl := List.mem_singleton.1 hn
      decide
    · exact (hone p s hp).1.trans (hone q s' hq).1.symm
  obtain ⟨r, hr⟩ : ∃ r, (start 2 (.ofList [5, 7, 9])
      ⟨.ofList [(1, .ofList [7])]⟩).follow interleaved = some r :=
    Option.isSome_iff_exists.1 (by decide)
  have h := follow_faithful hp hr (by decide)
  have hgiven : .giveOut 4 ∈ interleaved := by simp [interleaved]
  have h5 := h.own_ids 4 hgiven 0 5 (by decide)
  have h9 := h.own_ids 4 hgiven 1 9 (by decide)
  obtain ⟨s, hs, h7⟩ : ∃ s, (start 2 (.ofList [5, 7, 9]) ⟨.ofList [(1, .ofList [7])]⟩).follow
      (interleaved.take 2) = some s ∧ s.ids.get? 7 = some 0 := ⟨_, rfl, rfl⟩
  have hkept := (h.keeps (interleaved.take 2) (interleaved.drop 2) s rfl hs).1 7 0 h7
  refine ⟨r, hr, h5, h9, h.isComplete_iff.2 ⟨⟨4, hgiven⟩, fun n hn => ?_⟩⟩
  have hcases : n = 5 ∨ n = 7 ∨ n = 9 := by simpa using NatSet.mem_ofList.1 hn
  rcases hcases with rfl | rfl | rfl
  · exact ⟨4, h5⟩
  · exact ⟨0, hkept⟩
  · exact ⟨5, h9⟩

end MeshNumbering.Numbering
