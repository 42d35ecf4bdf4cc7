import MeshNumbering.Proofs.Numbering.Course

/-! Requests and their answers. A request that comes before the own nodes have ids waits until they
are given out, a later one is answered at once. Both ways lead to the same answer, and each accepted
request gets just one. -/

namespace MeshNumbering.Numbering

abbrev Reply := Except Fault (List (Nat × NatMap Nat))

def Reply.answers : Reply → List (Nat × NatMap Nat)
  | .ok answers => answers
  | .error _ => []

/-- The reply to a move, and the numbering after it. A refused request is passed over, while ids
that are not acceptable end the course. -/
def serve (r : Numbering) : Move → Option (Reply × Numbering)
  | .ask sender nodes =>
    match r.ask sender nodes with
    | .ok (answer?, r') => some (.ok (answer?.toList.map fun ids => (sender, ids)), r')
    | .error e => some (.error e, r)
  | .giveOut base => some (r.giveOut base)
  | .learn sender ids =>
    match r.learn sender ids with
    | (none, r') => some (.ok [], r')
    | (some _, _) => none

def serveAll (r : Numbering) : List Move → Option (List Reply × Numbering)
  | [] => some ([], r)
  | m :: moves =>
    (r.serve m).bind fun s => (s.2.serveAll moves).map fun t => (s.1 :: t.1, t.2)

/-! What the replies must be, whatever else the numbering knows. -/

def idsFrom (own : NatSet) (base : Nat) (nodes : List Nat) : NatMap Nat :=
  .ofList (nodes.map fun n => (n, base + own.elems.idxOf n))

def answer (own : NatSet) (base : Nat) (q : Nat × List Nat) : Nat × NatMap Nat :=
  (q.1, idsFrom own base q.2)

def stray? (own : NatSet) (nodes : List Nat) : Option Nat := nodes.find? fun n => !decide (n ∈ own)

def Move.request? (own : NatSet) : Move → Option (Nat × List Nat)
  | .ask sender nodes => if (stray? own nodes).isNone then some (sender, nodes) else none
  | _ => none

def Move.isRefused (own : NatSet) : Move → Bool
  | .ask _ nodes => (stray? own nodes).isSome
  | _ => false

def Move.reply (pe : Nat) (own : NatSet) (base? : Option Nat) : Move → Reply
  | .ask sender nodes =>
    match stray? own nodes with
    | some n => .error (.requestNotOwn pe sender n)
    | none => .ok (base?.toList.map fun base => answer own base (sender, nodes))
  | _ => .ok []

section
variable {r r' : Numbering} {pe base sender n : Nat} {held own : NatSet} {claims : Claims}
  {base? : Option Nat} {nodes : List Nat} {queued : List (Nat × List Nat)} {ids : NatMap Nat}
  {m : Move} {moves before after : List Move} {reply : Reply} {replies : List Reply}

theorem stray?_eq_none_iff : stray? own nodes = none ↔ ∀ n ∈ nodes, n ∈ own := by
  simp [stray?, List.find?_eq_none]

theorem get?_idsFrom : (idsFrom own base nodes).get? n =
    if n ∈ nodes then some (base + own.elems.idxOf n) else none := by
  have hmem : ∀ i, (idsFrom own base nodes).get? n = some i ↔
      n ∈ nodes ∧ i = base + own.elems.idxOf n := fun i => by
    rw [idsFrom, NatMap.get?_ofList_of_fn (f := fun n => base + own.elems.idxOf n), List.map_map]
    · simp [Function.comp_def]
    · simp
  split
  · next hn => exact (hmem _).2 ⟨hn, rfl⟩
  · next hn => exact Option.eq_none_iff_forall_ne_some.2 fun i hi => hn ((hmem i).1 hi).1

/-- What the replies depend on: the own nodes, their ids once they are given out, and the requests
that wait for these. -/
structure Serving (r : Numbering) (pe : Nat) (own : NatSet) (base? : Option Nat)
    (queued : List (Nat × List Nat)) : Prop where
  pe_eq : r.pe = pe
  own_eq : r.own = own
  base_eq : r.base? = base?
  queued_eq : r.queued = queued
  queued_own : ∀ q ∈ queued, stray? own q.2 = none
  unclaimed : ∀ n, n ∈ own → r.claims.claimant? n = none
  own_ids : ∀ base, base? = some base → ∀ n, n ∈ own →
    r.ids.get? n = some (base + own.elems.idxOf n)

theorem serving_start : (start pe held claims).Serving pe (free held claims) none [] where
  pe_eq := rfl
  own_eq := rfl
  base_eq := rfl
  queued_eq := rfl
  queued_own _ hq := by cases hq
  unclaimed _ hn := Option.isNone_iff_eq_none.1 (NatSet.mem_filter.1 hn).2
  own_ids _ hbase := by cases hbase

theorem Serving.find?_eq (h : r.Serving pe own base? queued) :
    (nodes.find? fun n => !r.own.elems.contains n) = stray? own nodes := by
  rw [h.own_eq, stray?]
  simp [NatSet.mem_def]

theorem Serving.isGivenOut_eq (h : r.Serving pe own base? queued) :
    r.isGivenOut = base?.isSome := by
  rw [isGivenOut, h.base_eq]

theorem Serving.lookUp_eq (h : r.Serving pe own (some base) queued)
    (hnodes : stray? own nodes = none) : r.lookUp sender nodes = .ok (idsFrom own base nodes) :=
  Numbering.lookUp_eq fun n hn => h.own_ids base rfl n (stray?_eq_none_iff.1 hnodes n hn)

theorem Serving.ask_stray (h : r.Serving pe own base? queued) (hstray : stray? own nodes = some n) :
    r.ask sender nodes = .error (.requestNotOwn pe sender n) := by
  rw [Numbering.ask, h.find?_eq, hstray, h.pe_eq]

theorem Serving.ask_early (h : r.Serving pe own none queued) (sender : Nat)
    (hstray : stray? own nodes = none) :
    ∃ r', r.ask sender nodes = .ok (none, r') ∧
      r'.Serving pe own none (queued ++ [(sender, nodes)]) := by
  refine ⟨{ r with queued := r.queued ++ [(sender, nodes)] }, ?_,
    { h with queued_eq := by rw [h.queued_eq], queued_own := fun q hq => ?_ }⟩
  · rw [Numbering.ask, h.find?_eq, hstray]
    simp [h.isGivenOut_eq]
  · rcases List.mem_append.1 hq with hq | hq
    · exact h.queued_own q hq
    · obtain rfl := List.mem_singleton.1 hq
      exact hstray

theorem Serving.ask_late (h : r.Serving pe own (some base) queued) (sender : Nat)
    (hstray : stray? own nodes = none) :
    r.ask sender nodes = .ok (some (idsFrom own base nodes), r) := by
  rw [Numbering.ask, h.find?_eq, hstray]
  simp [h.isGivenOut_eq, h.lookUp_eq hstray, Except.map]

def waiting (own : NatSet) (base? : Option Nat) (moves : List Move) : List (Nat × List Nat) :=
  if base?.isSome then [] else moves.filterMap (Move.request? own)

theorem Serving.serve_ask (h : r.Serving pe own base? queued)
    (hs : r.serve (.ask sender nodes) = some (reply, r')) :
    reply = (Move.ask sender nodes).reply pe own base? ∧
      r'.Serving pe own base? (queued ++ waiting own base? [.ask sender nodes]) ∧
      r.follow ([Move.ask sender nodes].filter fun m => !m.isRefused own) = some r' := by
  have hfollow : ∀ {answer? r₁}, r.ask sender nodes = .ok (answer?, r₁) →
      r.follow [.ask sender nodes] = some r₁ := by
    intro answer? r₁ hask
    rw [follow_cons, move, hask]
    rfl
  cases hstray : stray? own nodes with
  | some n =>
    rw [serve, h.ask_stray hstray] at hs
    obtain ⟨rfl, rfl⟩ := Prod.mk.inj (Option.some.inj hs)
    refine ⟨?_, ?_, ?_⟩
    · simp [Move.reply, hstray]
    · simpa [waiting, Move.request?, hstray] using h
    · simp [Move.isRefused, hstray, Numbering.follow]
  | none =>
    cases base? with
    | none =>
      obtain ⟨r₁, hask, h₁⟩ := h.ask_early sender hstray
      rw [serve, hask] at hs
      obtain ⟨rfl, rfl⟩ := Prod.mk.inj (Option.some.inj hs)
      refine ⟨?_, ?_, ?_⟩
      · simp [Move.reply, hstray]
      · simpa [waiting, Move.request?, hstray] using h₁
      · simpa [Move.isRefused, hstray] using hfollow hask
    | some base =>
      have hask := h.ask_late sender hstray
      rw [serve, hask] at hs
      obtain ⟨rfl, rfl⟩ := Prod.mk.inj (Option.some.inj hs)
      refine ⟨?_, ?_, ?_⟩
      · simp [Move.reply, hstray, answer]
      · simpa [waiting] using h
      · simpa [Move.isRefused, hstray] using hfollow hask

theorem Serving.serve_learn (h : r.Serving pe own base? queued)
    (hs : r.serve (.learn sender ids) = some (reply, r')) :
    reply = .ok [] ∧ r'.Serving pe own base? queued ∧
      r.follow [.learn sender ids] = some r' := by
  have hm : r.move (.learn sender ids) = some r' ∧ reply = .ok [] := by
    rw [serve] at hs
    split at hs
    · next hlearn =>
      obtain ⟨rfl, rfl⟩ := Prod.mk.inj (Option.some.inj hs)
      exact ⟨by rw [move, hlearn], rfl⟩
    · cases hs
  have hids := fun n => get?_ids_of_move_learn (n := n) hm.1
  obtain ⟨known, rfl, -, -⟩ := of_move_learn hm.1
  refine ⟨hm.2, { h with own_ids := fun base hbase n hn => ?_ }, ?_⟩
  · rw [← h.own_ids base hbase n hn]
    exact hids n (h.unclaimed n hn)
  · rw [follow_cons, hm.1]
    rfl

theorem Serving.serve_giveOut (h : r.Serving pe own none queued)
    (hs : r.serve (.giveOut base) = some (reply, r')) :
    reply = .ok (queued.map (answer own base)) ∧ r'.Serving pe own (some base) [] ∧
      r.follow [.giveOut base] = some r' := by
  have hnumbered : Serving { r with
      ids := number r.ids base r.own.elems, base? := some base, queued := [] }
      pe own (some base) [] := by
    refine { h with base_eq := rfl, queued_eq := rfl, queued_own := fun q hq => (by cases hq)
                    own_ids := fun b hb n hn => ?_ }
    obtain rfl := Option.some.inj hb
    rw [h.own_eq]
    exact get?_number_getElem? own.ascending (List.getElem?_idxOf hn)
  have hanswers : (r.giveOut base).1 = .ok (queued.map (answer own base)) := by
    rw [← h.queued_eq]
    apply mapM_eq_ok_of_forall
    intro q hq
    rw [h.queued_eq] at hq
    rw [hnumbered.lookUp_eq (h.queued_own q hq)]
    rfl
  obtain ⟨hreply, rfl⟩ := Prod.mk.inj (Option.some.inj hs)
  refine ⟨hreply.symm.trans hanswers, hnumbered, ?_⟩
  have hgiven : r.giveOut base = (.ok (queued.map (answer own base)), (r.giveOut base).2) :=
    Prod.ext hanswers rfl
  rw [follow_cons, move, hgiven]
  rfl

theorem waiting_cons : waiting own base? (m :: moves) =
    waiting own base? [m] ++ waiting own base? moves := by
  unfold waiting
  split
  · rfl
  · exact List.filterMap_append (l := [m])

theorem serveAll_cons (hs : r.serveAll (m :: moves) = some (replies, r')) :
    ∃ reply r₁ rest, r.serve m = some (reply, r₁) ∧ r₁.serveAll moves = some (rest, r') ∧
      replies = reply :: rest := by
  obtain ⟨⟨reply, r₁⟩, hm, hs⟩ := Option.bind_eq_some_iff.1 hs
  obtain ⟨⟨rest, r₂⟩, hrest, hs⟩ := Option.map_eq_some_iff.1 hs
  obtain ⟨rfl, rfl⟩ := Prod.mk.inj hs
  exact ⟨reply, r₁, rest, hm, hrest, rfl⟩

theorem serveAll_append (hs : r.serveAll (before ++ after) = some (replies, r')) :
    ∃ early r₁ late, r.serveAll before = some (early, r₁) ∧ r₁.serveAll after = some (late, r') ∧
      replies = early ++ late := by
  induction before generalizing r replies with
  | nil => exact ⟨[], r, replies, rfl, hs, rfl⟩
  | cons m before ih =>
    obtain ⟨reply, r₁, rest, hm, hrest, rfl⟩ := serveAll_cons hs
    obtain ⟨early, r₂, late, hearly, hlate, rfl⟩ := ih hrest
    refine ⟨reply :: early, r₂, late, ?_, hlate, rfl⟩
    rw [serveAll, hm, Option.bind_some, hearly]
    rfl

theorem Serving.serveAll (h : r.Serving pe own base? queued) (hmoves : ∀ b, .giveOut b ∉ moves)
    (hs : r.serveAll moves = some (replies, r')) :
    replies = moves.map (Move.reply pe own base?) ∧
      r'.Serving pe own base? (queued ++ waiting own base? moves) ∧
      r.follow (moves.filter fun m => !m.isRefused own) = some r' := by
  induction moves generalizing r queued replies with
  | nil =>
    obtain ⟨rfl, rfl⟩ := Prod.mk.inj (Option.some.inj hs)
    refine ⟨rfl, ?_, rfl⟩
    simpa [waiting] using h
  | cons m moves ih =>
    obtain ⟨reply, r₁, rest, hm, hrest, rfl⟩ := serveAll_cons hs
    have hlater : ∀ b, .giveOut b ∉ moves := fun b hb => hmoves b (List.mem_cons_of_mem m hb)
    have hstep : reply = m.reply pe own base? ∧
        r₁.Serving pe own base? (queued ++ waiting own base? [m]) ∧
        r.follow ([m].filter fun m => !m.isRefused own) = some r₁ := by
      cases m with
      | ask sender nodes => exact h.serve_ask hm
      | giveOut b => exact absurd (List.mem_cons_self ..) (hmoves b)
      | learn sender ids =>
        obtain ⟨hreply, h₁, hfollow⟩ := h.serve_learn hm
        have hnone : waiting own base? [.learn sender ids] = [] := by
          unfold waiting
          split <;> rfl
        rw [hnone, List.append_nil]
        exact ⟨hreply, h₁, hfollow⟩
    obtain ⟨hreply, h₁, hfollow⟩ := hstep
    obtain ⟨hreplies, h₂, hfollow'⟩ := ih h₁ hlater hrest
    refine ⟨by rw [hreply, hreplies, List.map_cons], ?_, ?_⟩
    · rw [waiting_cons, ← List.append_assoc]
      exact h₂
    · rw [← List.singleton_append, List.filter_append, follow_append, hfollow]
      exact hfollow'

theorem replies_eq (hbefore : ∀ b, .giveOut b ∉ before) (hafter : ∀ b, .giveOut b ∉ after)
    (hs : (start pe held claims).serveAll (before ++ .giveOut base :: after) = some (replies, r)) :
    replies = before.map (Move.reply pe (free held claims) none) ++
        .ok ((before.filterMap (Move.request? (free held claims))).map
          (answer (free held claims) base)) ::
        after.map (Move.reply pe (free held claims) (some base)) ∧
      r.Serving pe (free held claims) (some base) [] ∧
      (start pe held claims).follow ((before ++ .giveOut base :: after).filter fun m =>
        !m.isRefused (free held claims)) = some r := by
  obtain ⟨early, r₁, rest, hearly, hrest, rfl⟩ := serveAll_append hs
  obtain ⟨given, r₂, late, hgiven, hlate, rfl⟩ := serveAll_cons hrest
  obtain ⟨rfl, h₁, hfollow₁⟩ := serving_start.serveAll hbefore hearly
  obtain ⟨rfl, h₂, hfollow₂⟩ := h₁.serve_giveOut hgiven
  obtain ⟨rfl, h₃, hfollow₃⟩ := h₂.serveAll hafter hlate
  refine ⟨rfl, h₃, ?_⟩
  rw [List.filter_append, follow_append, hfollow₁, Option.bind_some,
    List.filter_cons_of_pos rfl, ← List.singleton_append, follow_append, hfollow₂]
  exact hfollow₃

theorem reply_ask_eq_error_iff {e : Fault} :
    (Move.ask sender nodes).reply pe own base? = .error e ↔
      ∃ n, stray? own nodes = some n ∧ e = .requestNotOwn pe sender n := by
  rw [Move.reply]
  cases stray? own nodes with
  | some n => simp [eq_comm]
  | none => simp

theorem reply_ask_of_own (hnodes : ∀ n ∈ nodes, n ∈ own) :
    (Move.ask sender nodes).reply pe own base? =
      .ok (base?.toList.map fun base => answer own base (sender, nodes)) := by
  rw [Move.reply, stray?_eq_none_iff.2 hnodes]

theorem exists_stray?_iff : (∃ n, stray? own nodes = some n) ↔ ∃ n ∈ nodes, ¬ n ∈ own := by
  rw [← Option.isSome_iff_exists, stray?, List.find?_isSome]
  simp

theorem getElem?_replies {given : Reply} {i : Nat}
    (hreplies : replies = before.map (Move.reply pe own none) ++
      given :: after.map (Move.reply pe own (some base)))
    (hi : (before ++ .giveOut base :: after)[i]? = some (Move.ask sender nodes)) :
    ∃ base?, replies[i]? = some ((Move.ask sender nodes).reply pe own base?) := by
  have hlength : (before.map (Move.reply pe own none)).length = before.length :=
    List.length_map ..
  rw [hreplies]
  rcases Nat.lt_or_ge i before.length with hlt | hge
  · rw [List.getElem?_append_left hlt] at hi
    exact ⟨none, by rw [List.getElem?_append_left (hlength ▸ hlt), List.getElem?_map, hi]; rfl⟩
  · rw [List.getElem?_append_right hge] at hi
    rw [List.getElem?_append_right (hlength ▸ hge), hlength]
    cases hj : i - before.length with
    | zero =>
      rw [hj] at hi
      cases hi
    | succ j =>
      rw [hj, List.getElem?_cons_succ] at hi
      exact ⟨some base, by rw [List.getElem?_cons_succ, List.getElem?_map, hi]; rfl⟩

theorem flatMap_answers_reply : (moves.map (Move.reply pe own (some base))).flatMap Reply.answers =
    (moves.filterMap (Move.request? own)).map (answer own base) := by
  induction moves with
  | nil => rfl
  | cons m moves ih =>
    rw [List.map_cons, List.flatMap_cons, ih, List.filterMap_cons]
    cases m with
    | ask sender nodes =>
      rw [Move.reply, Move.request?]
      cases stray? own nodes <;> rfl
    | giveOut b => rfl
    | learn sender ids => rfl

theorem flatMap_answers_reply_none :
    (moves.map (Move.reply pe own none)).flatMap Reply.answers = [] := by
  rw [List.flatMap_map, List.flatMap_eq_nil_iff]
  intro m _
  cases m with
  | ask sender nodes =>
    rw [Move.reply]
    cases stray? own nodes <;> rfl
  | giveOut b => rfl
  | learn sender ids => rfl

end

/-- The replies to some moves, the giving out of the own ids from `base` on, and more moves. -/
structure Serves (r : Numbering) (pe : Nat) (held : NatSet) (claims : Claims) (base : Nat)
    (before after : List Move) (replies : List Reply) : Prop where
  length_eq : replies.length = (before ++ .giveOut base :: after).length
  refused_iff : ∀ (i sender : Nat) (nodes : List Nat),
    (before ++ .giveOut base :: after)[i]? = some (Move.ask sender nodes) →
      ((∃ e, replies[i]? = some (Except.error e)) ↔ ∃ n ∈ nodes, ¬ n ∈ free held claims)
  refused_with : ∀ (i sender : Nat) (nodes : List Nat) (e : Fault),
    (before ++ .giveOut base :: after)[i]? = some (Move.ask sender nodes) →
      replies[i]? = some (Except.error e) →
        ∃ n, stray? (free held claims) nodes = some n ∧ e = .requestNotOwn pe sender n
  -- The numbering is the same as if what is refused had never been asked.
  untraced : (start pe held claims).follow ((before ++ .giveOut base :: after).filter fun m =>
    !m.isRefused (free held claims)) = some r
  waits : ∀ (i sender : Nat) (nodes : List Nat), before[i]? = some (Move.ask sender nodes) →
    (∀ n ∈ nodes, n ∈ free held claims) → replies[i]? = some (Except.ok [])
  given_out : replies[before.length]? = some (Except.ok
    ((before.filterMap (Move.request? (free held claims))).map (answer (free held claims) base)))
  at_once : ∀ (i sender : Nat) (nodes : List Nat), after[i]? = some (Move.ask sender nodes) →
    (∀ n ∈ nodes, n ∈ free held claims) → replies[before.length + 1 + i]? =
      some (Except.ok [answer (free held claims) base (sender, nodes)])
  answered_once : replies.flatMap Reply.answers =
    ((before ++ after).filterMap (Move.request? (free held claims))).map
      (answer (free held claims) base)
  answer_eq : ∀ sender nodes, (∀ n ∈ nodes, n ∈ free held claims) → ∀ n,
    (answer (free held claims) base (sender, nodes)).2.get? n =
      if n ∈ nodes then r.ids.get? n else none
  own_ids : ∀ k n, (free held claims).elems[k]? = some n → r.ids.get? n = some (base + k)

/-- Whoever asks, and whenever: a request for other nodes is refused, and any other gets the ids of
the nodes it names once, as soon as they are given out. -/
theorem serveAll_serves {pe base : Nat} {held : NatSet} {claims : Claims} {before after : List Move}
    {replies : List Reply} {r : Numbering} (hbefore : ∀ b, .giveOut b ∉ before)
    (hafter : ∀ b, .giveOut b ∉ after)
    (hs : (start pe held claims).serveAll (before ++ .giveOut base :: after) = some (replies, r)) :
    r.Serves pe held claims base before after replies := by
  obtain ⟨hreplies, hserving, hfollow⟩ := replies_eq hbefore hafter hs
  have hids : ∀ n, n ∈ free held claims →
      r.ids.get? n = some (base + (free held claims).elems.idxOf n) := hserving.own_ids base rfl
  refine
    { length_eq := by simp [hreplies]
      refused_iff := fun i sender nodes hi => ?_
      refused_with := fun i sender nodes e hi he => ?_
      untraced := hfollow
      waits := fun i sender nodes hi hnodes => ?_
      given_out := by simp [hreplies]
      at_once := fun i sender nodes hi hnodes => ?_
      answered_once := ?_
      answer_eq := fun sender nodes hnodes n => ?_
      own_ids := fun k n hk => ?_ }
  · obtain ⟨base?, hreply⟩ := getElem?_replies hreplies hi
    simp only [hreply, Option.some.injEq, reply_ask_eq_error_iff]
    rw [← exists_stray?_iff]
    exact ⟨fun ⟨_, n, hn, _⟩ => ⟨n, hn⟩, fun ⟨n, hn⟩ => ⟨_, n, hn, rfl⟩⟩
  · obtain ⟨base?, hreply⟩ := getElem?_replies hreplies hi
    exact reply_ask_eq_error_iff.1 (Option.some.inj (hreply.symm.trans he))
  · have hlt := (List.getElem?_eq_some_iff.1 hi).1
    rw [hreplies, List.getElem?_append_left (by simpa using hlt), List.getElem?_map, hi,
      Option.map_some, reply_ask_of_own hnodes]
    rfl
  · rw [hreplies, List.getElem?_append_right (by simp; omega), List.length_map, Nat.add_assoc,
      Nat.add_sub_cancel_left, Nat.add_comm 1, List.getElem?_cons_succ, List.getElem?_map, hi,
      Option.map_some, reply_ask_of_own hnodes]
    rfl
  · rw [hreplies, List.flatMap_append, List.flatMap_cons, flatMap_answers_reply_none,
      flatMap_answers_reply, List.filterMap_append, List.map_append]
    rfl
  · rw [answer, get?_idsFrom]
    split
    · next hn => rw [hids n (hnodes n hn)]
    · rfl
  · obtain ⟨hlt, rfl⟩ := List.getElem?_eq_some_iff.1 hk
    rw [hids _ (List.getElem_mem hlt), List.Nodup.idxOf_getElem (NatSet.nodup_elems _)]

def earlyMoves : List Move :=
  [.ask 3 [8, 8], .ask 5 [4, 9], .learn 1 (.ofList [(9, 2)]), .ask 5 [15, 4]]

def lateMoves : List Move := [.ask 5 [8], .ask 3 [8, 8]]

theorem early_and_late_served : ∃ replies r,
    (start 2 (.ofList [4, 8, 9, 15]) ⟨.ofList [(1, .ofList [9])]⟩).serveAll
      (earlyMoves ++ .giveOut 100 :: lateMoves) = some (replies, r) ∧
      (∃ e, replies[1]? = some (Except.error e)) ∧
      replies[4]? = some (Except.ok
        [(3, .ofList [(8, 101)]), (5, .ofList [(4, 100), (15, 102)])]) ∧
      replies[6]? = some (Except.ok [(3, .ofList [(8, 101)])]) ∧ r.ids.get? 15 = some 102 := by
  obtain ⟨⟨replies, r⟩, hs⟩ : ∃ s, (start 2 (.ofList [4, 8, 9, 15])
      ⟨.ofList [(1, .ofList [9])]⟩).serveAll (earlyMoves ++ .giveOut 100 :: lateMoves) = some s :=
    Option.isSome_iff_exists.1 (by decide)
  have h := serveAll_serves (by simp [earlyMoves]) (by simp [lateMoves]) hs
  refine ⟨replies, r, hs, (h.refused_iff 1 5 [4, 9] rfl).2 ⟨9, by decide, by decide⟩, ?_, ?_, ?_⟩
  · exact h.given_out.trans (by decide)
  · exact (h.at_once 1 3 [8, 8] rfl (by decide)).trans (by decide)
  · exact h.own_ids 2 15 (by decide)

end MeshNumbering.Numbering
