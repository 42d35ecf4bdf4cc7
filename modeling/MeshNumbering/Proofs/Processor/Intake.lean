import MeshNumbering.Proofs.Processor.Barriers

/-! Acting on messages keeps a processor in order, whatever is in them. A message is either taken
in, and then what it changes has its cause in the message, or kept for later, or it ends the run. -/

namespace MeshNumbering

theorem MessageKind.saidOnce_eq_false {k : MessageKind} (hk : k.answers?.isSome = true) :
    k.saidOnce = false := by
  cases k <;> first | rfl | cases hk

/-- Carried out after the events `h`, a script takes in the message `m` and does nothing out of
order. -/
abbrev Script.TakesIn (x : Script State) (m : Message) (seat : Seat) (h : List Event) : Prop :=
  x.Leads h (fun s h' => s.Tracks seat (h' ++ [.accepted m])) fun _ => Orderly seat.pe seat.npes

namespace State.Tracks
open History Script
variable {s s' : State} {seat : Seat} {h h' : List Event} {m : Message} {r r' : Numbering}

theorem follow (ht : s.Tracks seat h) (hs : Steady h h')
    (hl : Log seat.pe seat.npes s.mark s.phase h') : s.Tracks seat h' :=
  ht.move hs.toGrows hl (ht.stage.steady hs)

theorem answer (ht : s.Tracks seat h) {q : Nat} (hle : m.kind.saidFrom ≤ s.mark)
    (hm : m.kind.answers?.isSome = true) : s.Tracks seat (h ++ [.sent q m]) := by
  refine ht.follow (extends_send.steady (fun x hx => ?_) (by simp)) (ht.log.send hle fun ho => ?_)
  · obtain rfl := List.mem_singleton.1 hx
    refine ⟨fun hk => ?_, fun hk => ?_⟩
    all_goals
      rw [show m.kind = _ from hk] at hm
      cases hm
  · rw [MessageKind.saidOnce_eq_false hm] at ho
    cases ho

theorem counting {α β : Type} {c : RollCall α} {a : α} {x : Except Fault β}
    {update : RollCall α → β} {make : β → State} {me : Nat} (ht : s.Tracks seat h)
    (hq : m.sender < seat.npes) (hm : m.kind ≠ .mask)
    (hx : x = (c.record me m.sender a).map update)
    (hmake : ∀ b, (make b).seat = s.seat ∧ (make b).stage = s.stage ∧
      (make b).backlog = s.backlog)
    (hother : ∀ c', ∀ k ≠ m.kind, ∀ P, s.Counts seat.npes P k →
      (make (update c')).Counts seat.npes P k)
    (hsame : ∀ c' P, (c.Tallies seat.npes P → c'.Tallies seat.npes P) →
      s.Counts seat.npes P m.kind → (make (update c')).Counts seat.npes P m.kind) :
    (do let b ← x; return make b : Script State).TakesIn m seat h := by
  subst hx
  refine leads_update.2 ⟨fun b hb => ?_, fun _ _ => ht.log.orderly⟩
  obtain ⟨c', hc', rfl⟩ := map_eq_ok hb
  obtain ⟨hseat, hstage, hback⟩ := hmake (update c')
  exact ht.count hm hseat hstage hback (hother c') fun P hP hp =>
    hsame c' P (fun hc => hc.record hc' hq hp) hP

theorem renumber (ht : s.Tracks seat h) (hr : s.stage.numbering? = some r) (hg : Grows h h')
    (hl : Log seat.pe seat.npes s.mark s.phase h') (hr' : r'.Tracks seat.pe seat.npes h')
    (hfills : r.Fills h → r'.Fills h') (hgiven : r'.isGivenOut = r.isGivenOut) :
    State.Tracks { s with stage := s.stage.withNumbering r' } seat h' := by
  refine ht.move hg ?_ (ht.stage.withNumbering hr hr' hfills)
  rwa [Stage.mark_withNumbering hr hgiven, Stage.phase_withNumbering]

theorem react_batch (ht : s.Tracks seat h) {x : Shipping} (hst : s.stage = .shipping x) {q : Nat}
    {chares : NodeLists} : (do
      let shipment ← x.shipment.unpack q chares
      send q (.receipt s.pe)
      return { s with stage := .shipping { x with shipment } } : Script State).TakesIn
      (.batch q chares) seat h := by
  refine leads_bind.2 (leads_lift.2 ⟨fun shipment hok => ?_, fun _ _ => ht.log.orderly⟩)
  refine leads_bind.2 (leads_send.2 ⟨fun _ => leads_pure.2 ?_, fun _ _ => ht.log.orderly⟩)
  have ht₁ := ht.answer (q := q) (m := .receipt s.pe) (Nat.zero_le _) rfl
  have hs := (extends_accept (h := h ++ [.sent q (.receipt s.pe)]) (m := .batch q chares)).steady
    (by simp) (by simp [Message.kind])
  refine ht₁.move hs.toGrows ((ht₁.log_at hst rfl).accept fun hk => by cases hk) fun q' hq' => ?_
  obtain ⟨-, -, -, rfl⟩ := Shipment.unpack_eq_ok_iff.1 hok
  exact ((ht₁.of_stage hst).steady hs) q' hq'

theorem react_receipt (ht : s.Tracks seat h) {x : Shipping} (hst : s.stage = .shipping x)
    {q : Nat} : (do
      let shipment ← x.shipment.book q
      return { s with stage := .shipping { x with shipment } } : Script State).TakesIn
      (.receipt q) seat h := by
  refine leads_update.2 ⟨fun shipment hok => ?_, fun _ _ => ht.log.orderly⟩
  have hs := (extends_accept (h := h) (m := .receipt q)).steady (by simp) (by simp [Message.kind])
  refine ht.move hs.toGrows ((ht.log_at hst rfl).accept fun hk => by cases hk) fun q' hq' => ?_
  obtain ⟨-, rfl⟩ := Shipment.book_eq_ok_iff.1 hok
  by_cases hq : q' = q
  · exact .inr (extends_accept.heard_iff.2 (.inr ⟨_, List.mem_singleton_self _, rfl, hq.symm⟩))
  · refine (((ht.of_stage hst).steady hs) q' hq').imp_left fun hin => ?_
    exact NatSet.mem_filter.2 ⟨hin, by simpa using hq⟩

theorem react_mask (ht : s.Tracks seat h) {x : Indexed} (hst : s.stage = .indexed x) {q : Nat}
    (hq : q < seat.npes) {mask : Mask} : (do
      let masks ← x.masks.record s.pe q mask
      return { s with stage := .indexed { x with masks } } : Script State).TakesIn
      (.mask q mask) seat h := by
  refine leads_update.2 ⟨fun masks hok => ?_, fun _ _ => ht.log.orderly⟩
  obtain ⟨hasked, hheld, htallies, hmasks⟩ := ht.of_stage hst
  have he := extends_accept (h := h) (m := .mask q mask)
  refine ht.move he.grows ((ht.log_at hst rfl).accept fun _ => rfl) ⟨fun j hj =>
    he.grows.tried (hasked j hj), fun n => (hheld n).trans he.holds_iff.symm, ?_, fun j mask' => ?_⟩
  · exact (htallies.mono fun j => he.grows.heard).record hok hq
      (he.heard_iff.2 (.inr ⟨_, List.mem_singleton_self _, rfl, rfl⟩))
  · obtain ⟨hnone, rfl⟩ := RollCall.record_eq_ok hok
    rw [he.taken_eq, List.mem_append, List.mem_singleton, NatMap.get?_insert, ← hmasks,
      Message.mask.injEq]
    by_cases hj : j = q
    · subst hj
      simp [hnone, eq_comm]
    · simp [hj]

theorem react_query (ht : s.Tracks seat h) {g : Holdings} {q : Nat} {nodes : List Nat} :
    (s.answer g q nodes).TakesIn (.query q nodes) seat h := by
  unfold State.answer
  refine leads_bind.2 (leads_lift.2 ⟨fun queries _ => ?_, fun _ _ => ht.log.orderly⟩)
  refine leads_bind.2 (leads_send.2 ⟨fun _ => leads_pure.2 ?_, fun _ _ => ht.log.orderly⟩)
  have ht₁ := ht.answer (q := q) (m := .mask s.pe (g.maskOf nodes)) (Nat.zero_le _) rfl
  refine ht₁.count (fun hk => by cases hk) rfl rfl rfl (fun k _ P hP => ?_) fun _ _ _ => trivial
  cases k <;> exact hP

theorem react_request (ht : s.Tracks seat h) (hr : s.stage.numbering? = some r) {q : Nat}
    {nodes : List Nat} : (s.request r q nodes).TakesIn (.request q nodes) seat h := by
  have htracks := ht.stage.numbering hr
  unfold State.request
  refine leads_bind.2 (leads_lift.2 ⟨fun answered hok => ?_, fun _ _ => ht.log.orderly⟩)
  obtain ⟨answer, r'⟩ := answered
  obtain ⟨⟨queued, hqueued⟩, hgiven⟩ := Numbering.of_ask hok
  have hsame : r'.isGivenOut = r.isGivenOut := hqueued ▸ rfl
  have ht₁ : State.Tracks { s with stage := s.stage.withNumbering r' } seat h :=
    ht.renumber hr (Steady.refl h).toGrows ht.log (hqueued ▸ { htracks with }) (hqueued ▸ id) hsame
  have haccept : ∀ {h'}, State.Tracks { s with stage := s.stage.withNumbering r' } seat h' →
      State.Tracks { s with stage := s.stage.withNumbering r' } seat
        (h' ++ [.accepted (.request q nodes)]) := by
    intro h' ht'
    refine ht'.count (fun hk => by cases hk) rfl rfl rfl (fun k _ P hP => ?_) fun _ _ _ => trivial
    cases k <;> exact hP
  cases answer with
  | none => exact leads_pure.2 (haccept ht₁)
  | some ids =>
    refine leads_bind.2 (leads_send.2 ⟨fun _ => leads_pure.2 (haccept (ht₁.answer ?_ rfl)),
      fun _ _ => ht.log.orderly⟩)
    show 5 ≤ (s.stage.withNumbering r').mark
    rw [Stage.mark_withNumbering hr hsame]
    exact Stage.five_le_mark hr (hgiven rfl)

theorem react_assigned (ht : s.Tracks seat h) (hr : s.stage.numbering? = some r) {q : Nat}
    {ids : NatMap Nat} : (s.absorb r q ids).TakesIn (.assigned q ids) seat h := by
  have he := extends_accept (h := h) (m := .assigned q ids)
  have hs := he.steady (by simp) (by simp [Message.kind])
  unfold State.absorb
  split
  · exact leads_fail.2 ht.log.orderly
  · next r' hlearn =>
    refine leads_pure.2 ?_
    obtain ⟨htracks, hfills, hgiven⟩ := (ht.stage.numbering hr).learn hlearn hs (by
      rw [he.taken_eq]
      exact List.mem_append_right _ (List.mem_singleton_self _))
    exact ht.renumber hr hs.toGrows (ht.log.accept fun hk => by cases hk) htracks hfills hgiven

theorem react (ht : s.Tracks seat h) (hm : m.sender < seat.npes) {reaction : Script State}
    (hreact : s.react m = some reaction) : reaction.TakesIn m seat h := by
  cases m with
  | load q n =>
    obtain rfl := Option.some.inj hreact
    refine ht.counting hm (fun hk => by cases hk) (congrFun Except.map_id _).symm
      (fun _ => ⟨rfl, rfl, rfl⟩) (fun _ k hk P hP => ?_) fun _ _ hc => hc
    cases k <;> first | exact hP | exact absurd rfl hk
  | delivered q =>
    obtain rfl := Option.some.inj hreact
    refine ht.counting hm (fun hk => by cases hk) (congrFun Except.map_id _).symm
      (fun _ => ⟨rfl, rfl, rfl⟩) (fun _ k hk P hP => ?_) fun _ _ hc => hc
    cases k <;> first | exact hP | exact absurd rfl hk
  | offset q count =>
    obtain rfl := Option.some.inj hreact
    refine ht.counting hm (fun hk => by cases hk) rfl (fun _ => ⟨rfl, rfl, rfl⟩)
      (fun _ k hk P hP => ?_) fun _ _ hc => hc
    cases k <;> first | exact hP | exact absurd rfl hk
  | cost q bits =>
    obtain rfl := Option.some.inj hreact
    refine ht.counting hm (fun hk => by cases hk) rfl (fun _ => ⟨rfl, rfl, rfl⟩)
      (fun _ k hk P hP => ?_) fun _ _ hc => hc
    cases k <;> first | exact hP | exact absurd rfl hk
  | deviation q bits =>
    obtain rfl := Option.some.inj hreact
    refine ht.counting hm (fun hk => by cases hk) rfl (fun _ => ⟨rfl, rfl, rfl⟩)
      (fun _ k hk P hP => ?_) fun _ _ hc => hc
    cases k <;> first | exact hP | exact absurd rfl hk
  | lower q row =>
    simp only [State.react] at hreact
    split at hreact
    · next hnext =>
      split at hreact
      · obtain rfl := Option.some.inj hreact
        refine leads_pure.2 (ht.count (fun hk => by cases hk) rfl rfl rfl (fun k hk P hP => ?_)
          fun P _ hq => ?_)
        · cases k <;> first | exact hP | exact absurd rfl hk
        · exact fun _ _ => .inr ⟨q, hnext, hq⟩
      · obtain rfl := Option.some.inj hreact
        exact leads_fail.2 ht.log.orderly
    · cases hreact
  | batch q chares =>
    simp only [State.react] at hreact
    split at hreact
    · next x hst =>
      obtain rfl := Option.some.inj hreact
      exact ht.react_batch hst
    · cases hreact
  | receipt q =>
    simp only [State.react] at hreact
    split at hreact
    · next x hst =>
      obtain rfl := Option.some.inj hreact
      exact ht.react_receipt hst
    · cases hreact
  | mask q mask =>
    simp only [State.react] at hreact
    split at hreact
    · next x hst =>
      obtain rfl := Option.some.inj hreact
      exact ht.react_mask hst hm
    · cases hreact
  | query q nodes =>
    obtain ⟨g, -, rfl⟩ := Option.map_eq_some_iff.1 hreact
    exact ht.react_query
  | request q nodes =>
    obtain ⟨r, hr, rfl⟩ := Option.map_eq_some_iff.1 hreact
    exact ht.react_request hr
  | assigned q ids =>
    obtain ⟨r, hr, rfl⟩ := Option.map_eq_some_iff.1 hreact
    exact ht.react_assigned hr
  | abort q reason =>
    obtain rfl := Option.some.inj hreact
    exact leads_fail.2 ht.log.orderly

theorem take (ht : s.Tracks seat h) (hm : m.sender < seat.npes) :
    (s.take m).InOrder seat h := by
  unfold State.take
  split
  · next reaction hreact =>
    refine leads_bind.2 ((ht.react hm hreact).mono (fun s' h' ht' => ?_) fun _ _ => id)
    exact leads_bind.2 (leads_accept.2 (leads_pure.2 ht'))
  · split
    · exact leads_pure.2 { ht with
        senders := List.forall_mem_append.2 ⟨ht.senders, by simpa using hm⟩ }
    · exact leads_fail.2 ht.log.orderly

theorem takeAll {l : List Message} (ht : s.Tracks seat h) (hl : ∀ m ∈ l, m.sender < seat.npes) :
    (l.foldlM State.take s).InOrder seat h := by
  induction l generalizing s h with
  | nil => exact leads_pure.2 ht
  | cons m l ih =>
    rw [List.foldlM_cons]
    refine leads_bind.2 ((ht.take (hl m (List.mem_cons_self ..))).mono (fun s' h' ht' => ?_)
      fun _ _ => id)
    exact ih ht' fun m' hm' => hl m' (List.mem_cons_of_mem _ hm')

theorem settle {n : Nat} (ht : s.Tracks seat h) : (State.settle n s).InOrder seat h := by
  induction n generalizing s h with
  | zero => exact leads_pure.2 ht
  | succ n ih =>
    unfold State.settle State.proceed
    refine leads_bind.2 (leads_bind.2 (ht.work.mono (fun s' h' ht' => leads_pure.2 ?_)
      fun _ _ => id))
    split
    · exact leads_pure.2 ht'.retire
    · have hcleared : State.Tracks { s'.retire with backlog := [] } seat h' :=
        { ht'.retire with senders := by simp }
      refine leads_bind.2 ((hcleared.takeAll ht'.retire.senders).mono (fun s'' h'' ht'' => ?_)
        fun _ _ => id)
      exact ih ht''

theorem hear (ht : s.Tracks seat h) {q : Nat} (hq : q < seat.npes) (f : Frame) :
    (s.hear q f).InOrder seat h := by
  unfold State.hear
  refine leads_bind.2 (leads_mapError (fun m _ => ?_) fun _ _ => ht.log.orderly)
  split
  · next hsender =>
    refine leads_bind.2 ((ht.take (hsender ▸ hq)).mono (fun s' h' ht' => ?_) fun _ _ => id)
    exact ht'.settle
  · exact leads_fail.2 ht.log.orderly

end State.Tracks

open History Script in
theorem State.tracks_begin {seat : Seat} (hpe : seat.pe < seat.npes) (reader : Reader) :
    (State.begin seat reader).InOrder seat [] := by
  have hstart : ∀ x, (State.start seat x).Tracks seat [] := fun x =>
    { pe_lt := hpe
      seat_eq := rfl
      log := .nil
      stage := trivial
      counts := fun k => by
        cases k <;> first | exact trivial | exact RollCall.tallies_start | exact nofun
      senders := by simp [State.start] }
  -- What comes after reading is the same with and without centroids.
  have hrest : ∀ chunk centroids, (do
      let s := State.start seat ⟨chunk, centroids⟩
      s.report .read
      s.tellAll (.load s.pe chunk.size)
      return s : Script State).InOrder seat [] := by
    intro chunk centroids
    refine leads_bind.2 (leads_report_log (hstart ⟨chunk, centroids⟩).log fun h₁ hlog₁ he₁ => ?_)
    have hnew : ∀ q, ¬ Tried h₁ .load q := by
      rintro q ⟨m, hm, -⟩
      rw [he₁.tries_eq] at hm
      cases hm
    refine leads_bind.2 (leads_tellAll_log hlog₁ rfl hnew fun h₂ hlog₂ he₂ => leads_pure.2 ?_)
    exact (hstart _).follow (steady_tellAll (he₁.quiet_trans he₂) (by simp [Message.kind])) hlog₂
  unfold State.begin
  refine leads_bind.2 (leads_mapError (fun _ _ => ?_) fun _ _ => orderly_nil)
  refine leads_bind.2 (leads_lift.2 ⟨fun chunk _ => ?_, fun _ _ => orderly_nil⟩)
  show (if seat.config.algorithm.needsCentroids then _ else _ : Script State).Leads _ _ _
  split
  · exact leads_bind.2 (leads_lift.2 ⟨fun centroids _ => hrest chunk centroids, fun _ _ =>
      orderly_nil⟩)
  · exact leads_bind.2 (leads_pure.2 (hrest chunk .empty))

end MeshNumbering
