import MeshNumbering.Proofs.Processor.Provenance
import MeshNumbering.Proofs.Processor.Scripts

/-! Moving on keeps a processor in order, whatever it has been sent. A barrier opens only when all
that has to be there has been heard, and what lies behind it is sent only then, and only once. -/

namespace MeshNumbering

/-- Carried out after the events `h`, a script does nothing out of order, and the state that it may
end in is one that tracks what has happened. -/
abbrev Script.InOrder (x : Script State) (seat : Seat) (h : List Event) : Prop :=
  x.Leads h (fun s h' => s.Tracks seat h') fun _ => Orderly seat.pe seat.npes

namespace State
open History Script

section
variable {s : State} {pe npes μ : Nat} {φ : Phase} {h : List Event} {k : MessageKind} {m : Message}
  {P : Unit → List Event → Prop} {Q : Fault → List Event → Prop}

theorem leads_report_log {milestone : Milestone} (hl : Log pe npes μ φ h)
    (hP : ∀ h', Log pe npes μ φ h' → Extends h h' [] [] → P () h') :
    (s.report milestone).Leads h P Q := by
  refine leads_report.2 ?_
  split
  · exact hP _ (hl.call trivial) (.of_append _)
  · exact hP _ hl (.refl h)

theorem leads_sendEach_log {β : Type} {make : β → Message} {l : List (Nat × β)}
    (hl : Log pe npes μ φ h) (hkind : ∀ b, (make b).kind = k) (hle : k.saidFrom ≤ μ)
    (honce : k.saidOnce = true → k.saidFrom = μ ∧ (l.map Prod.fst).Nodup ∧ ∀ q, ¬ Tried h k q)
    (hP : ∀ h', Log pe npes μ φ h' → Extends h h' (l.map fun e => (e.1, make e.2)) [] → P () h') :
    (sendEach make l).Leads h P fun _ => Orderly pe npes := by
  -- The first of the messages could have been all of them.
  have hlog : ∀ done, done <+: l → Log pe npes μ φ
      (h ++ (done.map fun e => (e.1, make e.2)).map fun x => .sent x.1 x.2) := by
    intro done hpre
    refine hl.sends (fun x hx => ?_) hle fun ho => ?_
    · obtain ⟨e, -, rfl⟩ := List.mem_map.1 hx
      exact hkind e.2
    · obtain ⟨hfrom, hnodup, hnew⟩ := honce ho
      refine ⟨hfrom, ?_, hnew⟩
      rw [List.map_map]
      exact hnodup.sublist (hpre.sublist.map _)
  refine leads_sendEach (fun done h' =>
    h' = h ++ (done.map fun e => (e.1, make e.2)).map fun x => .sent x.1 x.2) (by simp) ?_ ?_ ?_
  · rintro done peer b rest _ - rfl -
    simp
  · rintro _ rfl
    exact hP _ (hlog l (List.prefix_refl l)) (extends_sends _)
  · rintro done peer b rest _ e hsplit rfl -
    exact (hlog done ⟨_, hsplit⟩).orderly

theorem leads_tellAll_log (hl : Log pe npes μ φ h) (hfrom : m.kind.saidFrom = μ)
    (hnew : ∀ q, ¬ Tried h m.kind q)
    (hP : ∀ h', Log pe npes μ φ h' →
      Extends h h' ((List.range s.npes).map fun q => (q, m)) [] → P () h') :
    (s.tellAll m).Leads h P fun _ => Orderly pe npes := by
  refine leads_sendAll (fun _ => ?_) fun _ _ => hl.orderly
  have hevents : ((List.range s.npes).map fun peer => Event.sent peer m) =
      ((List.range s.npes).map fun q => (q, m)).map fun x => .sent x.1 x.2 := by
    rw [List.map_map]
    rfl
  rw [hevents]
  refine hP _ (hl.sends (fun x hx => ?_) hfrom.le fun _ => ⟨hfrom, ?_, hnew⟩) (extends_sends _)
  · obtain ⟨q, -, rfl⟩ := List.mem_map.1 hx
    rfl
  · simpa [Function.comp_def] using List.nodup_range

end

variable {s : State} {seat : Seat} {h : List Event}

theorem steady_tellAll {h' : List Event} {n : Nat} {m : Message}
    (he : Extends h h' ((List.range n).map fun q => (q, m)) [])
    (hm : m.kind ≠ .batch ∧ m.kind ≠ .query) : Steady h h' :=
  he.steady (by simpa using fun _ _ => hm) (by simp)

namespace Tracks

theorem ship (ht : s.Tracks seat h) {x : Setup} (hst : s.stage = .setup x)
    (hc : s.loads.isComplete = true) :
    (s.ship x).InOrder seat h := by
  have hlog : Log seat.pe seat.npes 0 .setup h := ht.log_at hst rfl
  have hloads : HeardAll seat.npes h .load := (ht.counts .load).all hc
  unfold State.ship
  refine leads_bind.2 (leads_mapError (fun nchare _ => ?_) fun _ _ => hlog.orderly)
  refine leads_bind.2 (leads_mapError (fun layout _ => ?_) fun _ _ => hlog.orderly)
  refine leads_bind.2 (leads_call.2 ?_)
  have hlog₁ := hlog.call (c := .size (sum (s.loads.contributions.map Prod.snd))) trivial
  refine leads_bind.2 (leads_lift.2 ⟨fun chares _ => ?_, fun _ _ => hlog₁.orderly⟩)
  refine leads_bind.2 (leads_lift.2 ⟨fun _ _ => ?_, fun _ _ => hlog₁.orderly⟩)
  refine leads_bind.2 (leads_report_log hlog₁ fun h₂ hlog₂ he₂ => ?_)
  have hquiet : Extends h h₂ [] [] := Extends.quiet_trans (.of_append _) he₂
  have hawaiting : ((Shipment.start s.pe layout).pack
      (.ofAssignment chares x.chunk.connectivity)).2.awaiting =
      ((Shipment.start s.pe layout).pack (.ofAssignment chares x.chunk.connectivity)).1.keys := rfl
  generalize (Shipment.start s.pe layout).pack (.ofAssignment chares x.chunk.connectivity) = packed
    at hawaiting ⊢
  obtain ⟨batches, shipment⟩ := packed
  have hnext : Log seat.pe seat.npes 1 .setup h₂ := hlog₂.raise fun k hk => by
    cases k <;> try cases hk
    exact hquiet.grows.heardAll hloads
  have hnew := hlog₂.not_tried (k := .batch) Nat.one_pos
  refine leads_bind.2 (leads_sendEach_log (k := .batch) hnext (fun _ => rfl) (Nat.le_refl 1)
    (fun _ => ⟨rfl, NatSet.nodup_elems batches.keys, hnew⟩) fun h₃ hlog₃ he₃ => ?_)
  refine leads_bind.2 (leads_enter.2 (leads_pure.2 ?_))
  have hsent := he₃.trans_quiet (.of_append [.entered .shipping])
  refine ht.move (hquiet.trans hsent).grows (hlog₃.enter (show .setup < Phase.shipping by decide))
    fun q hq => .inl ?_
  rcases hsent.tried_iff.1 hq with hq | ⟨m, hm, -⟩
  · exact absurd hq (hnew q)
  · obtain ⟨e, he, heq⟩ := List.mem_map.1 hm
    obtain ⟨rfl, -⟩ := Prod.mk.inj heq
    rw [hawaiting]
    exact List.mem_map_of_mem he

theorem announce (ht : s.Tracks seat h) {x : Shipping} (hst : s.stage = .shipping x) :
    (s.announce x).Leads h (fun x' h' => State.Tracks { s with stage := .shipping x' } seat h')
      fun _ => Orderly seat.pe seat.npes := by
  unfold State.announce
  split
  · next hc =>
    rw [Bool.and_eq_true, Bool.not_eq_true'] at hc
    obtain ⟨hann, hdelivered⟩ := hc
    have hlog : Log seat.pe seat.npes 1 .shipping h :=
      ht.log_at hst (if_neg (Bool.not_eq_true _ ▸ hann))
    have hstage := ht.of_stage hst
    have hreceipts : ∀ q, Tried h .batch q → Heard h .receipt q := by
      intro q hq
      rw [Shipment.isDelivered, decide_eq_true_eq] at hdelivered
      exact (hstage q hq).resolve_left (NatSet.isEmpty_iff.1 hdelivered.2 q)
    have hnext : Log seat.pe seat.npes 2 .shipping h := hlog.raise fun k hk => by
      cases k <;> try cases hk
      exact hreceipts
    refine leads_bind.2 (leads_tellAll_log hnext rfl (hlog.not_tried (Nat.lt_succ_self 1))
      fun h' hlog' he => leads_pure.2 ?_)
    have hs : Steady h h' := steady_tellAll he (by simp [Message.kind])
    exact ht.move hs.toGrows hlog' fun q hq => .inr (hs.heard (hreceipts q (hs.batches q hq)))
  · exact leads_pure.2 (by rwa [with_stage hst])

theorem takeStock (ht : s.Tracks seat h) {x : Shipping} (hst : s.stage = .shipping x)
    (hann : x.announced = true) (hc : s.distributed.isComplete = true) :
    (s.takeStock x).InOrder seat h := by
  have hlog : Log seat.pe seat.npes 2 .shipping h := ht.log_at hst (if_pos hann)
  have hdelivered : HeardAll seat.npes h .delivered := (ht.counts .delivered).all hc
  unfold State.takeStock
  refine leads_bind.2 (leads_report_log hlog fun h₁ hlog₁ he₁ => ?_)
  refine leads_bind.2 (leads_lift.2 ⟨fun holdings _ => ?_, fun _ _ => hlog₁.orderly⟩)
  refine leads_bind.2 (leads_report_log hlog₁ fun h₂ hlog₂ he₂ => ?_)
  have hquiet := he₁.quiet_trans he₂
  have hnext : Log seat.pe seat.npes 3 .shipping h₂ := hlog₂.raise fun k hk => by
    cases k <;> try cases hk
    exact hquiet.grows.heardAll hdelivered
  have hnew := hlog₂.not_tried (k := .query) (Nat.lt_succ_self 2)
  refine leads_bind.2 (leads_tellAll_log hnext rfl hnew fun h₃ hlog₃ he₃ => ?_)
  refine leads_bind.2 (leads_enter.2 (leads_pure.2 ?_))
  have hsent := he₃.trans_quiet (.of_append [.entered .indexed])
  generalize hh : h₃ ++ [Event.entered .indexed] = h' at hsent ⊢
  have hlog' : Log seat.pe seat.npes 3 .indexed h' := hh ▸ hlog₃.enter (by decide)
  rw [ht.npes_eq] at hsent ⊢
  have hasked : ∀ q < seat.npes,
      (q, .query s.pe holdings.nodes.elems) ∈ tries h' := by
    intro q hq
    rw [hsent.tries_eq]
    exact List.mem_append_right _ (List.mem_map.2 ⟨q, List.mem_range.2 hq, rfl⟩)
  have hmoved := ht.move (hquiet.trans hsent).grows (x := .indexed ⟨x.shipment.layout,
    x.shipment.contents, holdings, .start .mask seat.npes⟩) hlog' ?_
  · exact { hmoved with }
  · refine ⟨fun q hq => ⟨_, hasked q hq, rfl⟩, fun n => ⟨fun hn => ?_, ?_⟩, RollCall.tallies_start,
      fun q mask => ⟨fun hm => (by cases hm), fun hm => ?_⟩⟩
    · exact ⟨seat.pe, _, _, hasked seat.pe ht.pe_lt, hn⟩
    · rintro ⟨q, pe, nodes, hm, hn⟩
      rw [hsent.tries_eq, List.mem_append] at hm
      rcases hm with hm | hm
      · exact absurd ⟨_, hm, rfl⟩ (hnew q)
      · obtain ⟨q', -, heq⟩ := List.mem_map.1 hm
        obtain ⟨-, heq⟩ := Prod.mk.inj heq
        obtain ⟨-, rfl⟩ := Message.query.inj heq
        exact hn
    · rw [hsent.taken_eq, List.append_nil] at hm
      exact absurd (hlog₂.masked q ⟨_, hm, rfl, rfl⟩) (by decide)

theorem share (ht : s.Tracks seat h) {x : Indexed} (hst : s.stage = .indexed x) :
    (s.share x).InOrder seat h := by
  -- The masks are resolved when there is one from everybody, so it is settled who claims what.
  have hlog : Log seat.pe seat.npes 3 .indexed h := ht.log_at hst rfl
  obtain ⟨hasked, hheld, htallies, hmasks⟩ := ht.of_stage hst
  unfold State.share
  rw [ht.pe_eq]
  refine leads_bind.2 (leads_lift.2 ⟨fun sharing hok => ?_, fun _ _ => hlog.orderly⟩)
  obtain ⟨hcomplete, hclaims, hnodes⟩ := Sharing.of_ofMasks hok
  refine leads_bind.2 (leads_report_log hlog fun h₁ hlog₁ he₁ => ?_)
  have hnext : Log seat.pe seat.npes 4 .indexed h₁ := hlog₁.raise fun k hk => by
    cases k <;> try cases hk
    exact he₁.grows.heardAll (htallies.all hcomplete)
  refine leads_bind.2 (leads_tellAll_log hnext rfl (hlog₁.not_tried (Nat.lt_succ_self 3))
    fun h₂ hlog₂ he₂ => ?_)
  refine leads_bind.2 (leads_enter.2 (leads_pure.2 ?_))
  have hs : Steady h (h₂ ++ [.entered .numbering]) :=
    steady_tellAll (he₁.quiet_trans (he₂.trans_quiet (.of_append _))) (by simp [Message.kind])
  refine ht.move hs.toGrows (hlog₂.enter (show .indexed < Phase.numbering by decide))
    (Numbering.Tracks.steady ?_ hs)
  refine Numbering.tracks_start hasked hheld (fun n q => ?_) fun n q hq => ?_
  · rw [hclaims]
    refine (Claims.claimant?_ofMasks x.masks.heard.ascending).trans ?_
    simp only [Claimed, ← hmasks, NatMap.get?_eq_some_iff]
  · obtain ⟨-, ⟨mask, hm, hn⟩, -⟩ := hq
    exact hnodes q mask ((hmasks q mask).2 hm) n hn

theorem giveOut (ht : s.Tracks seat h) {x : Reordering} (hst : s.stage = .numbering x)
    (hgiven : x.numbering.isGivenOut = false) {base : Nat} (hbase : s.offsets.base? = some base) :
    (s.number x).Leads h (fun x' h' => State.Tracks { s with stage := .numbering x' } seat h')
      fun _ => Orderly seat.pe seat.npes := by
  have hlog : Log seat.pe seat.npes 4 .numbering h :=
    ht.log_at hst (if_neg (Bool.not_eq_true _ ▸ hgiven))
  have hoffsets : HeardAll seat.npes h .offset := by
    refine (ht.counts .offset).all ?_
    rw [Offsets.base?] at hbase
    split at hbase
    · assumption
    · cases hbase
  have hr := Numbering.Tracks.giveOut (ht.of_stage hst) hoffsets base
  have hmark : (x.numbering.giveOut base).2.isGivenOut = true := rfl
  unfold State.number
  rw [hbase]
  simp only [hgiven, Bool.false_eq_true, if_false]
  generalize x.numbering.giveOut base = given at hr hmark ⊢
  obtain ⟨answers, r⟩ := given
  have hnext : Log seat.pe seat.npes 5 .numbering h := hlog.raise fun k hk => by
    cases k <;> try cases hk
    all_goals exact hoffsets
  refine leads_bind.2 (leads_lift.2 ⟨fun answers _ => ?_, fun _ _ => hlog.orderly⟩)
  refine leads_bind.2 (leads_sendEach_log (k := .assigned) hnext (fun _ => rfl) (Nat.le_refl 5)
    (fun ho => by cases ho) fun h₁ hlog₁ he₁ => ?_)
  have hnew : ∀ q, ¬ Tried h₁ .request q := by
    intro q hq
    rcases he₁.tried_iff.1 hq with hq | ⟨m, hm, hk⟩
    · exact hlog.not_tried (k := .request) (Nat.lt_succ_self 4) q hq
    · obtain ⟨e, -, heq⟩ := List.mem_map.1 hm
      obtain ⟨-, rfl⟩ := Prod.mk.inj heq
      cases hk
  refine leads_bind.2 (leads_sendEach_log (k := .request) hlog₁ (fun _ => rfl) (Nat.le_refl 5)
    (fun _ => ⟨rfl, Numbering.nodup_wanted r, hnew⟩) fun h₂ hlog₂ he₂ => leads_pure.2 ?_)
  have hs : Steady h h₂ := (he₁.trans he₂).steady (fun y hy => ?_) (by simp)
  · refine ht.move hs.toGrows ?_ (hr.steady hs)
    rwa [Stage.mark, if_pos hmark]
  · rcases List.mem_append.1 hy with hy | hy
    all_goals
      obtain ⟨e, -, rfl⟩ := List.mem_map.1 hy
      simp [Message.kind]

theorem number (ht : s.Tracks seat h) {x : Reordering} (hst : s.stage = .numbering x) :
    (s.number x).Leads h (fun x' h' => State.Tracks { s with stage := .numbering x' } seat h')
      fun _ => Orderly seat.pe seat.npes := by
  cases hbase : s.offsets.base? with
  | none =>
    rw [State.number, hbase]
    exact leads_pure.2 (by rwa [with_stage hst])
  | some base =>
    cases hgiven : x.numbering.isGivenOut with
    | false => exact ht.giveOut hst hgiven hbase
    | true =>
      rw [State.number, hbase]
      simp only [hgiven, if_true]
      exact leads_pure.2 (by rwa [with_stage hst])

theorem relabel (ht : s.Tracks seat h) {x : Reordering} (hst : s.stage = .numbering x)
    (hc : x.numbering.isComplete = true) (base : Nat) :
    (s.relabel x base).InOrder seat h := by
  have hr : x.numbering.Tracks seat.pe seat.npes h := ht.of_stage hst
  have hfills := hr.fills hc
  have hlog : Log seat.pe seat.npes 5 .numbering h := by
    rw [Numbering.isComplete, decide_eq_true_eq] at hc
    exact ht.log_at hst (if_pos hc.1)
  unfold State.relabel
  refine leads_bind.2 (leads_lift.2 ⟨fun relabelling _ => ?_, fun _ _ => hlog.orderly⟩)
  refine leads_bind.2 (leads_report_log hlog fun h₁ hlog₁ he₁ => ?_)
  have hs₁ : Steady h h₁ := he₁.steady_quiet
  have hnext : Log seat.pe seat.npes 6 .numbering h₁ := hlog₁.raise fun k hk => by
    cases k <;> try cases hk
    exact hs₁.allNumbered (hr.allNumbered hfills)
  -- The end is the same with a next processor and without one.
  have hdone : ∀ h₂, Log seat.pe seat.npes 6 .numbering h₂ → Steady h h₂ → (do
      enter .bounding
      return { s with
        stage := .bounding ⟨x.layout, x.numbering, base, x.sharing.own, relabelling,
          upperRow relabelling.touched base (s.pe + 1 = s.npes)⟩
        lower := if s.pe = 0 then some 0 else s.lower } : Script State).InOrder seat h₂ := by
    intro h₂ hlog₂ hs₂
    refine leads_bind.2 (leads_enter.2 (leads_pure.2 ?_))
    have hentered : Extends h₂ (h₂ ++ [.entered .bounding]) [] [] := .of_append _
    have hs := hs₂.trans hentered.steady_quiet
    have hmoved := ht.move hs.toGrows (x := .bounding ⟨x.layout, x.numbering, base, x.sharing.own,
      relabelling, upperRow relabelling.touched base (s.pe + 1 = s.npes)⟩)
      (hlog₂.enter (show .numbering < Phase.bounding by decide)) ⟨hr.steady hs, hfills.steady hs⟩
    refine { hmoved with counts := fun k => ?_ }
    have hk := hmoved.counts k
    cases k with
    | lower =>
      intro row hrow
      replace hrow : (if s.pe = 0 then some 0 else s.lower) = some row := hrow
      by_cases h0 : s.pe = 0
      · exact .inl h0
      · rw [if_neg h0] at hrow
        exact hk row hrow
    | _ => exact hk
  show (if s.pe + 1 < s.npes then _ else _ : Script State).Leads _ _ _
  split
  · refine leads_bind.2 (leads_send.2 ⟨fun _ => hdone _ ?_ ?_, fun _ _ => hnext.orderly⟩)
    · have hnew := hlog₁.not_tried (k := .lower) (Nat.lt_succ_self 5)
      exact hnext.send (Nat.le_refl 6) fun _ => ⟨rfl, hnew _⟩
    · exact hs₁.trans (extends_send.steady (by simp [Message.kind]) (by simp))
  · exact hdone h₁ hnext hs₁

theorem employ (ht : s.Tracks seat h) {x : Bounding} (hst : s.stage = .bounding x) {lower : Nat}
    (hlower : s.lower = some lower) :
    (s.employ x lower).InOrder seat h := by
  have hlog : Log seat.pe seat.npes 6 .bounding h := ht.log_at hst rfl
  obtain ⟨hr, hfills⟩ := ht.of_stage hst
  have hready : ∀ h', Steady h h' → AllNumbered seat.pe seat.npes h' ∧ BoundKnown seat.pe h' :=
    fun h' hs => ⟨hs.allNumbered (hr.allNumbered hfills), hs.boundKnown (ht.boundKnown hlower)⟩
  unfold State.employ
  refine leads_bind.2 (leads_report_log hlog fun h₁ hlog₁ he₁ => ?_)
  have hs₁ : Steady h h₁ := he₁.steady_quiet
  have hcall : ∀ {h' c}, (AllNumbered seat.pe seat.npes h' ∧ BoundKnown seat.pe h' →
      Permitted seat.pe seat.npes h' (.called c)) → Log seat.pe seat.npes 6 .bounding h' →
      Steady h h' → Log seat.pe seat.npes 6 .bounding (h' ++ [.called c]) ∧
        Steady h (h' ++ [.called c]) := by
    intro h' c hp hlog' hs'
    have he : Extends h' (h' ++ [.called c]) [] [] := .of_append _
    exact ⟨hlog'.call (hp (hready h' hs')), hs'.trans he.steady_quiet⟩
  obtain ⟨hlog₂, he₂⟩ := hlog₁.calls .worker (x.relabelling.setups s.pe x.layout.nchare)
    fun _ h' hs => hready h' (hs₁.trans hs)
  obtain ⟨hlog₃, hs₃⟩ := hcall (c := .crew) id hlog₂ (hs₁.trans he₂.steady_quiet)
  obtain ⟨hlog₄, hs₄⟩ := hcall (c := .rows ⟨⟨lower, x.upper⟩, s.pe⟩) id hlog₃ hs₃
  obtain ⟨hlog₅, hs₅⟩ := hcall (c := .ready) id hlog₄ hs₄
  refine leads_bind.2 (leads_calls.2 (leads_bind.2 (leads_call.2 (leads_bind.2 (leads_call.2
    (leads_bind.2 (leads_call.2 ?_)))))))
  have hnext : Log seat.pe seat.npes 7 .bounding _ := hlog₅.raise fun k hk => by
    cases k <;> try cases hk
    exact hready _ hs₅
  refine leads_bind.2 (leads_tellAll_log hnext rfl (hlog₅.not_tried (Nat.lt_succ_self 6))
    fun h₆ hlog₆ he₆ => ?_)
  refine leads_bind.2 (leads_enter.2 (leads_pure.2 ?_))
  have hs : Steady h (h₆ ++ [.entered .costing]) :=
    hs₅.trans (steady_tellAll (he₆.trans_quiet (.of_append _)) (by simp [Message.kind]))
  exact ht.move hs.toGrows (hlog₆.enter (show .bounding < Phase.costing by decide))
    ⟨hr.steady hs, hfills.steady hs⟩

theorem compare (ht : s.Tracks seat h) {x : Costing} (hst : s.stage = .costing x) :
    (s.compare x).Leads h
      (fun x' h' => State.Tracks { s with stage := .costing x' } seat h' ∧
        (s.costs.mean?.isSome = true → x'.announced = true))
      fun _ => Orderly seat.pe seat.npes := by
  have hsame : State.Tracks { s with stage := .costing x } seat h := by rwa [with_stage hst]
  unfold State.compare
  split
  · next hmean =>
    refine leads_pure.2 ⟨hsame, fun hsome => ?_⟩
    rw [hmean] at hsome
    cases hsome
  · next mean hmean =>
    split
    · next hann => exact leads_pure.2 ⟨hsame, fun _ => hann⟩
    · next hann =>
      have hlog : Log seat.pe seat.npes 7 .costing h := ht.log_at hst (if_neg hann)
      have hcosts : HeardAll seat.npes h .cost := by
        refine (ht.counts .cost).all ?_
        rw [CostSurvey.mean?] at hmean
        split at hmean
        · assumption
        · cases hmean
      have hnext : Log seat.pe seat.npes 8 .costing h := hlog.raise fun k hk => by
        cases k <;> try cases hk
        exact hcosts
      refine leads_bind.2 (leads_tellAll_log hnext rfl (hlog.not_tried (Nat.lt_succ_self 7))
        fun h' hlog' he => leads_pure.2 ⟨?_, fun _ => rfl⟩)
      have hs : Steady h h' := steady_tellAll he (by simp [Message.kind])
      obtain ⟨hr, hfills⟩ := ht.of_stage hst
      exact ht.move hs.toGrows hlog' ⟨hr.steady hs, hfills.steady hs⟩

theorem finish (ht : s.Tracks seat h) {x : Costing} (hst : s.stage = .costing x)
    (hann : x.announced = true) {statistics : CostStatistics}
    (hstatistics : s.costs.statistics? = some statistics) :
    (s.finish x statistics).InOrder seat h := by
  have hlog : Log seat.pe seat.npes 8 .costing h := ht.log_at hst (if_pos hann)
  have hdeviations : HeardAll seat.npes h .deviation := by
    refine (ht.counts .deviation).all ?_
    rw [CostSurvey.statistics?] at hstatistics
    split at hstatistics
    · cases hstatistics
    · split at hstatistics
      · assumption
      · cases hstatistics
  unfold State.finish
  refine leads_bind.2 (leads_call.2 (leads_bind.2 (leads_call.2 (leads_bind.2 (leads_enter.2 ?_)))))
  have hdone := ((hlog.call (c := .statistics statistics) trivial).call (c := .finished)
    trivial).enter (show .costing < Phase.done by decide)
  split
  · exact leads_fail.2 hdone.orderly
  · refine leads_pure.2 ?_
    have hg : Grows h (h ++ [.called (.statistics statistics)] ++ [.called .finished] ++
        [.entered .done]) := by
      rw [List.append_assoc, List.append_assoc]
      exact (Extends.of_append _).grows
    exact ht.move hg (hdone.raise fun k hk => by cases k <;> cases hk) (hg.heardAll hdeviations)

theorem work (ht : s.Tracks seat h) : s.work.InOrder seat h := by
  unfold State.work
  split
  · next x hst =>
    split
    · next hc => exact ht.ship hst hc
    · exact leads_pure.2 ht
  · next x hst =>
    refine leads_bind.2 ((ht.announce hst).mono (fun x' h' ht' => ?_) fun _ _ => id)
    split
    · next hc =>
      rw [Bool.and_eq_true] at hc
      exact ht'.takeStock rfl hc.1 hc.2
    · exact leads_pure.2 ht'
  · next x hst =>
    split
    · exact ht.share hst
    · exact leads_pure.2 ht
  · next x hst =>
    refine leads_bind.2 ((ht.number hst).mono (fun x' h' ht' => ?_) fun _ _ => id)
    split
    · next base _ =>
      split
      · next hc => exact ht'.relabel rfl hc base
      · exact leads_pure.2 ht'
    · exact leads_pure.2 ht'
  · next x hst =>
    split
    · next lower hlower => exact ht.employ hst hlower
    · exact leads_pure.2 ht
  · next x hst =>
    refine leads_bind.2 ((ht.compare hst).mono (fun x' h' hx => ?_) fun _ _ => id)
    obtain ⟨ht', hann⟩ := hx
    split
    · next statistics hstatistics =>
      have hmean : s.costs.mean?.isSome = true := by
        rw [CostSurvey.statistics?] at hstatistics
        split at hstatistics
        · cases hstatistics
        · next mean hmean => rw [hmean, Option.isSome_some]
      exact ht'.finish rfl (hann hmean) hstatistics
    · exact leads_pure.2 ht'
  · exact leads_pure.2 ht

theorem retire (ht : s.Tracks seat h) : s.retire.Tracks seat h := by
  unfold State.retire
  split
  · exact { ht with }
  · exact ht

end Tracks
end State
end MeshNumbering
