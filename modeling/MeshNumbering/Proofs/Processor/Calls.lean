import MeshNumbering.Proofs.Processor.Agenda
import MeshNumbering.Proofs.Processor.Pass
import MeshNumbering.Proofs.Processor.Reacting
import MeshNumbering.Proofs.RollCall

/-! The calls of a whole run. Whatever comes in, and wherever a run breaks off, the calls made so
far are those of the phases entered, with at most a part of the next block that hands nothing
over. -/

namespace MeshNumbering
open History Script

def Stage.Agrees (seat : Seat) (a : Agenda) : Stage → Prop
  | .setup _ => True
  | .shipping x => a.LaidOut seat x.shipment.layout
  | .indexed x => a.LaidOut seat x.layout ∧ x.nodes.keys.elems = (x.layout.owned seat.pe).elems
  | .numbering x => a.LaidOut seat x.layout ∧ x.nodes.keys.elems = (x.layout.owned seat.pe).elems
  | .bounding x => a.LaidOut seat x.layout ∧
      x.relabelling.nodes.keys.elems = (x.layout.owned seat.pe).elems
  | .costing x => a.LaidOut seat x.layout ∧ a.rows = x.rows
  | .done outcome => (∃ x, a.LaidOut seat x) ∧ a.rows = outcome.rows ∧
      a.statistics = outcome.statistics

structure State.OnSchedule (s : State) (seat : Seat) (c : List Call) : Prop where
  seat_eq : s.seat = seat
  agenda : ∃ a : Agenda, c = a.upTo seat s.phase ∧ s.stage.Agrees seat a
  offsets : s.offsets.counts.Tallies seat.npes fun _ => True
  -- Own ids are given out from all counts.
  counted : 5 ≤ s.mark → s.offsets.isComplete = true
  senders : ∀ m ∈ s.backlog, m.sender < seat.npes

def Seat.BreaksOff (seat : Seat) (c : List Call) : Prop :=
  ∃ a : Agenda, a.Begins seat c ∧ .finished ∉ c

structure State.Stays (s s' : State) (seat : Seat) (c : List Call) : Prop where
  onSchedule : s'.OnSchedule seat c
  backlog_eq : s'.backlog = s.backlog
  phase_eq : s'.phase = s.phase

structure State.Proceeds (s s' : State) (seat : Seat) (c : List Call) : Prop where
  onSchedule : s'.OnSchedule seat c
  backlog_eq : s'.backlog = s.backlog
  rank_le : s'.phase.rank ≤ s.phase.rank + 1

theorem State.Stays.proceeds {s s' : State} {seat : Seat} {c : List Call}
    (h : s.Stays s' seat c) : s.Proceeds s' seat c where
  onSchedule := h.onSchedule
  backlog_eq := h.backlog_eq
  rank_le := h.phase_eq ▸ Nat.le_succ _

abbrev State.Advances (s : State) (seat : Seat) (links : Links) (c : List Call)
    (x : Script State) : Prop :=
  x.Speaks links c (fun s' c' => s.Proceeds s' seat c') seat.BreaksOff

/-- After the calls `c` the script leads to a state on schedule, with only such messages kept as
came too early, or it breaks off. -/
abbrev Script.Settles (x : Script State) (seat : Seat) (links : Links) (c : List Call) : Prop :=
  x.Speaks links c (fun s c' => s.OnSchedule seat c' ∧ s.Patient) seat.BreaksOff

namespace Agenda
variable {a : Agenda} {seat : Seat} {x : Layout} {c : List Call} {φ : Phase}

theorem exists_laidOut {total nchare : Nat} (rows : RowRange) (statistics : CostStatistics)
    (hn : seat.config.chares.forMesh total seat.npes = .ok nchare)
    (hx : Layout.of nchare seat.npes = .ok x) :
    ∃ setups, (Agenda.mk total setups rows statistics).LaidOut seat x := by
  obtain ⟨rfl, -⟩ := Layout.of_eq_ok hx
  refine ⟨(x.owned seat.pe).elems.map fun chare => ⟨chare, seat.pe, x.nchare, [], ∅, ∅⟩,
    hn, hx, ?_, ?_⟩
  · rw [List.map_map]
    exact List.map_id _
  · intro w hw
    obtain ⟨chare, -, rfl⟩ := List.mem_map.1 hw
    exact ⟨rfl, rfl⟩

theorem LaidOut.breaksOff (h : a.LaidOut seat x) (hc : c <+: a.upTo seat .bounding) :
    seat.BreaksOff c := ⟨a, begins_of_early hc fun _ => ⟨x, h⟩⟩

end Agenda

namespace State.OnSchedule
variable {s s' : State} {seat : Seat} {c : List Call} {links : Links}

theorem pe_eq (h : s.OnSchedule seat c) : s.pe = seat.pe := congrArg Seat.pe h.seat_eq

theorem npes_eq (h : s.OnSchedule seat c) : s.npes = seat.npes := congrArg Seat.npes h.seat_eq

theorem of_stage (h : s.OnSchedule seat c) {x : Stage} (hst : s.stage = x) :
    ∃ a : Agenda, c = a.upTo seat x.phase ∧ x.Agrees seat a := by
  subst hst
  exact h.agenda

theorem breaksOff (h : s.OnSchedule seat c) (hphase : s.phase ≠ .done) : seat.BreaksOff c := by
  obtain ⟨a, rfl, hagrees⟩ := h.agenda
  unfold State.phase at hphase ⊢
  cases hst : s.stage with
  | setup x => exact ⟨a, a.begins_of_setup (List.prefix_refl _)⟩
  | shipping x =>
    rw [hst] at hagrees
    exact Agenda.LaidOut.breaksOff hagrees (Agenda.upTo_mono (Nat.le_of_ble_eq_true rfl))
  | indexed x | numbering x | bounding x =>
    rw [hst] at hagrees
    exact Agenda.LaidOut.breaksOff hagrees.1 (Agenda.upTo_mono (Nat.le_of_ble_eq_true rfl))
  | costing x =>
    rw [hst] at hagrees
    exact ⟨a, Agenda.begins_costing hagrees.1⟩
  | done outcome =>
    rw [hst] at hphase
    exact absurd rfl hphase

theorem proceeds (h : s.OnSchedule seat c) {a : Agenda} (hseat : s'.seat = seat)
    (hoffsets : s'.offsets = s.offsets) (hback : s'.backlog = s.backlog)
    (hagrees : s'.stage.Agrees seat a)
    (hcounted : 5 ≤ s'.mark → s.offsets.isComplete = true)
    (hrank : s'.phase.rank ≤ s.phase.rank + 1) :
    s.Proceeds s' seat (a.upTo seat s'.phase) where
  onSchedule := {
    seat_eq := hseat
    agenda := ⟨a, rfl, hagrees⟩
    offsets := hoffsets ▸ h.offsets
    counted := hoffsets ▸ hcounted
    senders := hback ▸ h.senders }
  backlog_eq := hback
  rank_le := hrank

theorem stays (h : s.OnSchedule seat c) (hseat : s'.seat = s.seat)
    (hoffsets : s'.offsets = s.offsets) (hback : s'.backlog = s.backlog)
    (hphase : s'.phase = s.phase) (hagrees : ∀ a, s.stage.Agrees seat a → s'.stage.Agrees seat a)
    (hcounted : 5 ≤ s'.mark → s.offsets.isComplete = true) : s.Stays s' seat c where
  onSchedule := {
    seat_eq := hseat.trans h.seat_eq
    agenda := by
      obtain ⟨a, hc, ha⟩ := h.agenda
      exact ⟨a, hphase ▸ hc, hagrees a ha⟩
    offsets := hoffsets ▸ h.offsets
    counted := hoffsets ▸ hcounted
    senders := hback ▸ h.senders }
  backlog_eq := hback
  phase_eq := hphase

theorem refl (h : s.OnSchedule seat c) : s.Stays s seat c := ⟨h, rfl, rfl⟩

theorem restage (h : s.OnSchedule seat c) {x y : Stage} (hst : s.stage = x)
    (hphase : y.phase = x.phase) (hagrees : ∀ a, x.Agrees seat a → y.Agrees seat a)
    (hcounted : 5 ≤ y.mark → s.offsets.isComplete = true) :
    s.Stays { s with stage := y } seat c := by
  subst hst
  exact h.stays rfl rfl rfl hphase hagrees hcounted

theorem reship (h : s.OnSchedule seat c) {t t' : Shipping} (hst : s.stage = .shipping t)
    (hlayout : t'.shipment.layout = t.shipment.layout) :
    s.Stays { s with stage := .shipping t' } seat c := by
  refine h.restage hst rfl (fun a ha => ?_) fun hle => ?_
  · exact show a.LaidOut seat t'.shipment.layout from hlayout ▸ ha
  · simp only [Stage.mark] at hle
    split at hle
    all_goals exact absurd hle (by decide)

/-! Moving on. -/

theorem speaks_report (h : s.OnSchedule seat c) {c' : List Call} {m : Milestone}
    {P : Unit → List Call → Prop} {Q : List Call → Prop} (hP : P () (c' ++ seat.said m)) :
    (s.report m).Speaks links c' P Q :=
  State.speaks_report (h.seat_eq.symm ▸ hP)

theorem ship (h : s.OnSchedule seat c) {t : Setup} (hst : s.stage = .setup t) :
    s.Advances seat links c (s.ship t) := by
  have hphase : s.phase = .setup := congrArg Stage.phase hst
  have hfails : seat.BreaksOff c := h.breaksOff (by rw [hphase]; decide)
  obtain ⟨a, hc, -⟩ := h.of_stage hst
  unfold State.ship
  rw [congrArg Seat.config h.seat_eq, h.npes_eq]
  refine speaks_bind.2 (speaks_mapError (fun nchare hn => ?_) hfails)
  refine speaks_bind.2 (speaks_mapError (fun layout hlayout => ?_) hfails)
  obtain ⟨setups, hlaid⟩ := Agenda.exists_laidOut a.rows a.statistics hn hlayout
  generalize hb : Agenda.mk _ setups a.rows a.statistics = b at hlaid
  have hsetup : c = b.upTo seat .setup := by rw [hc, ← hb]; rfl
  have hnext : b.upTo seat .shipping = c ++ [.size b.total] ++ seat.said .assigned := by
    rw [Agenda.upTo_next .setup rfl, ← hsetup, List.append_assoc]
    rfl
  have hbefore : seat.BreaksOff (c ++ [.size b.total]) :=
    hlaid.breaksOff ((List.prefix_append _ (seat.said .assigned)).trans
      (hnext ▸ Agenda.upTo_mono (Nat.le_of_ble_eq_true rfl)))
  have hafter : seat.BreaksOff (b.upTo seat .shipping) :=
    hlaid.breaksOff (Agenda.upTo_mono (Nat.le_of_ble_eq_true rfl))
  refine speaks_bind.2 (speaks_call.2 ?_)
  rw [show sum (s.loads.contributions.map Prod.snd) = b.total from hb ▸ rfl]
  refine speaks_bind.2 (speaks_lift (fun chares _ => ?_) hbefore)
  refine speaks_bind.2 (speaks_lift (fun _ _ => ?_) hbefore)
  refine speaks_bind.2 (h.speaks_report ?_)
  rw [← hnext]
  generalize hpacked : (Shipment.start s.pe layout).pack _ = packed
  have hshipped : packed.2.layout = layout := hpacked ▸ rfl
  refine speaks_bind.2 (speaks_sendEach ?_ hafter)
  refine speaks_bind.2 (speaks_enter.2 (speaks_pure.2 ?_))
  exact h.proceeds h.seat_eq rfl rfl (show b.LaidOut seat packed.2.layout from hshipped ▸ hlaid)
    (fun hle => absurd hle (by show ¬ 5 ≤ 1; decide)) (hphase ▸ Nat.le_refl 1)

theorem takeStock (h : s.OnSchedule seat c) {t : Shipping} {a : Agenda}
    (hphase : s.phase = .shipping) (hc : c = a.upTo seat .shipping)
    (hlaid : a.LaidOut seat t.shipment.layout) : s.Advances seat links c (s.takeStock t) := by
  have hnext : a.upTo seat .indexed = c ++ seat.said .shipped ++ seat.said .indexed := by
    rw [Agenda.upTo_next .shipping rfl, ← hc, List.append_assoc]
    rfl
  have hbefore : seat.BreaksOff (c ++ seat.said .shipped) :=
    hlaid.breaksOff ((List.prefix_append _ (seat.said .indexed)).trans
      (hnext ▸ Agenda.upTo_mono (Nat.le_of_ble_eq_true rfl)))
  have hafter : seat.BreaksOff (a.upTo seat .indexed) :=
    hlaid.breaksOff (Agenda.upTo_mono (Nat.le_of_ble_eq_true rfl))
  unfold State.takeStock
  refine speaks_bind.2 (h.speaks_report ?_)
  refine speaks_bind.2 (speaks_lift (fun holdings hof => ?_) hbefore)
  refine speaks_bind.2 (h.speaks_report ?_)
  rw [← hnext]
  refine speaks_bind.2 (speaks_tellAll ?_ hafter)
  refine speaks_bind.2 (speaks_enter.2 (speaks_pure.2 ?_))
  have hkeys := Holdings.keys_of_eq_ok hof
  rw [h.pe_eq] at hkeys
  exact h.proceeds h.seat_eq rfl rfl (show Stage.Agrees seat a (.indexed _) from ⟨hlaid, hkeys⟩)
    (fun hle => absurd hle (by show ¬ 5 ≤ 3; decide)) (hphase ▸ Nat.le_refl 2)

theorem share (h : s.OnSchedule seat c) {t : Indexed} (hst : s.stage = .indexed t) :
    s.Advances seat links c (s.share t) := by
  have hphase : s.phase = .indexed := congrArg Stage.phase hst
  obtain ⟨a, hc, hlaid, hkeys⟩ := h.of_stage hst
  have hnext : a.upTo seat .numbering = c ++ seat.said .shared := by
    rw [hc]
    exact Agenda.upTo_next _ rfl
  have hafter : seat.BreaksOff (a.upTo seat .numbering) :=
    hlaid.breaksOff (Agenda.upTo_mono (Nat.le_of_ble_eq_true rfl))
  unfold State.share
  refine speaks_bind.2 (speaks_lift (fun sharing _ => ?_) (h.breaksOff (hphase ▸ by decide)))
  refine speaks_bind.2 (h.speaks_report ?_)
  rw [← hnext]
  refine speaks_bind.2 (speaks_tellAll ?_ hafter)
  refine speaks_bind.2 (speaks_enter.2 (speaks_pure.2 ?_))
  exact h.proceeds h.seat_eq rfl rfl (show Stage.Agrees seat a (.numbering _) from ⟨hlaid, hkeys⟩)
    (fun hle => absurd hle (by show ¬ 5 ≤ 4; decide)) (hphase ▸ Nat.le_refl 3)

theorem relabel (h : s.OnSchedule seat c) {t : Reordering} {base : Nat} {a : Agenda}
    (hphase : s.phase = .numbering) (hc : c = a.upTo seat .numbering)
    (hlaid : a.LaidOut seat t.layout)
    (hkeys : t.nodes.keys.elems = (t.layout.owned seat.pe).elems)
    (hcounted : s.offsets.isComplete = true) : s.Advances seat links c (s.relabel t base) := by
  have hnext : a.upTo seat .bounding = c ++ seat.said .numbered := by
    rw [hc]
    exact Agenda.upTo_next _ rfl
  have hafter : seat.BreaksOff (a.upTo seat .bounding) := hlaid.breaksOff (List.prefix_refl _)
  unfold State.relabel
  refine speaks_bind.2 (speaks_lift (fun relabelling hof => ?_)
    (h.breaksOff (hphase ▸ by decide)))
  refine speaks_bind.2 (h.speaks_report ?_)
  rw [← hnext]
  have hrest : ∀ upper lower, s.Advances seat links (a.upTo seat .bounding) (do
      enter .bounding
      return { s with
        stage := .bounding ⟨t.layout, t.numbering, base, t.sharing.own, relabelling, upper⟩
        lower } : Script State) := by
    intro upper lower
    refine speaks_bind.2 (speaks_enter.2 (speaks_pure.2 ?_))
    exact h.proceeds h.seat_eq rfl rfl (show Stage.Agrees seat a (.bounding _) from
      ⟨hlaid, (congrArg NatSet.elems (Relabelling.keys_of hof)).trans hkeys⟩)
      (fun _ => hcounted) (hphase ▸ Nat.le_refl 4)
  show s.Advances seat links _ (if s.pe + 1 < s.npes then _ else _)
  split
  · exact speaks_bind.2 (speaks_send (hrest _ _) hafter)
  · exact hrest _ _

theorem employ (h : s.OnSchedule seat c) {t : Bounding} {lower : Nat}
    (hst : s.stage = .bounding t) : s.Advances seat links c (s.employ t lower) := by
  -- The handover makes nothing but calls, so it is not left half done.
  have hphase : s.phase = .bounding := congrArg Stage.phase hst
  obtain ⟨a, hc, hlaid, hkeys⟩ := h.of_stage hst
  generalize hsetups : t.relabelling.setups seat.pe t.layout.nchare = setups
  obtain ⟨b, hb⟩ : ∃ b : Agenda, b = ⟨a.total, setups, ⟨lower, t.upper⟩, a.statistics⟩ :=
    ⟨_, rfl⟩
  have hcrew : b.LaidOut seat t.layout := by
    subst hb hsetups
    exact ⟨hlaid.forMesh, hlaid.layout, Relabelling.map_chare_setups.trans hkeys,
      fun w => Relabelling.of_mem_setups⟩
  have hnext : b.upTo seat .costing = c ++ seat.said .bounded ++ setups.map .worker ++ [.crew] ++
      [.rows ⟨⟨lower, t.upper⟩, seat.pe⟩] ++ [.ready] := by
    have hbefore : b.upTo seat .bounding = c := by rw [hc, hb]; rfl
    rw [Agenda.upTo_next .bounding rfl, hbefore, hb]
    simp [Agenda.block, Agenda.blocks, Phase.rank]
  unfold State.employ
  rw [h.pe_eq, hsetups]
  refine speaks_bind.2 (h.speaks_report (speaks_bind.2 (speaks_calls ?_)))
  refine speaks_bind.2 (speaks_call.2 (speaks_bind.2 (speaks_call.2 ?_)))
  refine speaks_bind.2 (speaks_call.2 ?_)
  rw [← hnext]
  refine speaks_bind.2 (speaks_tellAll ?_ ⟨b, Agenda.begins_costing hcrew⟩)
  refine speaks_bind.2 (speaks_enter.2 (speaks_pure.2 ?_))
  exact h.proceeds h.seat_eq rfl rfl (show Stage.Agrees seat b (.costing _) from
    ⟨hcrew, hb ▸ rfl⟩) (fun _ => h.counted (by rw [State.mark, hst]; exact Nat.le_succ 5))
    (hphase ▸ Nat.le_refl 5)

theorem finish (h : s.OnSchedule seat c) {t : Costing} {statistics : CostStatistics} {a : Agenda}
    (hphase : s.phase = .costing) (hc : c = a.upTo seat .costing) (hlaid : a.LaidOut seat t.layout)
    (hrows : a.rows = t.rows) (hcounted : s.offsets.isComplete = true) :
    s.Advances seat links c (s.finish t statistics) := by
  -- The counts add up by now, so the very last step cannot fail.
  obtain ⟨b, hb⟩ : ∃ b : Agenda, b = ⟨a.total, a.setups, a.rows, statistics⟩ := ⟨_, rfl⟩
  have hlast : b.LaidOut seat t.layout := by
    subst hb
    exact ⟨hlaid.forMesh, hlaid.layout, hlaid.chares, hlaid.setups⟩
  have hnext : b.upTo seat .done = c ++ [.statistics statistics] ++ [.finished] := by
    have hbefore : b.upTo seat .costing = c := by rw [hc, hb]; rfl
    rw [Agenda.upTo_next .costing rfl, hbefore, hb, List.append_assoc]
    rfl
  have htotal : s.offsets.total? = some (sum (s.offsets.counts.contributions.map Prod.snd)) :=
    if_pos hcounted
  unfold State.finish
  refine speaks_bind.2 (speaks_call.2 (speaks_bind.2 (speaks_call.2 ?_)))
  refine speaks_bind.2 (speaks_enter.2 ?_)
  rw [htotal, ← hnext]
  refine speaks_pure.2 (h.proceeds h.seat_eq rfl rfl (show Stage.Agrees seat b (.done _) from
    ⟨⟨_, hlast⟩, ?_, ?_⟩) (fun _ => hcounted) (hphase ▸ Nat.le_refl 6))
  · rw [hb]
    exact hrows
  · rw [hb]

theorem announce {t : Shipping} {Q : List Call → Prop} (hQ : Q c) : (s.announce t).Speaks links c
    (fun t' c' => t'.shipment = t.shipment ∧ c' = c) Q := by
  unfold State.announce
  split
  · exact speaks_bind.2 (speaks_tellAll (speaks_pure.2 ⟨rfl, rfl⟩) hQ)
  · exact speaks_pure.2 ⟨rfl, rfl⟩

theorem number {t : Reordering} {Q : List Call → Prop} (hQ : Q c) : (s.number t).Speaks links c
    (fun t' c' => (t'.layout = t.layout ∧ t'.nodes = t.nodes ∧ (t'.numbering.isGivenOut = true →
      t.numbering.isGivenOut = true ∨ s.offsets.isComplete = true)) ∧ c' = c) Q := by
  -- Own ids are given out only when all counts are in.
  unfold State.number
  split
  · exact speaks_pure.2 ⟨⟨rfl, rfl, .inl⟩, rfl⟩
  · next base hbase =>
    have hcounted : s.offsets.isComplete = true := by
      unfold Offsets.base? at hbase
      split at hbase
      · assumption
      · cases hbase
    split
    · exact speaks_pure.2 ⟨⟨rfl, rfl, .inl⟩, rfl⟩
    · refine speaks_bind.2 (speaks_lift (fun answers _ => ?_) hQ)
      refine speaks_bind.2 (speaks_sendEach (speaks_bind.2 (speaks_sendEach ?_ hQ)) hQ)
      exact speaks_pure.2 ⟨⟨rfl, rfl, fun _ => .inr hcounted⟩, rfl⟩

theorem compare {t : Costing} {Q : List Call → Prop} (hQ : Q c) : (s.compare t).Speaks links c
    (fun t' c' => (t'.layout = t.layout ∧ t'.rows = t.rows) ∧ c' = c) Q := by
  unfold State.compare
  split
  · exact speaks_pure.2 ⟨⟨rfl, rfl⟩, rfl⟩
  · split
    · exact speaks_pure.2 ⟨⟨rfl, rfl⟩, rfl⟩
    · exact speaks_bind.2 (speaks_tellAll (speaks_pure.2 ⟨⟨rfl, rfl⟩, rfl⟩) hQ)

theorem work_shipping (h : s.OnSchedule seat c) {t : Shipping} (hst : s.stage = .shipping t) :
    s.Advances seat links c s.work := by
  have hphase : s.phase = .shipping := congrArg Stage.phase hst
  obtain ⟨a, hc, hlaid⟩ := h.of_stage hst
  unfold State.work
  rw [hst]
  refine speaks_bind.2 ((announce (h.breaksOff (hphase ▸ by decide))).mono ?_)
  rintro t' c ⟨hshipment, rfl⟩
  split
  · exact h.takeStock hphase hc (hshipment ▸ hlaid)
  · exact speaks_pure.2 (h.reship hst (congrArg Shipment.layout hshipment)).proceeds

theorem work_numbering (h : s.OnSchedule seat c) {t : Reordering}
    (hst : s.stage = .numbering t) : s.Advances seat links c s.work := by
  have hphase : s.phase = .numbering := congrArg Stage.phase hst
  obtain ⟨a, hc, hlaid, hkeys⟩ := h.of_stage hst
  unfold State.work
  rw [hst]
  refine speaks_bind.2 ((number (h.breaksOff (hphase ▸ by decide))).mono ?_)
  rintro t' c ⟨⟨hlayout, hnodes, hgiven⟩, rfl⟩
  have hcounted : t'.numbering.isGivenOut = true → s.offsets.isComplete = true := by
    refine fun hg => (hgiven hg).elim (fun hg => h.counted ?_) id
    rw [State.mark, hst, Stage.mark, if_pos hg]
  have hstays : s.Stays { s with stage := .numbering t' } seat c := by
    refine h.restage hst rfl (fun a ha => ?_) fun hle => ?_
    · simpa only [Stage.Agrees, hlayout, hnodes] using ha
    · simp only [Stage.mark] at hle
      split at hle
      · next hg => exact hcounted hg
      · exact absurd hle (by decide)
  split
  · next base hbase =>
    split
    · exact h.relabel hphase hc (hlayout ▸ hlaid) (by rw [hlayout, hnodes]; exact hkeys)
        (hcounted (by rw [Numbering.isGivenOut, hbase]; rfl))
    · exact speaks_pure.2 hstays.proceeds
  · exact speaks_pure.2 hstays.proceeds

theorem work_costing (h : s.OnSchedule seat c) {t : Costing} (hst : s.stage = .costing t) :
    s.Advances seat links c s.work := by
  have hphase : s.phase = .costing := congrArg Stage.phase hst
  obtain ⟨a, hc, hlaid, hrows⟩ := h.of_stage hst
  have hcounted : s.offsets.isComplete = true := h.counted <| by
    rw [State.mark, hst, Stage.mark]
    split <;> decide
  unfold State.work
  rw [hst]
  refine speaks_bind.2 ((compare (h.breaksOff (hphase ▸ by decide))).mono ?_)
  rintro t' c ⟨⟨hlayout, hsame⟩, rfl⟩
  split
  · exact h.finish hphase hc (hlayout ▸ hlaid) (hrows.trans hsame.symm) hcounted
  · refine speaks_pure.2 (State.Stays.proceeds (h.restage hst rfl (fun a ha => ?_)
      fun _ => hcounted))
    simpa only [Stage.Agrees, hlayout, hsame] using ha

theorem work (h : s.OnSchedule seat c) : s.Advances seat links c s.work := by
  have hidle : s.Advances seat links c (pure s) := speaks_pure.2 h.refl.proceeds
  cases hst : s.stage with
  | shipping t => exact h.work_shipping hst
  | numbering t => exact h.work_numbering hst
  | costing t => exact h.work_costing hst
  | setup t =>
    simp only [State.work, hst]
    split
    · exact h.ship hst
    · exact hidle
  | indexed t =>
    simp only [State.work, hst]
    split
    · exact h.share hst
    · exact hidle
  | bounding t =>
    simp only [State.work, hst]
    split
    · exact h.employ hst
    · exact hidle
  | done outcome =>
    simp only [State.work, hst]
    exact hidle

/-! Acting on messages. -/

theorem agrees_withNumbering {x : Stage} {a : Agenda} {r r' : Numbering}
    (hr : x.numbering? = some r) (h : x.Agrees seat a) : (x.withNumbering r').Agrees seat a := by
  cases x <;> first | cases hr; done | exact h

theorem renumber (h : s.OnSchedule seat c) {r r' : Numbering} (hr : s.stage.numbering? = some r)
    (hgiven : r'.isGivenOut = r.isGivenOut) :
    s.Stays { s with stage := s.stage.withNumbering r' } seat c :=
  h.stays rfl rfl rfl Stage.phase_withNumbering (fun _ => agrees_withNumbering hr)
    fun hle => h.counted (hle.trans_eq (Stage.mark_withNumbering hr hgiven))

theorem record (h : s.OnSchedule seat c) {q count : Nat} (hq : q < seat.npes) {offsets : Offsets}
    (hr : s.offsets.record q count = .ok offsets) : s.Stays { s with offsets } seat c := by
  obtain ⟨counts, hcounts, rfl⟩ := map_eq_ok hr
  refine ⟨⟨h.seat_eq, h.agenda, h.offsets.record hcounts hq trivial, fun hle => ?_, h.senders⟩,
    rfl, rfl⟩
  exact absurd hcounts (h.offsets.record_ne_ok (h.counted hle) hq)

theorem speaks_stays (hfails : seat.BreaksOff c) {α : Type} {r : Except Fault α}
    {make : α → State} (hstays : ∀ a, r = .ok a → s.Stays (make a) seat c) :
    (liftM r >>= fun a => pure (make a) : Script State).Speaks links c
      (fun s' c' => s.Stays s' seat c' ∧ c' = c) seat.BreaksOff :=
  speaks_bind.2 (speaks_lift (fun a ha => speaks_pure.2 ⟨hstays a ha, rfl⟩) hfails)

theorem react (h : s.OnSchedule seat c) (hfails : seat.BreaksOff c) {m : Message}
    (hm : m.sender < seat.npes) {reaction : Script State} (hr : s.react m = some reaction) :
    reaction.Speaks links c (fun s' c' => s.Stays s' seat c' ∧ c' = c) seat.BreaksOff := by
  cases m with
  | load | delivered | cost | deviation =>
    obtain rfl := Option.some.inj hr
    exact speaks_stays hfails fun a _ => h.stays rfl rfl rfl rfl (fun _ => id) h.counted
  | offset =>
    obtain rfl := Option.some.inj hr
    exact speaks_stays hfails fun a => h.record hm
  | abort =>
    obtain rfl := Option.some.inj hr
    exact speaks_fail.2 hfails
  | batch =>
    simp only [State.react] at hr
    split at hr
    · next t hst =>
      obtain rfl := Option.some.inj hr
      refine speaks_bind.2 (speaks_lift (fun shipment hx => ?_) hfails)
      obtain ⟨-, -, -, rfl⟩ := Shipment.unpack_eq_ok_iff.1 hx
      exact speaks_bind.2 (speaks_send (speaks_pure.2 ⟨h.reship hst rfl, rfl⟩) hfails)
    · cases hr
  | receipt =>
    simp only [State.react] at hr
    split at hr
    · next t hst =>
      obtain rfl := Option.some.inj hr
      refine speaks_stays hfails fun shipment hx => ?_
      obtain ⟨-, rfl⟩ := Shipment.book_eq_ok_iff.1 hx
      exact h.reship hst rfl
    · cases hr
  | mask =>
    simp only [State.react] at hr
    split at hr
    · next t hst =>
      obtain rfl := Option.some.inj hr
      exact speaks_stays hfails fun masks _ => h.restage hst rfl (fun _ => id)
        fun hle => absurd hle (by show ¬ 5 ≤ 3; decide)
    · cases hr
  | query =>
    obtain ⟨g, -, rfl⟩ := Option.map_eq_some_iff.1 hr
    refine speaks_bind.2 (speaks_lift (fun queries _ => ?_) hfails)
    exact speaks_bind.2 (speaks_send
      (speaks_pure.2 ⟨h.stays rfl rfl rfl rfl (fun _ => id) h.counted, rfl⟩) hfails)
  | request =>
    obtain ⟨r, hnumbering, rfl⟩ := Option.map_eq_some_iff.1 hr
    refine speaks_bind.2 (speaks_lift (fun asked hask => ?_) hfails)
    obtain ⟨answer, r'⟩ := asked
    obtain ⟨⟨queued, rfl⟩, -⟩ := Numbering.of_ask hask
    have hstays : s.Stays { s with stage := s.stage.withNumbering { r with queued } } seat c :=
      h.renumber hnumbering rfl
    cases answer with
    | none => exact speaks_pure.2 ⟨hstays, rfl⟩
    | some ids => exact speaks_bind.2 (speaks_send (speaks_pure.2 ⟨hstays, rfl⟩) hfails)
  | assigned =>
    obtain ⟨r, hnumbering, rfl⟩ := Option.map_eq_some_iff.1 hr
    unfold State.absorb
    split
    · exact speaks_fail.2 hfails
    · next r' hlearn =>
      obtain ⟨ids, rfl, -⟩ := Numbering.of_absorb hlearn
      exact speaks_pure.2 ⟨h.renumber hnumbering rfl, rfl⟩
  | lower =>
    simp only [State.react] at hr
    split at hr
    · split at hr
      · obtain rfl := Option.some.inj hr
        exact speaks_pure.2 ⟨h.stays rfl rfl rfl rfl (fun _ => id) h.counted, rfl⟩
      · obtain rfl := Option.some.inj hr
        exact speaks_fail.2 hfails
    · cases hr

theorem take (h : s.OnSchedule seat c) (hphase : s.phase ≠ .done) {m : Message}
    (hm : m.sender < seat.npes) : (s.take m).Speaks links c
      (fun s' c' => (s'.OnSchedule seat c ∧ s'.phase = s.phase ∧ (s.Patient → s'.Patient)) ∧
        c' = c) seat.BreaksOff := by
  have hfails := h.breaksOff hphase
  unfold State.take
  split
  · next reaction hr =>
    refine speaks_bind.2 ((h.react hfails hm hr).mono ?_)
    rintro s' c ⟨hstays, rfl⟩
    refine speaks_bind.2 (speaks_accept.2 (speaks_pure.2 ⟨⟨hstays.onSchedule, hstays.phase_eq, ?_⟩,
      rfl⟩))
    unfold State.Patient
    rw [hstays.phase_eq, hstays.backlog_eq]
    exact id
  · split
    · next hearly =>
      refine speaks_pure.2 ⟨⟨⟨h.seat_eq, h.agenda, h.offsets, h.counted, ?_⟩, rfl, ?_⟩, rfl⟩
      · exact List.forall_mem_append.2 ⟨h.senders, List.forall_mem_singleton.2 hm⟩
      · exact fun hpatient => List.forall_mem_append.2 ⟨hpatient,
          List.forall_mem_singleton.2 hearly⟩
    · exact speaks_fail.2 hfails

theorem takeAll (h : s.OnSchedule seat c) (hphase : s.phase ≠ .done) (hpatient : s.Patient)
    {l : List Message} (hl : ∀ m ∈ l, m.sender < seat.npes) : (l.foldlM State.take s).Speaks links c
      (fun s' c' => (s'.OnSchedule seat c ∧ s'.phase = s.phase ∧ s'.Patient) ∧ c' = c)
      seat.BreaksOff := by
  induction l generalizing s with
  | nil => exact speaks_pure.2 ⟨⟨h, rfl, hpatient⟩, rfl⟩
  | cons m l ih =>
    obtain ⟨hm, hl⟩ := List.forall_mem_cons.1 hl
    rw [List.foldlM_cons]
    refine speaks_bind.2 ((h.take hphase hm).mono ?_)
    rintro s' c ⟨⟨hs', hphase', hpatient'⟩, rfl⟩
    refine (ih hs' (hphase' ▸ hphase) (hpatient' hpatient) hl).mono ?_
    rintro s'' c ⟨⟨hs'', hphase'', hpatient''⟩, rfl⟩
    exact ⟨⟨hs'', hphase''.trans hphase', hpatient''⟩, rfl⟩

theorem retire (h : s.OnSchedule seat c) : s.Stays s.retire seat c := by
  unfold State.retire
  split
  · exact h.stays rfl rfl rfl rfl (fun _ => id) h.counted
  · exact h.refl

theorem settle {n : Nat} (h : s.OnSchedule seat c) (hpatient : s.Patient) :
    (State.settle n s).Settles seat links c := by
  -- Nothing waits for long: when the last phase is entered there is nothing left that has to be
  -- acted on.
  induction n generalizing s c with
  | zero => exact speaks_pure.2 ⟨h, hpatient⟩
  | succ n ih =>
    unfold State.settle State.proceed
    refine speaks_bind.2 (speaks_bind.2 (h.work.mono ?_))
    intro w c hw
    have hretired := hw.onSchedule.retire
    have hback : w.retire.backlog = s.backlog := hretired.backlog_eq.trans hw.backlog_eq
    refine speaks_pure.2 ?_
    split
    · next hsame =>
      refine speaks_pure.2 ⟨hretired.onSchedule, ?_⟩
      unfold State.Patient
      rwa [hback, hsame]
    · have hcleared : State.OnSchedule { w.retire with backlog := [] } seat c :=
        { hretired.onSchedule with senders := fun m hm => absurd hm List.not_mem_nil }
      have hwaits : State.Patient { w.retire with backlog := [] } := fun m hm =>
        absurd hm List.not_mem_nil
      unfold State.replay
      rw [hback]
      refine speaks_bind.2 ?_
      by_cases hdone : w.phase = .done
      · -- What is kept waits for the numbering at the latest.
        have hempty : s.backlog = [] := by
          refine List.eq_nil_iff_forall_not_mem.2 fun m hm => ?_
          have hearly : s.phase.rank < m.kind.opening.rank := hpatient m hm
          have hopening : m.kind.opening.rank ≤ 3 := by cases m.kind <;> decide
          have hrank := hw.rank_le
          rw [hdone] at hrank
          have hlast : 6 ≤ s.phase.rank + 1 := hrank
          omega
        rw [hempty]
        exact speaks_pure.2 (ih hcleared hwaits)
      · have hphase : State.phase { w.retire with backlog := [] } ≠ .done :=
          hretired.phase_eq.trans_ne hdone
        refine (hcleared.takeAll hphase hwaits h.senders).mono ?_
        rintro t c ⟨⟨ht, -, hpatient'⟩, rfl⟩
        exact ih ht hpatient'

theorem hear (h : s.OnSchedule seat c) (hpatient : s.Patient) (hphase : s.phase ≠ .done) {q : Nat}
    (hq : q < seat.npes) (frame : Frame) : (s.hear q frame).Settles seat links c := by
  have hfails := h.breaksOff hphase
  unfold State.hear
  refine speaks_bind.2 (speaks_mapError (fun m _ => ?_) hfails)
  split
  · next hsender =>
    refine speaks_bind.2 ((h.take hphase (hsender ▸ hq)).mono ?_)
    rintro t c ⟨⟨ht, -, hpatient'⟩, rfl⟩
    exact ht.settle (hpatient' hpatient)
  · exact speaks_fail.2 hfails

end State.OnSchedule

theorem State.onSchedule_start {seat : Seat} {t : Setup} (a : Agenda) :
    (State.start seat t).OnSchedule seat (a.upTo seat .setup) ∧ (State.start seat t).Patient := by
  have hempty : (State.start seat t).backlog = [] := rfl
  refine ⟨⟨rfl, ⟨a, rfl, trivial⟩, RollCall.tallies_start, fun hle => ?_, ?_⟩, ?_⟩
  · exact absurd hle (show ¬ 5 ≤ 0 by decide)
  · rw [hempty]
    exact List.forall_mem_nil _
  · unfold State.Patient
    rw [hempty]
    exact List.forall_mem_nil _

theorem State.settles_begin {seat : Seat} {reader : Reader} {links : Links} :
    (State.begin seat reader).Settles seat links [] := by
  obtain ⟨a⟩ : Nonempty Agenda := inferInstance
  have hfirst : seat.BreaksOff [] := ⟨a, a.begins_of_setup List.nil_prefix⟩
  have hsaid : a.upTo seat .setup = [] ++ seat.said .read := by
    simp [Agenda.upTo, Agenda.blocks, Phase.rank]
  have hrest : ∀ chunk centroids, (do
      let s := State.start seat ⟨chunk, centroids⟩
      s.report .read
      s.tellAll (.load s.pe chunk.size)
      return s : Script State).Settles seat links [] := by
    intro chunk centroids
    refine speaks_bind.2 (State.speaks_report ?_)
    show Script.Speaks _ links ([] ++ seat.said .read) _ _
    rw [← hsaid]
    exact speaks_bind.2 (speaks_tellAll (speaks_pure.2 (onSchedule_start a))
      ⟨a, a.begins_of_setup (List.prefix_refl _)⟩)
  unfold State.begin
  refine speaks_bind.2 (speaks_mapError (fun _ _ => ?_) hfirst)
  refine speaks_bind.2 (speaks_lift (fun chunk _ => ?_) hfirst)
  show (if seat.config.algorithm.needsCentroids then _ else _ : Script State).Settles _ _ _
  split
  · exact speaks_bind.2 (speaks_lift (fun centroids _ => hrest chunk centroids) hfirst)
  · exact speaks_bind.2 (speaks_pure.2 (hrest chunk .empty))

end MeshNumbering
