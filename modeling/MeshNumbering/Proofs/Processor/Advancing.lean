import MeshNumbering.Proofs.Mesh.Centroid
import MeshNumbering.Proofs.Message.RoundTrip
import MeshNumbering.Proofs.Processor.Scripts
import MeshNumbering.Proofs.Processor.Standing
import MeshNumbering.Proofs.Strategy

/-! Moving on keeps a processor in order. Each mark has one step that leads to it; a step is made
when everything needed for the mark has been heard, and it sends what is due from then on. -/

namespace MeshNumbering

namespace History
variable {h h₁ h₂ : List Event} {l l' : List (Nat × Message)}

theorem adds_report {b : Bool} {m : Milestone} :
    Adds h (if b then h ++ [.called (.milestone m)] else h) [] [] := by
  split
  · exact adds_milestone
  · exact .refl h

theorem Adds.quiet_trans (ha : Adds h h₁ [] []) {c : List Call} (hb : Adds h₁ h₂ l c) :
    Adds h h₂ l c := ha.trans hb

theorem Adds.trans_quiet {c : List Call} (ha : Adds h h₁ l c) (hb : Adds h₁ h₂ [] []) :
    Adds h h₂ l c := by
  simpa using ha.trans hb

end History

theorem Strategy.verify_eq_error {chares : List Nat} {count nchare : Nat} {e : Fault}
    (h : verify chares count nchare = .error e) :
    e.isRemote = false ∧ e.isMisdelivery = false := by
  unfold verify at h
  split at h
  · obtain rfl := Except.error.inj h
    exact ⟨rfl, rfl⟩
  · split at h
    · obtain rfl := Except.error.inj h
      exact ⟨rfl, rfl⟩
    · cases h

namespace Scenario
variable {t : Scenario} {pe : Nat}

theorem reported_of_read {e : Fault} (h : Chunk.read t.reader pe t.npes = .error e) :
    t.Reported pe e ∨ ∃ cause, e = .mesh cause := by
  rcases Chunk.read_eq_error h with hcount | ⟨count, hcount, hsize, helements⟩ | hmesh
  · exact .inl (.count hcount)
  · exact .inl (.elements hcount hsize helements)
  · exact .inr hmesh

theorem reported_of_plan {e : Fault}
    (h : t.planner (t.centroids pe) (t.chunk pe).elements (t.load pe) t.layout.nchare =
      .error e) : t.Reported pe e ∨ ∃ cause, e = .strategy cause := by
  unfold planner at h
  cases hs : t.strategy with
  | none =>
    rw [hs] at h
    exact .inr (Algorithm.strategy_eq_error h)
  | some s =>
    rw [hs] at h
    exact .inl (.strategy hs h)

theorem Reported.flaw {e : Fault} (h : t.Reported pe e) : t.Flaw pe e := by
  cases h with
  | count h =>
    apply Flaw.chunk
    rw [Chunk.read_eq_bind, h]
    rfl
  | elements hcount hsize h =>
    apply Flaw.chunk
    rw [Chunk.read_eq_bind, hcount, ok_bind, if_neg hsize, h]
    rfl
  | coordinates needs hrange h =>
    apply Flaw.centroids needs
    unfold Chunk.readCentroids
    rw [hrange]
    dsimp only
    rw [h]
    rfl
  | strategy hs h =>
    apply Flaw.strategy
    unfold planner
    rwa [hs]

theorem Flaw.innocent {e : Fault} (hf : t.Flaw pe e) :
    t.Reported pe e ∨ e.isRemote = false ∧ e.isMisdelivery = false := by
  cases hf with
  | chunk h =>
    rcases reported_of_read h with hreported | ⟨cause, rfl⟩
    · exact .inl hreported
    · exact .inr ⟨rfl, rfl⟩
  | centroids needs h =>
    rcases Chunk.readCentroids_eq_error h with ⟨lo, hi, hrange, hreader⟩ | ⟨cause, rfl⟩
    · exact .inl (.coordinates needs hrange hreader)
    · exact .inr ⟨rfl, rfl⟩
  | strategy h =>
    rcases reported_of_plan h with hreported | ⟨cause, rfl⟩
    · exact .inl hreported
    · exact .inr ⟨rfl, rfl⟩
  | assignment hc h => exact .inr (Strategy.verify_eq_error h)
  | _ => exact .inr ⟨rfl, rfl⟩

end Scenario

namespace State
open History Script

def Settled (s : State) (t : Scenario) (pe : Nat) (h : List Event) : Prop :=
  ∃ k q, t.Passes k q pe ∧ k.neededFor = s.mark + 1 ∧ ¬ Heard h k q

def Fails (t : Scenario) (once : Prop) (pe : Nat) (e : Fault) (h : List Event) : Prop :=
  (∃ μ ≤ 6, Record t once pe μ h) ∧ (t.Reported pe e ∨ e.isRemote = false) ∧
    (once → t.Flaw pe e)

variable {s : State} {t : Scenario} {once : Prop} {pe μ : Nat} {h h₀ : List Event}
  {k : MessageKind}

theorem leads_reported {m : Milestone} {P : Unit → List Event → Prop}
    {Q : Fault → List Event → Prop} (hP : ∀ h', Adds h h' [] [] → P () h') :
    (s.report m).Leads h P Q := leads_report.2 (hP _ adds_report)

theorem leads_round (t : Scenario) (once : Prop) (pe : Nat) {β : Type} {make : β → Message}
    {l : List (Nat × β)} {l₀ : List (Nat × Message)} {P : Unit → List Event → Prop}
    {Q : Fault → List Event → Prop}
    (ha₀ : Adds h₀ h l₀ []) (hk : k.saidFrom = μ) (hnodup : once → (l.map Prod.fst).Nodup)
    (hl : ∀ e ∈ l, make e.2 = t.message k pe e.1 ∧ t.Passes k pe e.1 ∧
      ∀ k', k.answers? = some k' → Heard h₀ k' e.1)
    (hP : ∀ h', Adds h₀ h' (l₀ ++ l.map fun e => (e.1, make e.2)) [] →
      t.Round once pe μ h₀ (l.map fun e => (e.1, make e.2)) →
      (∀ x ∈ l.map fun e => (e.1, make e.2), x.2.kind = k) → P () h')
    (hQ : ∀ h' l' e, Adds h₀ h' (l₀ ++ l') [] → t.Round once pe μ h₀ l' → (∀ x ∈ l', x.2.kind = k) →
      t.Flaw pe (.frame e) → Q (.frame e) h') :
    (sendEach make l).Leads h P Q := by
  -- What has been sent when a message turns out to have no frame is a round, too.
  have hround : ∀ done, done <+: l → (∀ e ∈ done, (make e.2).unfit? = none) →
      t.Round once pe μ h₀ (done.map fun e => (e.1, make e.2)) := by
    intro done hpre hfits
    refine .of_kind hk (fun ho => ?_) fun q m hm => ?_
    · rw [List.map_map]
      exact (hnodup ho).sublist (hpre.sublist.map _)
    · obtain ⟨e, he, heq⟩ := List.mem_map.1 hm
      obtain ⟨rfl, rfl⟩ := Prod.mk.inj heq
      obtain ⟨hg, hp, ha⟩ := hl e (hpre.subset he)
      exact ⟨hg, hp, hfits e he, ha⟩
  have hkind : ∀ done, done <+: l → ∀ x ∈ done.map fun e => (e.1, make e.2), x.2.kind = k := by
    intro done hpre x hx
    obtain ⟨e, he, rfl⟩ := List.mem_map.1 hx
    rw [(hl e (hpre.subset he)).1, Scenario.kind_message]
  refine leads_sendEach (fun done h' => Adds h₀ h' (l₀ ++ done.map fun e => (e.1, make e.2)) [] ∧
    ∀ e ∈ done, (make e.2).unfit? = none) ⟨by simpa using ha₀, by simp⟩ ?_ ?_ ?_
  · rintro done peer b rest h' - ⟨ha, hfits⟩ hfit
    refine ⟨?_, List.forall_mem_append.2 ⟨hfits, by simpa using hfit⟩⟩
    rw [List.map_append, ← List.append_assoc]
    exact ha.trans adds_send
  · rintro h' ⟨ha, hfits⟩
    exact hP h' ha (hround l (List.prefix_refl l) hfits) (hkind l (List.prefix_refl l))
  · rintro done peer b rest h' e hsplit ⟨ha, hfits⟩ hunfit
    have hpre : done <+: l := ⟨_, hsplit⟩
    have hin : (peer, b) ∈ l := hsplit ▸ List.mem_append_right _ (List.mem_cons_self ..)
    obtain ⟨hg, hp, -⟩ := hl _ hin
    have hflaw : t.Flaw pe (.frame e) := .unfit hp (hg ▸ hunfit)
    exact hQ h' _ e ha (hround done hpre hfits) (hkind done hpre) hflaw

theorem leads_tellAll (once : Prop) {m : Message} {c : List Call} {P : Unit → List Event → Prop}
    {Q : Fault → List Event → Prop} (ha₀ : Adds h₀ h [] c) (hpe : pe < t.npes)
    (hnpes : s.npes = t.npes) (hk : k.saidFrom = μ)
    (hm : ∀ q < t.npes, m = t.message k pe q ∧ t.Passes k pe q) (hans : k.answers? = none)
    (hP : ∀ h', Adds h₀ h' ((List.range t.npes).map fun q => (q, m)) c →
      t.Round once pe μ h₀ ((List.range t.npes).map fun q => (q, m)) → P () h')
    (hQ : ∀ e, m.unfit? = some e → t.Flaw pe (.frame e) → Q (.frame e) h) :
    (s.tellAll m).Leads h P Q := by
  refine leads_sendAll (fun hfits => ?_) fun e he => ?_
  rotate_left
  · obtain ⟨hg, hp⟩ := hm pe hpe
    exact hQ e he (.unfit hp (hg ▸ he))
  rw [hnpes] at hfits ⊢
  have hfits : m.unfit? = none := hfits.resolve_right fun hnil =>
    Nat.ne_of_gt (Nat.zero_lt_of_lt hpe) (List.range_eq_nil.1 hnil)
  refine hP _ ?_ (.of_kind hk (fun _ => ?_) fun q m' hm' => ?_)
  · simpa using ha₀.trans (adds_sends (List.range t.npes) id fun _ => m)
  · simpa [Function.comp_def] using List.nodup_range
  · obtain ⟨q', hq', heq⟩ := List.mem_map.1 hm'
    obtain ⟨rfl, rfl⟩ := Prod.mk.inj heq
    obtain ⟨hg, hp⟩ := hm q' (List.mem_range.1 hq')
    exact ⟨hg, hp, hfits, fun k' hk' => by rw [hans] at hk'; cases hk'⟩

theorem Fails.of_quiet (hr : Record t once pe μ h₀) (hμ : μ ≤ 6) (ha : Adds h₀ h [] [])
    {e : Fault} (he : t.Flaw pe e) : Fails t once pe e h :=
  ⟨⟨μ, hμ, hr.quiet ha⟩, he.innocent.imp_right And.left, fun _ => he⟩

structure Enters (s s' : State) (t : Scenario) (once : Prop) (pe : Nat)
    (h : List Event) : Prop where
  live : s'.Live t once pe [] h
  backlog_eq : s'.backlog = s.backlog
  rank_eq : s'.phase.rank = s.phase.rank + 1

theorem At.serve (hat : s.At t pe (Heard h) once) (hmark : s.mark = 2)
    (hno : ∀ q, ¬ Heard h .mask q) : State.At { s with
      stage := .indexed ⟨t.layout, t.nodes pe, t.holdings pe, .start .mask t.npes⟩
      serving := some (t.holdings pe) } t pe (Heard h) once where
  seat_eq := hat.seat_eq
  stage := ⟨rfl, rfl, rfl, RollCall.holds_start.congr fun q => by simp [hno q]⟩
  keeps k := by
    have hk := hat.keeps k
    cases k with
    | query => exact ⟨hk.1, fun hn => by cases hn⟩
    | lower =>
      intro r
      refine (hk r).trans (and_congr_right fun _ => or_congr_left (and_congr_right fun _ => ?_))
      show 6 ≤ s.mark ↔ 6 ≤ 3
      omega
    | _ => exact hk
  serving g hg := ⟨(Option.some.inj hg).symm, Nat.le_refl 3⟩
  offsets_pe := hat.offsets_pe
  costs_pe := hat.costs_pe

theorem At.bound {heard : MessageKind → Nat → Prop} (hat : s.At t pe heard once)
    (hmark : s.mark = 5) {r : Numbering}
    (hr : r.At t pe (heard .request) (heard .assigned) true once) : State.At { s with
      stage := .bounding ⟨t.layout, r, t.base pe, t.own pe, t.relabelling pe, t.upper pe⟩
      lower := if pe = 0 then some 0 else s.lower } t pe heard once where
  seat_eq := hat.seat_eq
  stage := ⟨rfl, rfl, rfl, rfl, rfl, hr⟩
  keeps k := by
    have hk := hat.keeps k
    cases k with
    | query => exact ⟨hk.1, fun hn => (hk.2 hn).imp_left fun h3 => by omega⟩
    | lower =>
      intro row
      by_cases h0 : pe = 0
      · subst h0
        show some 0 = some row ↔ _
        rw [Option.some.injEq, eq_comm]
        exact (and_iff_left (.inl ⟨rfl, Nat.le_refl 6⟩)).symm
      · show (if pe = 0 then some 0 else s.lower) = some row ↔ _
        rw [if_neg h0]
        refine (hk row).trans (and_congr_right fun _ => or_congr_left ?_)
        simp [h0]
    | _ => exact hk
  serving g hg := ⟨(hat.serving g hg).1, show 3 ≤ 6 by decide⟩
  offsets_pe := hat.offsets_pe
  costs_pe := hat.costs_pe

namespace Live

theorem fails_sending (hl : s.Live t once pe [] h₀) {l : List (Nat × Message)} (hμ : s.mark < 6)
    (ha : Adds h₀ h l []) (hround : t.Round once pe (s.mark + 1) h₀ l)
    (hlevel : ∀ k q, t.Passes k q pe → k.neededFor = s.mark + 1 → Heard h₀ k q)
    (hpassed : t.Passed pe (s.mark + 1)) {e : FrameFault} (he : t.Flaw pe (.frame e)) :
    Fails t once pe (.frame e) h := by
  refine ⟨⟨s.mark + 1, hμ, hl.record.advance ha (Nat.lt_succ_self _) hround
    (fun k q hp hlt hle => hlevel k q hp (Nat.le_antisymm hle hlt)) hpassed ?_⟩, .inr rfl,
    fun _ => he⟩
  exact hl.record.handed_next (if_neg (Nat.ne_of_lt hμ)).symm

theorem level_of_all (s : State) (pe : Nat) (k : MessageKind)
    (hk : ∀ k', k'.neededFor = s.mark + 1 → k' = k)
    (hall : ∀ q < t.npes, Heard h k q) (k' : MessageKind) (q : Nat) (hp : t.Passes k' q pe)
    (hk' : k'.neededFor = s.mark + 1) : Heard h k' q := by
  obtain rfl := hk k' hk'
  exact hall q hp.1

theorem tells_all (hl : s.Live t once pe [] h₀) {m : Message} {c : List Call}
    {P : Unit → List Event → Prop} {Q : Fault → List Event → Prop} (ha₀ : Adds h₀ h [] c)
    (hk : ∀ k', k'.saidFrom = s.mark + 1 ↔ k' = k) (hans : k.answers? = none)
    (hm : ∀ q < t.npes, m = t.message k pe q ∧ t.Passes k pe q)
    (hlevel : ∀ k q, t.Passes k q pe → k.neededFor = s.mark + 1 → Heard h₀ k q)
    (hpassed : t.Passed pe (s.mark + 1)) (hc : c = if s.mark = 6 then t.handoffs pe else [])
    (hP : ∀ h', (∀ h'' (s' : State), Adds h' h'' [] [] → s'.At t pe (Heard h₀) once →
      s'.mark = s.mark + 1 → s'.backlog = s.backlog → s'.Live t once pe [] h'') → P () h')
    (hQ : ∀ e, m.unfit? = some e → t.Flaw pe (.frame e) → Q (.frame e) h) :
    (s.tellAll m).Leads h P Q := by
  refine leads_tellAll once ha₀ hl.record.pe_lt hl.state.npes_eq ((hk k).2 rfl) hm hans
    (fun h₁ ha₁ hround => hP h₁ fun h₂ s' ha₂ hat hmark hback => ?_) hQ
  refine hl.advance (ha₁.trans_quiet ha₂) hat hmark hback hround (fun k' q hp hk' _ => ?_) hlevel
    hpassed hc
  obtain rfl := (hk k').1 hk'
  refine ⟨m, List.mem_map.2 ⟨q, List.mem_range.2 hp.2.1, rfl⟩, ?_⟩
  rw [(hm q hp.2.1).1, Scenario.kind_message]

theorem ship (hl : s.Live t once pe [] h) {x : Setup} (hst : s.stage = .setup x)
    (hloads : ∀ q < t.npes, Heard h .load q) :
    (s.ship x).Leads h (fun s' h' => s.Enters s' t once pe h') (Fails t once pe) := by
  have hmark : s.mark = 0 := congrArg Stage.mark hst
  have hpe := hl.record.pe_lt
  obtain ⟨hchunk, hcentroids, hreads⟩ := hl.state.of_stage hst
  have hr : Record t once pe 0 h := hmark ▸ hl.record
  have hfull : s.loads = .full .load t.npes t.load := RollCall.Holds.eq_full (hl.state.keeps .load)
    fun q => ⟨hl.record.heard_lt, hloads q⟩
  have htotal : sum (s.loads.contributions.map Prod.snd) = t.total := by
    rw [hfull, RollCall.contributions_full, List.map_map, sum_eq]
    rfl
  have hlevel := level_of_all s pe .load (fun k => by
    rw [hmark]
    cases k <;> decide) hloads
  unfold State.ship
  rw [htotal, hl.state.pe_eq, hl.state.npes_eq, hchunk, hcentroids]
  rw [show s.seat.config = t.config from congrArg Seat.config hl.state.seat_eq,
    show s.seat.strategy = t.strategy from congrArg Seat.strategy hl.state.seat_eq]
  refine leads_bind.2 (leads_mapError (fun nchare hn => ?_) fun _ hn =>
    .of_quiet hr (Nat.zero_le _) (.refl h) (.count hn))
  refine leads_bind.2 (leads_mapError (fun layout hlayout => ?_) fun _ hlayout =>
    .of_quiet hr (Nat.zero_le _) (.refl h) (.layout hn hlayout))
  -- All processors come to the same layout, as they have the same sizes.
  have hfound : t.layout? = some layout := by
    rw [Scenario.layout?, hn]
    show (Layout.of nchare t.npes).toOption = _
    rw [hlayout]
    rfl
  obtain ⟨rfl, rfl⟩ := Scenario.layout_eq hn hlayout
  refine leads_bind.2 (leads_call.2 (leads_bind.2 (leads_lift.2 ⟨fun chares hc => ?_, fun _ hc =>
    .of_quiet hr (Nat.zero_le _) (.of_append _ rfl rfl) (.strategy hc)⟩)))
  refine leads_bind.2 (leads_lift.2 ⟨fun _ hv => ?_, fun e he => ?_⟩)
  rotate_left
  · exact .of_quiet hr (Nat.zero_le _) (.of_append _ rfl rfl) (.assignment hc he)
  have hassigned : t.assignment? pe = some chares := Scenario.assignment?_of_verify hc hv
  have hassigns : t.Assigns pe := by rw [Scenario.Assigns, hassigned]; rfl
  have hpassed : t.Passed pe (s.mark + 1) := by
    rw [hmark]
    exact ⟨fun _ => hreads, fun _ => hfound, fun _ => hassigns, fun h => absurd h (by decide)⟩
  have hchares : t.assignment pe = chares := by rw [Scenario.assignment, hassigned]; rfl
  have hshipment := Shipment.at_pack (t := t) hpe
  have hget := Shipment.get?_pack (t := t) hpe
  rw [hchares] at hshipment hget
  generalize hpack : (Shipment.start pe t.layout).pack
    (.ofAssignment chares (t.chunk pe).connectivity) = packed at hshipment hget ⊢
  obtain ⟨batches, shipment⟩ := packed
  have hentry : ∀ q a, (q, a) ∈ batches.entries ↔ t.Passes .batch pe q ∧ a = t.part pe q :=
    fun q a => by rw [← NatMap.get?_eq_some_iff, hget]
  refine leads_bind.2 (leads_reported fun h₁ ha₁ => ?_)
  have hquiet : Adds h h₁ [] [] := Adds.quiet_trans (.of_append _ rfl rfl) ha₁
  refine leads_bind.2 (leads_round t once pe (k := .batch) hquiet rfl
    (fun _ => NatSet.nodup_elems batches.keys) (fun e he => ?_) (fun h₂ ha₂ hround _ => ?_)
    fun h₂ l' e ha₂ hround _ hflaw => ?_)
  · obtain ⟨hp, ha⟩ := (hentry e.1 e.2).1 he
    exact ⟨by rw [ha]; rfl, hp, fun k' hk' => by cases hk'⟩
  · refine leads_bind.2 (leads_enter.2 (leads_pure.2 ⟨?_, rfl, ?_⟩))
    · refine hl.advance (ha₂.trans_quiet adds_enter) (hl.state.move ?_ ?_ (by omega) (by omega)) ?_
        rfl (hmark ▸ hround) (fun k q hp hk _ => ?_) hlevel hpassed ?_
      · have hno : ∀ k : MessageKind, k.actedFrom = 1 → Heard h k = fun _ => False := fun k hk =>
          funext fun q => eq_false (hr.not_heard_of_lt (hk ▸ Nat.one_pos) q)
        show Shipment.At _ _ _ _ _
        rw [hno .batch rfl, hno .receipt rfl]
        exact hshipment
      · rw [hmark]
        rfl
      · rw [hmark]
        rfl
      · rw [hmark] at hk
        cases k <;> try cases hk
        exact ⟨.batch pe (t.part pe q), List.mem_map.2 ⟨(q, _), (hentry q _).2 ⟨hp, rfl⟩, rfl⟩, rfl⟩
      · rw [hmark]
        rfl
    · rw [phase, phase, hst]
      rfl
  · exact hl.fails_sending (hmark ▸ (by decide)) ha₂ (hmark ▸ hround) hlevel hpassed hflaw

theorem announce (hl : s.Live t once pe [] h) {x : Shipping} (hst : s.stage = .shipping x) :
    (s.announce x).Leads h
      (fun x' h' => State.Live { s with stage := .shipping x' } t once pe [] h' ∧
        (x'.announced = false → State.Settled { s with stage := .shipping x' } t pe h'))
      (Fails t once pe) := by
  have hpe := hl.record.pe_lt
  have hat : x.shipment.At t pe (Heard h .batch) (Heard h .receipt) := hl.state.of_stage hst
  unfold State.announce
  split
  · next hc =>
    obtain ⟨hann, hdelivered⟩ : x.announced = false ∧ x.shipment.isDelivered = true := by
      simpa using hc
    have hmark : s.mark = 1 := by
      rw [State.mark, hst, Stage.mark, hann]
      rfl
    have hreceipts : ∀ k q, t.Passes k q pe → k.neededFor = s.mark + 1 → Heard h k q := by
      intro k q hp hk
      rw [hmark] at hk
      cases k <;> try cases hk
      exact hat.isDelivered_iff.1 hdelivered q ((Scenario.passes_answer rfl).1 hp)
    rw [hl.state.pe_eq]
    refine leads_bind.2 (hl.tells_all (k := .delivered) (.refl h) (fun k => ?_) rfl
      (fun q hq => ⟨rfl, hpe, hq, trivial⟩) hreceipts
      (hl.record.passed.next (by omega) (by omega)) ?_
      (fun h₁ hlive => leads_pure.2 ⟨?_, fun hn => by cases hn⟩) fun e _ hflaw => ?_)
    · rw [hmark]
      cases k <;> decide
    · rw [hmark]
      rfl
    · have hnext : Stage.mark (.shipping { x with announced := true }) = s.mark + 1 := by
        rw [hmark]
        rfl
      exact hlive _ _ (.refl _) (hl.state.move hat hnext (by omega) (by omega)) hnext rfl
    · exact .of_quiet hl.record (by omega) (.refl h) hflaw
  · next hc =>
    refine leads_pure.2 ⟨by rwa [with_stage hst], fun hann => ?_⟩
    have hnot : ¬ x.shipment.isDelivered = true := fun hd => hc (by simp [hann, hd])
    rw [hat.isDelivered_iff] at hnot
    push Not at hnot
    obtain ⟨q, hp, hno⟩ := hnot
    refine ⟨.receipt, q, (Scenario.passes_answer rfl).2 hp, ?_, hno⟩
    rw [State.mark, Stage.mark, hann]
    rfl

theorem takeStock (hl : s.Live t once pe [] h) {x : Shipping} (hst : s.stage = .shipping x)
    (hann : x.announced = true) (hall : ∀ q < t.npes, Heard h .delivered q) :
    (s.takeStock x).Leads h (fun s' h' => s.Enters s' t once pe h') (Fails t once pe) := by
  have hpe := hl.record.pe_lt
  have hat : x.shipment.At t pe (Heard h .batch) (Heard h .receipt) := hl.state.of_stage hst
  have hmark : s.mark = 2 := by
    rw [State.mark, hst, Stage.mark, hann]
    rfl
  -- Whoever says that everything is delivered has the receipts for its batches.
  have hbatches : ∀ q, t.Passes .batch q pe → Heard h .batch q := fun q hp =>
    hl.ordered q (hall q hp.1) hp
  have hlevel : ∀ k q, t.Passes k q pe → k.neededFor = s.mark + 1 → Heard h k q := by
    intro k q hp hk
    rw [hmark] at hk
    cases k <;> try cases hk
    · exact hbatches q hp
    · exact hall q hp.1
  unfold State.takeStock
  rw [hl.state.pe_eq, hl.state.npes_eq, hat.contents_eq hbatches hpe, hat.layout_eq]
  refine leads_bind.2 (leads_reported fun h₁ ha₁ => ?_)
  obtain hof | ⟨c, hof⟩ := Shipment.holdings_of t pe
  · refine leads_bind.2 (leads_lift.2 ⟨fun holdings hok => ?_, fun e he => ?_⟩)
    rotate_left
    · rw [hof] at he
      cases he
    rw [hof] at hok
    obtain rfl := Except.ok.inj hok
    refine leads_bind.2 (leads_reported fun h₂ ha₂ => ?_)
    have hquiet := ha₁.quiet_trans ha₂
    have hpassed : t.Passed pe (s.mark + 1) := by
      have hbefore := hl.record.passed
      rw [hmark] at hbefore ⊢
      exact hbefore.staffed hof
    refine leads_bind.2 (hl.tells_all (k := .query) hquiet (fun k => ?_) rfl
      (fun q hq => ⟨rfl, hpe, hq, trivial⟩) hlevel hpassed ?_ (fun h₃ hlive => ?_)
      fun e _ hflaw => ?_)
    · rw [hmark]
      cases k <;> decide
    · rw [hmark]
      rfl
    · refine leads_bind.2 (leads_enter.2 (leads_pure.2 ⟨hlive _ _ adds_enter ?_ ?_ rfl, rfl, ?_⟩))
      · exact hl.state.serve hmark (hl.record.not_heard_of_lt (by rw [hmark]; decide))
      · rw [hmark]
        rfl
      · rw [phase, phase, hst]
        rfl
    · exact .of_quiet hl.record (by omega) hquiet hflaw
  · refine leads_bind.2 (leads_lift.2 ⟨fun holdings hok => ?_, fun e he => ?_⟩)
    · rw [hof] at hok
      cases hok
    rw [hof] at he
    obtain rfl := Except.error.inj he
    exact .of_quiet hl.record (by omega) ha₁ (.idle hof)

theorem share (hl : s.Live t once pe [] h) {x : Indexed} (hst : s.stage = .indexed x)
    (hall : ∀ q < t.npes, Heard h .mask q) :
    (s.share x).Leads h (fun s' h' => s.Enters s' t once pe h') (Fails t once pe) := by
  have hpe := hl.record.pe_lt
  have hmark : s.mark = 3 := congrArg Stage.mark hst
  obtain ⟨hlayout, hnodes, hholdings, hmasks⟩ := hl.state.of_stage hst
  have hfull : x.masks = t.masks pe := hmasks.eq_full fun q => ⟨hl.record.heard_lt, hall q⟩
  have hlevel := level_of_all s pe .mask (fun k => by
    rw [hmark]
    cases k <;> decide) hall
  have hpassed := hl.record.passed.next (by omega) (by omega)
  unfold State.share
  rw [hl.state.pe_eq, hfull, hholdings, Scenario.ofMasks_masks, hlayout, hnodes]
  refine leads_bind.2 (leads_lift.2 ⟨fun sharing hs => ?_, fun e he => by cases he⟩)
  obtain rfl := Except.ok.inj hs
  refine leads_bind.2 (leads_reported fun h₁ ha₁ => ?_)
  refine leads_bind.2 (hl.tells_all (k := .offset) ha₁ (fun k => ?_) rfl
    (fun q hq => ⟨rfl, hpe, hq, trivial⟩) hlevel hpassed ?_ (fun h₂ hlive => ?_)
    fun e _ hflaw => ?_)
  · rw [hmark]
    cases k <;> decide
  · rw [hmark]
    rfl
  · have hnext : Stage.mark (.numbering ⟨t.layout, t.nodes pe, t.sharing pe,
        .start pe (t.holdings pe).nodes (t.sharing pe).claims⟩) = s.mark + 1 := by
      rw [hmark]
      rfl
    refine leads_bind.2 (leads_enter.2 (leads_pure.2 ⟨hlive _ _ adds_enter
      (hl.state.move ⟨rfl, rfl, rfl, ?_⟩ hnext (by omega) (by omega)) hnext rfl, rfl, ?_⟩))
    · exact Numbering.at_start (hl.record.not_heard_of_lt (by rw [hmark]; decide))
        (hl.record.not_heard_of_lt (by rw [hmark]; decide))
    · rw [phase, phase, hst]
      rfl
  · exact .of_quiet hl.record (by omega) ha₁ hflaw

/-! What the counts say once they are complete. -/

theorem isComplete_offsets_iff (hl : s.Live t once pe [] h) :
    s.offsets.isComplete = true ↔ ∀ q < t.npes, Heard h .offset q :=
  RollCall.Holds.isComplete_iff (hl.state.keeps .offset) fun _ => hl.record.heard_lt

theorem counts_eq (hl : s.Live t once pe [] h) (hall : ∀ q < t.npes, Heard h .offset q) :
    s.offsets.counts = .full .offset t.npes t.own :=
  RollCall.Holds.eq_full (hl.state.keeps .offset) fun q => ⟨hl.record.heard_lt, hall q⟩

theorem base?_eq (hl : s.Live t once pe [] h) (hall : ∀ q < t.npes, Heard h .offset q) :
    s.offsets.base? = some (t.base pe) := by
  rw [Offsets.base?, if_pos (hl.isComplete_offsets_iff.2 hall), hl.counts_eq hall,
    hl.state.offsets_pe, RollCall.takeWhile_contributions_full (Nat.le_of_lt hl.record.pe_lt),
    List.map_map]
  rfl

theorem total?_eq (hl : s.Live t once pe [] h) (hall : ∀ q < t.npes, Heard h .offset q) :
    s.offsets.total? = some t.nodeTotal := by
  rw [Offsets.total?, if_pos (hl.isComplete_offsets_iff.2 hall), hl.counts_eq hall,
    RollCall.contributions_full, List.map_map, sum_eq]
  rfl

theorem isComplete_costs_iff (hl : s.Live t once pe [] h) :
    s.costs.costs.isComplete = true ↔ ∀ q < t.npes, Heard h .cost q :=
  RollCall.Holds.isComplete_iff (hl.state.keeps .cost) fun _ => hl.record.heard_lt

theorem isComplete_deviations_iff (hl : s.Live t once pe [] h) :
    s.costs.deviations.isComplete = true ↔ ∀ q < t.npes, Heard h .deviation q :=
  RollCall.Holds.isComplete_iff (hl.state.keeps .deviation) fun _ => hl.record.heard_lt

theorem costs_eq (hl : s.Live t once pe [] h) (hall : ∀ q < t.npes, Heard h .cost q) :
    s.costs.costs = t.costs :=
  RollCall.Holds.eq_full (hl.state.keeps .cost) fun q => ⟨hl.record.heard_lt, hall q⟩

theorem mean?_eq (hl : s.Live t once pe [] h) (hall : ∀ q < t.npes, Heard h .cost q) :
    s.costs.mean? = some t.mean := by
  rw [CostSurvey.mean?, if_pos (hl.isComplete_costs_iff.2 hall), hl.costs_eq hall]
  rfl

theorem statistics?_eq (hl : s.Live t once pe [] h) (hc : ∀ q < t.npes, Heard h .cost q)
    (hd : ∀ q < t.npes, Heard h .deviation q) : s.costs.statistics? = some t.statistics := by
  have hdev : s.costs.deviations = t.deviations :=
    RollCall.Holds.eq_full (hl.state.keeps .deviation) fun q => ⟨hl.record.heard_lt, hd q⟩
  rw [CostSurvey.statistics?, hl.mean?_eq hc]
  simp only [if_pos (hl.isComplete_deviations_iff.2 hd)]
  rw [hl.costs_eq hc, hdev]
  rfl

theorem giveOut (hl : s.Live t once pe [] h) {x : Reordering} (hst : s.stage = .numbering x)
    (hg : x.numbering.isGivenOut = false) (hall : ∀ q < t.npes, Heard h .offset q) :
    (s.number x).Leads h
      (fun x' h' => State.Live { s with stage := .numbering x' } t once pe [] h' ∧
        x'.numbering.isGivenOut = true)
      (Fails t once pe) := by
  -- The requests that have waited are answered first, then the own ones go out.
  have hpe := hl.record.pe_lt
  obtain ⟨hlayout, hnodes, hsharing, hat⟩ := hl.state.of_stage hst
  have hmark : s.mark = 4 := by
    rw [State.mark, hst, Stage.mark, hg]
    rfl
  have hlevel := level_of_all s pe .offset (fun k => by
    rw [hmark]
    cases k <;> decide) hall
  have hpassed := hl.record.passed.next (by omega) (by omega)
  rw [hg] at hat
  obtain ⟨r, hgive, hat'⟩ := hat.giveOut hpe fun q => hl.record.heard_lt
  unfold State.number
  rw [hl.base?_eq hall]
  simp only [hg, Bool.false_eq_true, if_false]
  rw [hgive, hl.state.pe_eq]
  refine leads_bind.2 (leads_lift.2 ⟨fun answers ha => ?_, fun e he => by cases he⟩)
  obtain rfl := Except.ok.inj ha
  refine leads_bind.2 (leads_round t once pe (k := .assigned) (.refl h) rfl (fun ho => ?_)
    (fun e he => ?_) (fun h₁ ha₁ hround₁ hkind₁ => ?_) fun h₁ l' e ha₁ hround₁ _ hflaw => ?_)
  · rw [List.map_map]
    exact hat.queued_once ho
  · obtain ⟨e', he', rfl⟩ := List.mem_map.1 he
    have hheard := ((hat.queued_iff e').1 he').2.1
    have hp : t.Passes .assigned pe e'.1 :=
      (Scenario.passes_answer rfl).2 (hl.record.heard_passes hheard)
    exact ⟨rfl, hp, fun k' hk' => Option.some.inj hk' ▸ hheard⟩
  · refine leads_bind.2 (leads_round t once pe (k := .request) ha₁ rfl
      (fun _ => Numbering.nodup_wanted r) (fun e he => ?_) (fun h₂ ha₂ hround₂ hkind₂ => ?_)
      fun h₂ l' e ha₂ hround₂ hkind₂ hflaw => ?_)
    · obtain ⟨hc, he⟩ := hat'.mem_wanted.1 he
      have hlt := Scenario.lt_of_contains_claims hpe hc
      exact ⟨by rw [he]; rfl, ⟨hpe, hlt.trans hpe, hc⟩, fun k' hk' => by cases hk'⟩
    · refine leads_pure.2 ⟨?_, hat'.isGivenOut_eq⟩
      have hround := hround₁.append hround₂ hkind₁ hkind₂ (by decide)
      have hnext : Stage.mark (.numbering { x with numbering := r }) = s.mark + 1 := by
        rw [hmark, Stage.mark, hat'.isGivenOut_eq]
        rfl
      refine hl.advance ha₂ (hl.state.move ⟨hlayout, hnodes, hsharing, ?_⟩ hnext (by omega)
        (by omega)) hnext rfl (by rw [hmark]; exact hround) (fun k q hp hk hans => ?_) hlevel
        hpassed ?_
      · rw [hat'.isGivenOut_eq]
        exact hat'
      · rw [hmark] at hk
        cases k <;> try cases hk
        · have hw := (hat'.mem_wanted (e := (q, (t.wants pe q).elems))).2 ⟨hp.2.2, rfl⟩
          exact ⟨_, List.mem_append_right _ (List.mem_map.2 ⟨_, hw, rfl⟩), rfl⟩
        · have hq := (hat.queued_iff (q, (t.wants q pe).elems)).2 ⟨rfl, hans _ rfl, rfl⟩
          refine ⟨_, List.mem_append_left _ (List.mem_map.2 ⟨_, List.mem_map.2 ⟨_, hq, rfl⟩,
            rfl⟩), rfl⟩
      · rw [hmark]
        rfl
    · refine hl.fails_sending (by omega) ha₂ ?_ hlevel hpassed hflaw
      rw [hmark]
      exact hround₁.append hround₂ hkind₁ hkind₂ (by decide)
  · exact hl.fails_sending (by omega) ha₁ (by rw [hmark]; exact hround₁) hlevel hpassed hflaw

theorem number (hl : s.Live t once pe [] h) {x : Reordering} (hst : s.stage = .numbering x) :
    (s.number x).Leads h
      (fun x' h' => State.Live { s with stage := .numbering x' } t once pe [] h' ∧
        (x'.numbering.isGivenOut = false →
          State.Settled { s with stage := .numbering x' } t pe h'))
      (Fails t once pe) := by
  by_cases hall : ∀ q < t.npes, Heard h .offset q
  · cases hg : x.numbering.isGivenOut with
    | false =>
      refine (hl.giveOut hst hg hall).mono (fun x' h' hx => ⟨hx.1, fun hn => ?_⟩) fun _ _ => id
      rw [hx.2] at hn
      cases hn
    | true =>
      unfold State.number
      rw [hl.base?_eq hall]
      simp only [hg, if_true]
      refine leads_pure.2 ⟨by rwa [with_stage hst], fun hn => ?_⟩
      rw [hg] at hn
      cases hn
  · have hnone : s.offsets.base? = none := by
      rw [Offsets.base?, if_neg fun hc => hall (hl.isComplete_offsets_iff.1 hc)]
    unfold State.number
    rw [hnone]
    refine leads_pure.2 ⟨by rwa [with_stage hst], fun hn => ?_⟩
    push Not at hall
    obtain ⟨q, hq, hno⟩ := hall
    refine ⟨.offset, q, ⟨hq, hl.record.pe_lt, trivial⟩, ?_, hno⟩
    rw [State.mark, Stage.mark, hn]
    rfl

theorem relabel (hl : s.Live t once pe [] h) {x : Reordering} (hst : s.stage = .numbering x)
    (hgiven : x.numbering.isGivenOut = true)
    (hall : ∀ q, t.Passes .request pe q → Heard h .assigned q) :
    (s.relabel x (t.base pe)).Leads h (fun s' h' => s.Enters s' t once pe h')
      (Fails t once pe) := by
  have hpe := hl.record.pe_lt
  obtain ⟨hlayout, hnodes, hsharing, hat⟩ := hl.state.of_stage hst
  rw [hgiven] at hat
  have hmark : s.mark = 5 := by
    rw [State.mark, hst, Stage.mark, hgiven]
    rfl
  have hanswers : ∀ q, (t.claims pe).byPeer.contains q = true → Heard h .assigned q := fun q hc =>
    hall q ⟨hpe, (Scenario.lt_of_contains_claims hpe hc).trans hpe, hc⟩
  have hlevel : ∀ k q, t.Passes k q pe → k.neededFor = s.mark + 1 → Heard h k q := by
    intro k q hp hk
    rw [hmark] at hk
    cases k <;> try cases hk
    exact hanswers q hp.2.2
  have hpassed := hl.record.passed.next (by omega) (by omega)
  unfold State.relabel
  rw [hl.state.pe_eq, hl.state.npes_eq, hnodes, hsharing, hlayout]
  have hof : Relabelling.of pe (t.nodes pe) (t.sharing pe).adjacency x.numbering.ids =
      .ok (t.relabelling pe) := Relabelling.of_eq fun n hn => hat.get?_ids hpe hanswers hn
  rw [hof]
  refine leads_bind.2 (leads_lift.2 ⟨fun relabelling hr => ?_, fun e he => by cases he⟩)
  obtain rfl := Except.ok.inj hr
  refine leads_bind.2 (leads_reported fun h₁ ha₁ => ?_)
  -- The end is the same with a next processor and without one.
  have hdone : ∀ h₂ l, Adds h h₂ l [] → t.Round once pe (s.mark + 1) h l →
      (∀ q, t.Passes .lower pe q → (q, t.message .lower pe q) ∈ l) → (do
        enter .bounding
        return { s with
          stage := .bounding
            ⟨t.layout, x.numbering, t.base pe, t.own pe, t.relabelling pe, t.upper pe⟩
          lower := if pe = 0 then some 0 else s.lower } : Script State).Leads h₂
        (fun s' h' => s.Enters s' t once pe h') (Fails t once pe) := by
    intro h₂ l ha₂ hround hsent
    refine leads_bind.2 (leads_enter.2 (leads_pure.2 ⟨?_, rfl, ?_⟩))
    · refine hl.advance (ha₂.trans_quiet adds_enter) (hl.state.bound hmark hat) ?_ rfl hround
        (fun k q hp hk _ => ?_) hlevel hpassed ?_
      · rw [hmark]
        rfl
      · rw [hmark] at hk
        cases k <;> try cases hk
        exact ⟨_, hsent q hp, rfl⟩
      · rw [hmark]
        rfl
    · rw [phase, phase, hst]
      rfl
  show (if pe + 1 < t.npes then _ else _ : Script State).Leads _ _ _
  split
  · next hlt =>
    refine leads_bind.2 (leads_send.2 ⟨fun hfits => ?_, fun e he => ?_⟩)
    · refine hdone _ [(pe + 1, t.message .lower pe (pe + 1))] (ha₁.quiet_trans adds_send) ?_ ?_
      · rw [hmark]
        refine .of_kind (k := .lower) rfl (fun _ => List.nodup_singleton _) fun q m hm => ?_
        obtain ⟨rfl, rfl⟩ := Prod.mk.inj (List.mem_singleton.1 hm)
        exact ⟨rfl, ⟨hpe, hlt, rfl⟩, hfits, fun k' hk' => by cases hk'⟩
      · rintro q ⟨-, -, rfl⟩
        exact List.mem_singleton_self _
    · exact .of_quiet hl.record (by omega) ha₁ (.unfit (k := .lower) ⟨hpe, hlt, rfl⟩ he)
  · next hlast =>
    apply hdone _ [] ha₁ .nil
    rintro q ⟨-, hq, rfl⟩
    exact absurd hq hlast

theorem pe_fits (hl : s.Live t once pe [] h) : pe < 2 ^ 64 := by
  -- Who has said how much it has read can also say what it costs.
  have hpe := hl.record.pe_lt
  obtain ⟨m, hm, hk⟩ := hl.told .load pe ⟨hpe, hpe, trivial⟩ (Nat.zero_le _) fun _ hk => by cases hk
  have hdue := hl.record.due pe m hm
  have hgenuine := hdue.genuine
  rw [hk] at hgenuine
  have hfits := hdue.fits
  rw [hgenuine] at hfits
  exact (Message.unfit?_eq_none_iff.1 hfits).1 pe (by simp [Scenario.message, Message.numbers])

theorem adds_workers (h : List Event) (setups : List WorkerSetup) :
    Adds h (h ++ setups.map fun setup => .called (.worker setup)) [] (setups.map .worker) := by
  induction setups generalizing h with
  | nil => simpa using Adds.refl h
  | cons setup setups ih =>
    have hone : Adds h (h ++ [.called (.worker setup)]) [] [.worker setup] := .of_append _ rfl rfl
    have := hone.trans (ih _)
    simpa using this

theorem employ (hl : s.Live t once pe [] h) {x : Bounding} (hst : s.stage = .bounding x)
    (hlower : s.lower = some (t.lower pe)) :
    (s.employ x (t.lower pe)).Leads h (fun s' h' => s.Enters s' t once pe h')
      (Fails t once pe) := by
  have hpe := hl.record.pe_lt
  have hmark : s.mark = 6 := congrArg Stage.mark hst
  obtain ⟨hlayout, hbase, hown, hrel, hupper, hat⟩ := hl.state.of_stage hst
  have hlevel : ∀ k q, t.Passes k q pe → k.neededFor = s.mark + 1 → Heard h k q := by
    intro k q hp hk
    rw [hmark] at hk
    cases k <;> try cases hk
    obtain ⟨-, ⟨rfl, -⟩ | ⟨q', hq', hh⟩⟩ := (hl.state.keeps .lower _).1 hlower
    · exact absurd hp.2.2 (Nat.succ_ne_zero q)
    · obtain rfl : q' = q := Nat.succ.inj (hq'.trans hp.2.2.symm)
      exact hh
  have hpassed := hl.record.passed.next (by omega) (by omega)
  unfold State.employ
  rw [hl.state.pe_eq, hlayout, hbase, hown, hrel, hupper]
  refine leads_bind.2 (leads_reported fun h₁ ha₁ => ?_)
  refine leads_bind.2 (leads_calls.2 (leads_bind.2 (leads_call.2 (leads_bind.2 (leads_call.2
    (leads_bind.2 (leads_call.2 ?_)))))))
  generalize hh₂ : h₁ ++ _ ++ _ ++ _ ++ _ = h₂
  have ha₂ : Adds h h₂ [] (t.handoffs pe) := by
    rw [← hh₂]
    have hworkers := adds_workers h₁ ((t.relabelling pe).setups pe t.layout.nchare)
    have hcrew := hworkers.trans_quiet (.of_append [.called .crew] rfl rfl)
    have hrows := hcrew.trans (.of_append [.called (.rows ⟨t.rows pe, pe⟩)] rfl rfl)
    exact ha₁.quiet_trans (hrows.trans_quiet (.of_append [.called .ready] rfl rfl))
  refine leads_bind.2 (hl.tells_all (k := .cost) ha₂ (fun k => ?_) rfl
    (fun q hq => ⟨rfl, hpe, hq, trivial⟩) hlevel hpassed ?_ (fun h₃ hlive => ?_)
    fun e he _ => ?_)
  · rw [hmark]
    cases k <;> decide
  · rw [hmark]
    rfl
  · have hnext : Stage.mark (.costing ⟨t.layout, x.numbering, t.base pe, t.own pe, t.rows pe,
        t.cost pe, false⟩) = s.mark + 1 := by
      rw [hmark]
      rfl
    refine leads_bind.2 (leads_enter.2 (leads_pure.2 ⟨hlive _ _ adds_enter
      (hl.state.move ⟨rfl, rfl, rfl, rfl, rfl, hat⟩ hnext (by omega) (by omega)) hnext rfl, rfl,
      ?_⟩))
    rw [phase, phase, hst]
    rfl
  · rw [Message.unfit?_cost hl.pe_fits] at he
    cases he

theorem compare (hl : s.Live t once pe [] h) {x : Costing} (hst : s.stage = .costing x) :
    (s.compare x).Leads h
      (fun x' h' => State.Live { s with stage := .costing x' } t once pe [] h' ∧
        (x'.announced = false → State.Settled { s with stage := .costing x' } t pe h'))
      (Fails t once pe) := by
  have hpe := hl.record.pe_lt
  obtain ⟨hlayout, hbase, hown, hrows, hcost, hat⟩ := hl.state.of_stage hst
  unfold State.compare
  by_cases hall : ∀ q < t.npes, Heard h .cost q
  · rw [hl.mean?_eq hall]
    simp only
    split
    · next hann =>
      exact leads_pure.2 ⟨by rwa [with_stage hst], fun hn => absurd hann (by simp [hn])⟩
    · next hann =>
      have hann : x.announced = false := Bool.not_eq_true _ ▸ hann
      have hmark : s.mark = 7 := by
        rw [State.mark, hst, Stage.mark, hann]
        rfl
      have hlevel := level_of_all s pe .cost (fun k => by
        rw [hmark]
        cases k <;> decide) hall
      rw [hl.state.pe_eq, hcost]
      refine leads_bind.2 (hl.tells_all (k := .deviation) (.refl h) (fun k => ?_) rfl
        (fun q hq => ⟨rfl, hpe, hq, trivial⟩) hlevel
        (hl.record.passed.next (by omega) (by omega)) ?_
        (fun h₁ hlive => leads_pure.2 ⟨?_, fun hn => by cases hn⟩) fun e he _ => ?_)
      · rw [hmark]
        cases k <;> decide
      · rw [hmark]
        rfl
      · have hnext : Stage.mark (.costing { x with announced := true, cost := t.cost pe }) =
            s.mark + 1 := by
          rw [hmark]
          rfl
        exact hlive _ _ (.refl _) (hl.state.move ⟨hlayout, hbase, hown, hrows, rfl, hat⟩ hnext
          (by omega) (by omega)) hnext rfl
      · rw [Message.unfit?_deviation hl.pe_fits] at he
        cases he
  · have hnone : s.costs.mean? = none := by
      rw [CostSurvey.mean?, if_neg fun hc => hall (hl.isComplete_costs_iff.1 hc)]
    rw [hnone]
    refine leads_pure.2 ⟨by rwa [with_stage hst], fun hn => ?_⟩
    push Not at hall
    obtain ⟨q, hq, hno⟩ := hall
    refine ⟨.cost, q, ⟨hq, hpe, trivial⟩, ?_, hno⟩
    rw [State.mark, Stage.mark, hn]
    rfl

theorem finish (hl : s.Live t once pe [] h) {x : Costing} (hst : s.stage = .costing x)
    (hann : x.announced = true) (hall : ∀ q < t.npes, Heard h .deviation q) :
    (s.finish x t.statistics).Leads h (fun s' h' => s.Enters s' t once pe h')
      (Fails t once pe) := by
  have hmark : s.mark = 8 := by
    rw [State.mark, hst, Stage.mark, hann]
    rfl
  obtain ⟨hlayout, hbase, hown, hrows, hcost, -⟩ := hl.state.of_stage hst
  have hoffsets : ∀ q < t.npes, Heard h .offset q := fun q hq =>
    hl.record.level .offset q ⟨hq, hl.record.pe_lt, trivial⟩ (by rw [hmark]; decide)
  unfold State.finish
  rw [hl.total?_eq hoffsets, hl.state.pe_eq, hlayout, hbase, hown, hrows, hcost]
  refine leads_bind.2 (leads_call.2 (leads_bind.2 (leads_call.2 (leads_bind.2 (leads_enter.2
    (leads_pure.2 ⟨?_, rfl, ?_⟩))))))
  · have hquiet : Adds h (h ++ [.called (.statistics t.statistics)] ++ [.called .finished] ++
        [.entered .done]) [] [] := by
      rw [List.append_assoc, List.append_assoc]
      exact .of_append _ rfl rfl
    have hnext : Stage.mark (.done (t.outcome pe)) = s.mark + 1 := by
      rw [hmark]
      rfl
    have hlevel := level_of_all s pe .deviation (fun k => by
      rw [hmark]
      cases k <;> decide) hall
    refine hl.advance hquiet (hl.state.move rfl hnext (by omega) (by omega)) hnext rfl .nil
      (fun k q hp hk _ => ?_) hlevel (hl.record.passed.next (by omega) (by omega)) ?_
    · rw [hmark] at hk
      cases k <;> cases hk
    · rw [hmark]
      rfl
  · rw [phase, phase, hst]
    rfl

end Live
end State
end MeshNumbering
