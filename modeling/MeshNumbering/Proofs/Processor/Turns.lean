import MeshNumbering.Processor.Basic
import MeshNumbering.Proofs.Processor.Advancing
import MeshNumbering.Proofs.Processor.Reacting

/-! From one wait to the next. A message is acted on, and then the processor moves on as far as it
can; it waits again only when something is missing that it cannot do without. -/

namespace MeshNumbering
open History

theorem Stage.mark_le_five {x : Stage} (h : x.phase.rank ≤ 3) : x.mark ≤ 5 := by
  cases x <;> simp only [phase, Phase.rank] at h <;> simp only [mark] <;> (try split) <;> omega

namespace State
open Script
variable {s : State} {t : Scenario} {once : Prop} {pe : Nat} {h : List Event}
  {pend : List Message}

/-- The work of a phase leads to the next phase, unless something is missing. -/
structure Works (s s' : State) (t : Scenario) (once : Prop) (pe : Nat) (h : List Event) :
    Prop where
  live : s'.Live t once pe [] h
  backlog_eq : s'.backlog = s.backlog
  progress : s'.phase.rank = s.phase.rank + 1 ∨
    s'.phase = s.phase ∧ (s'.mark = 9 ∨ s'.Settled t pe h)

theorem Enters.works {s' : State} (he : s.Enters s' t once pe h) : s.Works s' t once pe h :=
  ⟨he.live, he.backlog_eq, .inl he.rank_eq⟩

theorem Works.of_stage {s' : State} {x : Stage} (hw : Works { s with stage := x } s' t once pe h)
    (hphase : s.phase = x.phase) : s.Works s' t once pe h where
  live := hw.live
  backlog_eq := hw.backlog_eq
  progress := by
    rw [hphase]
    exact hw.progress

namespace Live

theorem stays (hl : s.Live t once pe [] h) {k : MessageKind} (hk : k.neededFor = s.mark + 1)
    (hall : ¬ ∀ q, t.Passes k q pe → Heard h k q) : s.Works s t once pe h := by
  push Not at hall
  obtain ⟨q, hp, hno⟩ := hall
  exact ⟨hl, rfl, .inr ⟨rfl, .inr ⟨k, q, hp, hk, hno⟩⟩⟩

theorem work_setup (hl : s.Live t once pe [] h) {x : Setup} (hst : s.stage = .setup x) :
    s.work.Leads h (fun s' h' => s.Works s' t once pe h') (Fails t once pe) := by
  have hcomplete : s.loads.isComplete = true ↔ ∀ q < t.npes, Heard h .load q :=
    RollCall.Holds.isComplete_iff (hl.state.keeps .load) fun _ => hl.record.heard_lt
  unfold work
  rw [hst]
  show (if s.loads.isComplete then s.ship x else return s : Script State).Leads _ _ _
  split
  · next hc => exact (hl.ship hst (hcomplete.1 hc)).mono (fun _ _ => Enters.works) fun _ _ => id
  · next hc =>
    refine leads_pure.2 (hl.stays (k := .load) ?_ fun hall => hc (hcomplete.2 fun q hq => ?_))
    · rw [State.mark, hst]
      rfl
    · exact hall q ⟨hq, hl.record.pe_lt, trivial⟩

theorem work_shipping (hl : s.Live t once pe [] h) {x : Shipping} (hst : s.stage = .shipping x) :
    s.work.Leads h (fun s' h' => s.Works s' t once pe h') (Fails t once pe) := by
  unfold work
  rw [hst]
  show (s.announce x >>= fun x' => if x'.announced && s.distributed.isComplete then s.takeStock x'
    else return { s with stage := .shipping x' } : Script State).Leads _ _ _
  refine leads_bind.2 ((hl.announce hst).mono (fun x' h' hx => ?_) fun _ _ => id)
  obtain ⟨hl', hwaits⟩ := hx
  have hphase : s.phase = .shipping := congrArg Stage.phase hst
  have hcomplete : s.distributed.isComplete = true ↔ ∀ q < t.npes, Heard h' .delivered q :=
    RollCall.Holds.isComplete_iff (hl'.state.keeps .delivered) fun _ => hl'.record.heard_lt
  cases hann : x'.announced with
  | false => exact leads_pure.2 ⟨hl', rfl, .inr ⟨hphase.symm, .inr (hwaits hann)⟩⟩
  | true =>
    rw [Bool.true_and]
    split
    · next hc =>
      exact (hl'.takeStock rfl hann (hcomplete.1 hc)).mono
        (fun _ _ he => he.works.of_stage hphase) fun _ _ => id
    · next hc =>
      refine leads_pure.2 ((hl'.stays (k := .delivered) ?_ fun hall =>
        hc (hcomplete.2 fun q hq => ?_)).of_stage hphase)
      · rw [State.mark, Stage.mark, hann]
        rfl
      · exact hall q ⟨hq, hl.record.pe_lt, trivial⟩

theorem work_indexed (hl : s.Live t once pe [] h) {x : Indexed} (hst : s.stage = .indexed x) :
    s.work.Leads h (fun s' h' => s.Works s' t once pe h') (Fails t once pe) := by
  obtain ⟨-, -, -, hmasks⟩ := hl.state.of_stage hst
  have hcomplete : x.masks.isComplete = true ↔ ∀ q < t.npes, Heard h .mask q :=
    hmasks.isComplete_iff fun _ => hl.record.heard_lt
  unfold work
  rw [hst]
  show (if x.masks.isComplete then s.share x else return s : Script State).Leads _ _ _
  split
  · next hc => exact (hl.share hst (hcomplete.1 hc)).mono (fun _ _ => Enters.works) fun _ _ => id
  · next hc =>
    refine leads_pure.2 (hl.stays (k := .mask) ?_ fun hall => hc (hcomplete.2 fun q hq => ?_))
    · rw [State.mark, hst]
      rfl
    · exact hall q ⟨hq, hl.record.pe_lt, trivial⟩

theorem work_numbering (hl : s.Live t once pe [] h) {x : Reordering}
    (hst : s.stage = .numbering x) :
    s.work.Leads h (fun s' h' => s.Works s' t once pe h') (Fails t once pe) := by
  have hpe := hl.record.pe_lt
  have hphase : s.phase = .numbering := congrArg Stage.phase hst
  unfold work
  rw [hst]
  dsimp only
  refine leads_bind.2 ((hl.number hst).mono (fun x' h' hx => ?_) fun _ _ => id)
  obtain ⟨hl', hwaits⟩ := hx
  obtain ⟨-, -, -, hat⟩ := hl'.state.stage
  cases hgiven : x'.numbering.isGivenOut with
  | false =>
    have hnone : x'.numbering.base? = none := by
      rwa [Numbering.isGivenOut, Option.isSome_eq_false_iff, Option.isNone_iff_eq_none] at hgiven
    rw [hnone]
    exact leads_pure.2 ⟨hl', rfl, .inr ⟨hphase.symm, .inr (hwaits hgiven)⟩⟩
  | true =>
    rw [hgiven] at hat
    rw [show x'.numbering.base? = some (t.base pe) from hat.base_eq]
    have hcomplete := hat.isComplete_iff hpe
    show (if x'.numbering.isComplete then _ else _ : Script State).Leads _ _ _
    split
    · next hc =>
      exact (hl'.relabel rfl hgiven fun q hp => hcomplete.1 hc q hp.2.2).mono
        (fun _ _ he => he.works.of_stage hphase) fun _ _ => id
    · next hc =>
      refine leads_pure.2 ((hl'.stays (k := .assigned) ?_ fun hall =>
        hc (hcomplete.2 fun q hq => ?_)).of_stage hphase)
      · rw [State.mark, Stage.mark, hgiven]
        rfl
      · exact hall q ⟨(Scenario.lt_of_contains_claims hpe hq).trans hpe, hpe, hq⟩

theorem work_bounding (hl : s.Live t once pe [] h) {x : Bounding} (hst : s.stage = .bounding x) :
    s.work.Leads h (fun s' h' => s.Works s' t once pe h') (Fails t once pe) := by
  have hpe := hl.record.pe_lt
  have hkeep := hl.state.keeps .lower
  have hmark : s.mark = 6 := congrArg Stage.mark hst
  unfold work
  rw [hst]
  dsimp only
  cases hlower : s.lower with
  | some r =>
    obtain ⟨rfl, -⟩ := (hkeep r).1 hlower
    exact (hl.employ hst hlower).mono (fun _ _ => Enters.works) fun _ _ => id
  | none =>
    refine leads_pure.2 (hl.stays (k := .lower) (by rw [hmark]; rfl) fun hall => ?_)
    have hsome : s.lower = some (t.lower pe) := by
      refine (hkeep _).2 ⟨rfl, ?_⟩
      cases pe with
      | zero => exact .inl ⟨rfl, Nat.le_of_eq hmark.symm⟩
      | succ q => exact .inr ⟨q, rfl, hall q ⟨Nat.lt_of_succ_lt hpe, hpe, rfl⟩⟩
    rw [hlower] at hsome
    cases hsome

theorem work_costing (hl : s.Live t once pe [] h) {x : Costing} (hst : s.stage = .costing x) :
    s.work.Leads h (fun s' h' => s.Works s' t once pe h') (Fails t once pe) := by
  have hpe := hl.record.pe_lt
  have hphase : s.phase = .costing := congrArg Stage.phase hst
  unfold work
  rw [hst]
  dsimp only
  refine leads_bind.2 ((hl.compare hst).mono (fun x' h' hx => ?_) fun _ _ => id)
  obtain ⟨hl', hwaits⟩ := hx
  cases hann : x'.announced with
  | false =>
    obtain ⟨k, q, hp, hk, hno⟩ := hwaits hann
    have hmark : State.mark { s with stage := .costing x' } = 7 := by
      rw [State.mark, Stage.mark, hann]
      rfl
    rw [hmark] at hk
    have hmissing : ¬ s.costs.costs.isComplete = true := by
      intro hc
      cases k <;> try cases hk
      exact hno (hl'.isComplete_costs_iff.1 hc q hp.1)
    rw [CostSurvey.statistics?, CostSurvey.mean?, if_neg hmissing]
    exact leads_pure.2 ⟨hl', rfl, .inr ⟨hphase.symm, .inr (hwaits hann)⟩⟩
  | true =>
    have hmark : State.mark { s with stage := .costing x' } = 8 := by
      rw [State.mark, Stage.mark, hann]
      rfl
    have hcosts : ∀ q < t.npes, Heard h' .cost q := fun q hq =>
      hl'.record.level .cost q ⟨hq, hpe, trivial⟩ (by rw [hmark]; exact Nat.le_refl 8)
    by_cases hall : ∀ q < t.npes, Heard h' .deviation q
    · rw [hl'.statistics?_eq hcosts hall]
      exact (hl'.finish rfl hann hall).mono (fun _ _ he => he.works.of_stage hphase) fun _ _ => id
    · have hmissing : ¬ s.costs.deviations.isComplete = true := fun hc =>
        hall (hl'.isComplete_deviations_iff.1 hc)
      have hnone : s.costs.statistics? = none := by
        rw [CostSurvey.statistics?]
        split
        · rfl
        · exact if_neg hmissing
      rw [hnone]
      refine leads_pure.2 ((hl'.stays (k := .deviation) ?_ fun hd =>
        hall fun q hq => ?_).of_stage hphase)
      · rw [hmark]
        rfl
      · exact hd q ⟨hq, hpe, trivial⟩

theorem work (hl : s.Live t once pe [] h) :
    s.work.Leads h (fun s' h' => s.Works s' t once pe h') (Fails t once pe) := by
  cases hst : s.stage with
  | setup x => exact hl.work_setup hst
  | shipping x => exact hl.work_shipping hst
  | indexed x => exact hl.work_indexed hst
  | numbering x => exact hl.work_numbering hst
  | bounding x => exact hl.work_bounding hst
  | costing x => exact hl.work_costing hst
  | done outcome =>
    unfold State.work
    rw [hst]
    refine leads_pure.2 ⟨hl, rfl, .inr ⟨rfl, .inl ?_⟩⟩
    rw [State.mark, hst]
    rfl

theorem retire (hl : s.Live t once pe [] h) : s.retire.Live t once pe [] h := by
  -- Held nodes are forgotten only when nobody can ask for them any more.
  unfold State.retire
  split
  · next hc =>
    obtain ⟨-, hcomplete⟩ := hc
    refine { hl with state := { hl.state with keeps := fun k => ?_, serving := fun g hg => ?_ } }
    · have hk := hl.state.keeps k
      cases k with
      | query =>
        refine ⟨hk.1, fun _ => .inr ?_⟩
        exact (RollCall.Holds.isComplete_iff hk.1 fun _ => hl.record.heard_lt).1 hcomplete
      | _ => exact hk
    · cases hg
  · exact hl

theorem proceed (hl : s.Live t once pe [] h) :
    s.proceed.Leads h (fun s' h' => s.Works s' t once pe h') (Fails t once pe) := by
  refine leads_bind.2 (hl.work.mono (fun s' h' hw => leads_pure.2 ?_) fun _ _ => id)
  refine ⟨hw.live.retire, (backlog_retire s').trans hw.backlog_eq, ?_⟩
  have hp := hw.progress
  unfold Settled at hp ⊢
  rwa [phase, State.mark, stage_retire]

theorem resume (hl : s.Live t once pe [] h) :
    State.Live { s with backlog := [] } t once pe s.backlog h := by
  have hback : s.backlog ++ State.backlog { s with backlog := [] } = [] ++ s.backlog :=
    List.append_nil _
  exact {
    state := { hl.state with }
    record := hl.record
    told := hl.told
    ordered := hl.ordered
    genuine := by rw [hback]; exact hl.genuine
    passes := by rw [hback]; exact hl.passes
    received := by rw [hback]; exact hl.received
    known := by rw [hback]; exact hl.known
    each_once := by rw [hback]; exact hl.each_once }

theorem replay (hl : s.Live t once pe pend h) (hpatient : s.Patient)
    (hkind : ∀ m ∈ pend, 0 < m.kind.opening.rank ∧ s.phase.rank ≤ m.kind.opening.rank) :
    (pend.foldlM State.take s).Leads h
      (fun s' h' => s'.Live t once pe [] h' ∧ s'.Patient ∧ s'.phase = s.phase)
      (Fails t once pe) := by
  induction pend generalizing s h with
  | nil => exact leads_pure.2 ⟨hl, hpatient, rfl⟩
  | cons m pend ih =>
    obtain ⟨hopening, hrank⟩ := hkind m (List.mem_cons_self ..)
    -- No kind is kept for later than the numbering, so the run is not over yet.
    have hopen : m.kind.opening.rank ≤ 3 := by
      cases m.kind <;> decide
    have hmark : s.mark ≤ 5 := Stage.mark_le_five (hrank.trans hopen)
    rw [List.foldlM_cons]
    refine leads_bind.2 ((hl.take hpatient (by omega) (fun hk => ?_) fun hk => ?_).mono
      (fun s' h' hs => ?_) fun e h' he => ?_)
    · rw [hk] at hopening
      exact absurd hopening (Nat.lt_irrefl 0)
    · rw [hk] at hopening
      exact absurd hopening (Nat.lt_irrefl 0)
    · obtain ⟨hl', hpatient', hphase, -⟩ := hs
      refine (ih hl' hpatient' fun m' hm' => ?_).mono (fun s'' h'' hs'' => ?_) fun _ _ => id
      · rw [hphase]
        exact hkind m' (List.mem_cons_of_mem m hm')
      · obtain ⟨hl'', hpatient'', hphase'⟩ := hs''
        exact ⟨hl'', hpatient'', hphase'.trans hphase⟩
    · obtain ⟨rfl, hremote, honce⟩ := he
      exact ⟨⟨s.mark, by omega, hl.record⟩, .inr hremote, fun ho => (honce ho).1⟩

theorem settle {n : Nat} (hl : s.Live t once pe [] h) (hpatient : s.Patient)
    (hn : 7 ≤ s.phase.rank + n) :
    (State.settle n s).Leads h
      (fun s' h' => s'.Live t once pe [] h' ∧ s'.Patient ∧ (s'.mark = 9 ∨ s'.Settled t pe h'))
      (Fails t once pe) := by
  induction n generalizing s h with
  | zero => exact absurd (hn.trans s.phase.rank_le) (by decide)
  | succ n ih =>
    unfold State.settle
    refine leads_bind.2 (hl.proceed.mono (fun s' h' hw => ?_) fun _ _ => id)
    -- Each new phase uses up one round. What was kept for it is taken before the next round.
    obtain ⟨hl', hback, hrank | ⟨hphase, hend⟩⟩ := hw
    · have hne : s'.phase ≠ s.phase := fun heq => by
        rw [heq] at hrank
        omega
      rw [if_neg hne]
      refine leads_bind.2 ((hl'.resume.replay (fun m hm => by cases hm) fun m hm => ?_).mono
        (fun s'' h'' hs => ?_) fun _ _ => id)
      · have hearly : s.phase.rank < m.kind.opening.rank := hpatient m (hback ▸ hm)
        exact ⟨Nat.zero_lt_of_lt hearly, hrank.le.trans hearly⟩
      · obtain ⟨hl'', hpatient'', hphase⟩ := hs
        have hrank' : s''.phase.rank = s.phase.rank + 1 := (congrArg Phase.rank hphase).trans hrank
        exact ih hl'' hpatient'' (by omega)
    · rw [if_pos hphase]
      refine leads_pure.2 ⟨hl', fun m hm => ?_, hend⟩
      rw [hphase]
      exact hpatient m (hback ▸ hm)

end Live
end State
end MeshNumbering
