import MeshNumbering.Proofs.Processor.Scripts
import MeshNumbering.Proofs.Processor.Standing

/-! Acting on one message keeps a processor in order, whichever kind it is and whenever it comes.
Where messages come just once, the only thing that can go wrong is an answer that has no frame. -/

namespace MeshNumbering

namespace Stage
variable {x : Stage} {t : Scenario} {pe q : Nat} {heard heard' : MessageKind → Nat → Prop}
  {once : Prop} {r r' : Numbering} {k : MessageKind}

theorem At.adding (h : x.At t pe heard once)
    (hk : k ∉ [MessageKind.batch, .receipt, .mask, .request, .assigned]) :
    x.At t pe (adding heard k q) once := by
  simp only [List.mem_cons, List.not_mem_nil, or_false, not_or] at hk
  obtain ⟨hb, hr, hm, hq, ha⟩ := hk
  exact h.congr (adding_of_ne (Ne.symm hb)) (adding_of_ne (Ne.symm hr)) (adding_of_ne (Ne.symm hm))
    (adding_of_ne (Ne.symm hq)) (adding_of_ne (Ne.symm ha))

theorem At.numbering (h : x.At t pe heard once) (hr : x.numbering? = some r) :
    r.At t pe (heard .request) (heard .assigned) r.isGivenOut once := by
  cases x with
  | numbering s =>
    obtain rfl := Option.some.inj hr
    exact h.2.2.2
  | bounding s =>
    obtain rfl := Option.some.inj hr
    obtain ⟨-, -, -, -, -, hn⟩ := h
    rwa [hn.isGivenOut_eq]
  | costing s =>
    obtain rfl := Option.some.inj hr
    obtain ⟨-, -, -, -, -, hn⟩ := h
    rwa [hn.isGivenOut_eq]
  | _ => cases hr

theorem At.withNumbering (h : x.At t pe heard once) (hr : x.numbering? = some r)
    (hr' : r'.At t pe (heard' .request) (heard' .assigned) r.isGivenOut once) :
    (x.withNumbering r').At t pe heard' once := by
  cases x with
  | numbering s =>
    obtain rfl := Option.some.inj hr
    obtain ⟨hl, hn, hs, -⟩ := h
    refine ⟨hl, hn, hs, ?_⟩
    rwa [hr'.isGivenOut_eq]
  | bounding s =>
    obtain rfl := Option.some.inj hr
    obtain ⟨hl, hb, ho, hrel, hu, hn⟩ := h
    rw [hn.isGivenOut_eq] at hr'
    exact ⟨hl, hb, ho, hrel, hu, hr'⟩
  | costing s =>
    obtain rfl := Option.some.inj hr
    obtain ⟨hl, hb, ho, hrows, hc, hn⟩ := h
    rw [hn.isGivenOut_eq] at hr'
    exact ⟨hl, hb, ho, hrows, hc, hr'⟩
  | _ => cases hr

theorem mark_withNumbering (hr : x.numbering? = some r) (hg : r'.isGivenOut = r.isGivenOut) :
    (x.withNumbering r').mark = x.mark := by
  cases x <;> simp only [numbering?, Option.some.injEq, reduceCtorEq] at hr <;>
    simp only [withNumbering, mark, hg, hr]

theorem At.five_le_mark_iff (h : x.At t pe heard once) (hr : x.numbering? = some r) :
    5 ≤ x.mark ↔ r.isGivenOut = true := by
  have hn := h.numbering hr
  cases x with
  | numbering s =>
    obtain rfl := Option.some.inj hr
    simp only [mark]
    split
    · next hg => simp [hg]
    · next hg => simp [hg]
  | bounding s =>
    obtain rfl := Option.some.inj hr
    obtain ⟨-, -, -, -, -, hn⟩ := h
    simp [mark, hn.isGivenOut_eq]
  | costing s =>
    obtain rfl := Option.some.inj hr
    obtain ⟨-, -, -, -, -, hn⟩ := h
    simp only [mark, hn.isGivenOut_eq, iff_true]
    split <;> omega
  | _ => cases hr

theorem numbering?_isSome (h4 : 4 ≤ x.mark) (h9 : x.mark < 9) : ∃ r, x.numbering? = some r := by
  cases x with
  | numbering s => exact ⟨_, rfl⟩
  | bounding s => exact ⟨_, rfl⟩
  | costing s => exact ⟨_, rfl⟩
  | shipping s =>
    simp only [mark] at h4
    split at h4 <;> omega
  | _ => simp [mark] at h4 h9

theorem numbering?_eq_none (h4 : x.mark < 4) : x.numbering? = none := by
  cases x with
  | numbering s =>
    simp only [mark] at h4
    split at h4 <;> omega
  | costing s =>
    simp only [mark] at h4
    split at h4 <;> omega
  | bounding s => simp [mark] at h4
  | _ => rfl

end Stage

namespace State
open History Script

/-- What acting on a message of kind `k` from `q` leads to, with the answer given on the way. -/
structure Acts (s s' : State) (t : Scenario) (once : Prop) (pe : Nat) (k : MessageKind) (q : Nat)
    (h h₁ : List Event) : Prop where
  state : s'.At t pe (adding (Heard h) k q) once
  mark_eq : s'.mark = s.mark
  phase_eq : s'.phase = s.phase
  backlog_eq : s'.backlog = s.backlog
  answer : ∃ answer : Option MessageKind,
    Adds h h₁ (answer.toList.map fun k => (q, t.message k pe q)) [] ∧
    (∀ k' : MessageKind, answer = some k' ↔ k'.answers? = some k ∧ k'.saidFrom ≤ s.mark) ∧
    ∀ k', answer = some k' → (t.message k' pe q).unfit? = none

def Reacts (s : State) (t : Scenario) (once : Prop) (pe : Nat) (k : MessageKind) (q : Nat)
    (h : List Event) : Prop :=
  (∃ reaction, s.react (t.message k q pe) = some reaction ∧ k.actedFrom ≤ s.mark ∧
    reaction.Leads h (fun s' h₁ => s.Acts s' t once pe k q h h₁) fun e h' =>
      h' = h ∧ e.isRemote = false ∧ (once → t.Flaw pe e ∧ k.isQuestion = true)) ∨
  s.react (t.message k q pe) = none ∧ (k ≠ .receipt ∧ s.mark < k.actedFrom ∨ Heard h k q)

variable {s s' : State} {t : Scenario} {once : Prop} {pe q : Nat} {pend : List Message}
  {h h₁ : List Event} {k : MessageKind}

theorem no_answer (hk : k.isQuestion = false) (k' : MessageKind) (h : k'.answers? = some k) :
    ¬ k'.saidFrom ≤ s.mark := by
  cases k' <;> cases h <;> cases hk

theorem At.restage {heard : MessageKind → Nat → Prop} (hat : s.At t pe heard once) {x : Stage}
    (hx : x.At t pe (adding heard k q) once) (hmark : x.mark = s.stage.mark)
    (hk : k ∈ [MessageKind.batch, .receipt, .mask, .request, .assigned]) :
    State.At { s with stage := x } t pe (adding heard k q) once where
  seat_eq := hat.seat_eq
  stage := hx
  keeps := by
    refine hat.keeps_adding (fun k' _ P hP => ?_) ?_
    · cases k' <;> first | exact hP | simpa only [Keeps, State.mark, hmark] using hP
    · cases k <;> first | exact trivial | simp at hk
  serving g hg := by
    rw [show State.mark { s with stage := x } = s.mark from hmark]
    exact hat.serving g hg
  offsets_pe := hat.offsets_pe
  costs_pe := hat.costs_pe

theorem At.counting {heard : MessageKind → Nat → Prop} (hat : s.At t pe heard once)
    (hk : k ∉ [MessageKind.batch, .receipt, .mask, .request, .assigned])
    (hseat : s'.seat = s.seat) (hstage : s'.stage = s.stage) (hserving : s'.serving = s.serving)
    (hoffsets : s'.offsets.pe = s.offsets.pe) (hcosts : s'.costs.pe = s.costs.pe)
    (hother : ∀ k' ≠ k, ∀ P, s.Keeps t pe P k' → s'.Keeps t pe P k')
    (hsame : s'.Keeps t pe (fun j => heard k j ∨ j = q) k) :
    s'.At t pe (adding heard k q) once where
  seat_eq := hseat.trans hat.seat_eq
  stage := hstage ▸ hat.stage.adding hk
  keeps := hat.keeps_adding hother hsame
  serving g hg := by
    rw [State.mark, hstage]
    exact hat.serving g (hserving ▸ hg)
  offsets_pe := hoffsets.trans hat.offsets_pe
  costs_pe := hcosts.trans hat.costs_pe

theorem Acts.silent (hat : s'.At t pe (adding (Heard h) k q) once) (hmark : s'.mark = s.mark)
    (hphase : s'.phase = s.phase) (hback : s'.backlog = s.backlog)
    (hno : ∀ k' : MessageKind, k'.answers? = some k → ¬ k'.saidFrom ≤ s.mark) :
    s.Acts s' t once pe k q h h := by
  refine ⟨hat, hmark, hphase, hback, none, .refl h, fun k' => ?_, fun k' hk' => by cases hk'⟩
  constructor
  · intro hk'
    cases hk'
  · rintro ⟨hk', hle⟩
    exact absurd hle (hno k' hk')

theorem Acts.answered (hat : s'.At t pe (adding (Heard h) k q) once) (hmark : s'.mark = s.mark)
    (hphase : s'.phase = s.phase) (hback : s'.backlog = s.backlog) {a : MessageKind}
    (ha : a.answers? = some k) (hsaid : a.saidFrom ≤ s.mark)
    (hfits : (t.message a pe q).unfit? = none) :
    s.Acts s' t once pe k q h (h ++ [.sent q (t.message a pe q)]) := by
  refine ⟨hat, hmark, hphase, hback, some a, adds_send, fun k' => ?_, fun k' hk' => ?_⟩
  · constructor
    · rintro hk'
      obtain rfl := Option.some.inj hk'
      exact ⟨ha, hsaid⟩
    · rintro ⟨hk', -⟩
      cases k <;> cases a <;> cases ha <;> cases k' <;> cases hk' <;> rfl
  · obtain rfl := Option.some.inj hk'
    exact hfits

theorem leads_update {α : Type} {x : Except Fault α} {make : α → State}
    {P : State → List Event → Prop} {Q : Fault → List Event → Prop} :
    (do let a ← x; return make a : Script State).Leads h P Q ↔
      (∀ a, x = .ok a → P (make a) h) ∧ ∀ e, x = .error e → Q e h := by
  rw [leads_bind, leads_lift]
  simp only [leads_pure]

namespace Live

theorem passes_head (hl : s.Live t once pe (t.message k q pe :: pend) h) : t.Passes k q pe := by
  have hp := hl.passes _ (List.mem_cons_self ..)
  rwa [Scenario.kind_message, Scenario.sender_message] at hp

theorem repeated (hl : s.Live t once pe (t.message k q pe :: pend) h) {e : Fault}
    (hh : Heard h k q) (he : e.isRemote = false) :
    e.isRemote = false ∧ (once → t.Flaw pe e ∧ k.isQuestion = true) := by
  refine ⟨he, fun ho => absurd ?_ (hl.not_heard ho)⟩
  rwa [Scenario.kind_message, Scenario.sender_message]

/-! Kinds that are counted once for each sender, whatever the stage. -/

theorem react_counted {α β : Type} {r : RollCall α} {f : Nat → α} {x : Except Fault β}
    {update : RollCall α → β} {make : β → State} {me : Nat}
    (hl : s.Live t once pe (t.message k q pe :: pend) h)
    (hkeep : r.Holds k t.npes (Heard h k) f) (hk : k.actedFrom = 0) (hq : k.isQuestion = false)
    (hreact : s.react (t.message k q pe) = some do let b ← x; return make b)
    (hx : x = (r.record me q (f q)).map update)
    (hstage : ∀ b, (make b).stage = s.stage) (hback : ∀ b, (make b).backlog = s.backlog)
    (hat : ∀ r' : RollCall α, r'.Holds k t.npes (fun j => Heard h k j ∨ j = q) f →
      (make (update r')).At t pe (adding (Heard h) k q) once) :
    s.Reacts t once pe k q h := by
  subst hx
  refine .inl ⟨_, hreact, hk ▸ Nat.zero_le _, leads_update.2 ⟨fun b hb => ?_, fun e he => ?_⟩⟩
  · obtain ⟨r', hr', rfl⟩ := map_eq_ok hb
    refine .silent (hat r' (.of_record hkeep hr')) ?_ ?_ (hback _) (no_answer hq)
    · rw [State.mark, State.mark, hstage]
    · rw [phase, phase, hstage]
  · obtain ⟨hh, rfl⟩ := (RollCall.Holds.record_eq_error_iff hkeep).1 (map_eq_error he)
    exact ⟨rfl, hl.repeated hh rfl⟩

theorem react_load (hl : s.Live t once pe (t.message .load q pe :: pend) h) :
    s.Reacts t once pe .load q h := by
  refine hl.react_counted (hl.state.keeps .load) rfl rfl rfl (congrFun Except.map_id _).symm
    (fun _ => rfl) (fun _ => rfl) fun loads hloads => ?_
  refine hl.state.counting (by decide) rfl rfl rfl rfl rfl (fun k' hk P hP => ?_) hloads
  cases k' <;> first | exact hP | exact absurd rfl hk

theorem react_delivered (hl : s.Live t once pe (t.message .delivered q pe :: pend) h) :
    s.Reacts t once pe .delivered q h := by
  refine hl.react_counted (hl.state.keeps .delivered) rfl rfl rfl (congrFun Except.map_id _).symm
    (fun _ => rfl) (fun _ => rfl) fun distributed hdistributed => ?_
  refine hl.state.counting (by decide) rfl rfl rfl rfl rfl (fun k' hk P hP => ?_) hdistributed
  cases k' <;> first | exact hP | exact absurd rfl hk

theorem react_offset (hl : s.Live t once pe (t.message .offset q pe :: pend) h) :
    s.Reacts t once pe .offset q h := by
  refine hl.react_counted (hl.state.keeps .offset) rfl rfl rfl rfl (fun _ => rfl) (fun _ => rfl)
    fun counts hcounts => ?_
  refine hl.state.counting (by decide) rfl rfl rfl rfl rfl (fun k' hk P hP => ?_) hcounts
  cases k' <;> first | exact hP | exact absurd rfl hk

theorem react_cost (hl : s.Live t once pe (t.message .cost q pe :: pend) h) :
    s.Reacts t once pe .cost q h := by
  refine hl.react_counted (hl.state.keeps .cost) rfl rfl rfl rfl (fun _ => rfl) (fun _ => rfl)
    fun costs hcosts => ?_
  refine hl.state.counting (by decide) rfl rfl rfl rfl rfl (fun k' hk P hP => ?_) hcosts
  cases k' <;> first | exact hP | exact absurd rfl hk

theorem react_deviation (hl : s.Live t once pe (t.message .deviation q pe :: pend) h) :
    s.Reacts t once pe .deviation q h := by
  refine hl.react_counted (hl.state.keeps .deviation) rfl rfl rfl rfl (fun _ => rfl) (fun _ => rfl)
    fun deviations hdeviations => ?_
  refine hl.state.counting (by decide) rfl rfl rfl rfl rfl (fun k' hk P hP => ?_) hdeviations
  cases k' <;> first | exact hP | exact absurd rfl hk

theorem react_lower (hl : s.Live t once pe (t.message .lower q pe :: pend) h) :
    s.Reacts t once pe .lower q h := by
  obtain ⟨-, -, hnext⟩ := hl.passes_head
  have hkeep := hl.state.keeps .lower
  have hpos : pe ≠ 0 := by omega
  cases hlow : s.lower with
  | none =>
    have hreact : s.react (t.message .lower q pe) =
        some (return { s with lower := some (t.upper q) }) := by
      show (if q + 1 = s.pe then _ else none) = _
      rw [hl.state.pe_eq, hlow]
      exact if_pos hnext
    refine .inl ⟨_, hreact, Nat.zero_le _, leads_pure.2 ?_⟩
    refine .silent (hl.state.counting (by decide) rfl rfl rfl rfl rfl (fun k' hk P hP => ?_)
      fun r => ?_) rfl rfl rfl (no_answer rfl)
    · cases k' <;> first | exact hP | exact absurd rfl hk
    · rw [Option.some.injEq, eq_comm, show t.upper q = t.lower pe from hnext ▸ rfl]
      exact (and_iff_left (.inr ⟨q, hnext, .inr rfl⟩)).symm
  | some r =>
    have hreact : s.react (t.message .lower q pe) = some (fail (.repeated s.pe q .lower)) := by
      show (if q + 1 = s.pe then _ else none) = _
      rw [hl.state.pe_eq, hlow]
      exact if_pos hnext
    refine .inl ⟨_, hreact, Nat.zero_le _, leads_fail.2 ⟨rfl, ?_⟩⟩
    obtain ⟨-, ⟨h0, -⟩ | ⟨q', hq', hh⟩⟩ := (hkeep r).1 hlow
    · exact absurd h0 hpos
    · obtain rfl : q' = q := by omega
      exact hl.repeated hh rfl

/-! Kinds that wait for their phase. -/

theorem react_batch (hl : s.Live t once pe (t.message .batch q pe :: pend) h) :
    s.Reacts t once pe .batch q h := by
  have hp := hl.passes_head
  have hm : t.message .batch q pe = .batch q (t.part q pe) := rfl
  cases hst : s.stage with
  | shipping x =>
    have hat : x.shipment.At t pe (Heard h .batch) (Heard h .receipt) := hl.state.of_stage hst
    have hmark : 1 ≤ s.mark := by
      rw [State.mark, hst, Stage.mark]
      split <;> omega
    refine .inl ⟨_, by rw [hm, react, hst], hmark, leads_bind.2 (leads_lift.2
      ⟨fun shipment hok => ?_, fun e he => ?_⟩)⟩
    · refine leads_bind.2 (leads_send.2 ⟨fun hfits => leads_pure.2 ?_, fun e he => ?_⟩)
      · have hsame : Stage.mark (.shipping { x with shipment }) = s.stage.mark := by
          rw [hst]
          rfl
        have hphase : Stage.phase (.shipping { x with shipment }) = s.stage.phase := by
          rw [hst]
          rfl
        have hstage : Stage.At t pe (adding (Heard h) .batch q) once
            (.shipping { x with shipment }) := by
          show Shipment.At _ _ _ (adding _ _ _ .batch) (adding _ _ _ .receipt)
          rw [adding_self, adding_of_ne (by decide)]
          exact hat.of_unpack hp hok
        rw [hl.state.pe_eq] at hfits ⊢
        exact Acts.answered (a := .receipt) (hl.state.restage hstage hsame (by decide)) hsame hphase
          rfl rfl (Nat.zero_le _) hfits
      · rw [hl.state.pe_eq] at he
        have hanswer : t.Passes .receipt pe q := (Scenario.passes_answer rfl).2 hp
        exact ⟨rfl, rfl, fun _ => ⟨.unfit hanswer he, rfl⟩⟩
    · obtain ⟨hh, hremote⟩ := hat.unpack_error hp he
      exact ⟨rfl, hl.repeated hh hremote⟩
  | setup x =>
    refine .inr ⟨by rw [hm, react, hst], ?_⟩
    refine .inl ⟨by decide, ?_⟩
    show s.stage.mark < 1
    rw [hst]
    exact Nat.lt_succ_self 0
  | _ =>
    refine .inr ⟨by rw [hm, react, hst], ?_⟩
    refine .inr (hl.record.level .batch q hp (Stage.three_le_mark ?_))
    simp [hst, Stage.phase, Phase.rank]

theorem react_receipt (hl : s.Live t once pe (t.message .receipt q pe :: pend) h)
    (hshipped : 1 ≤ s.mark) : s.Reacts t once pe .receipt q h := by
  have hp := hl.passes_head
  have hbatch : t.Passes .batch pe q := (Scenario.passes_answer rfl).1 hp
  have hm : t.message .receipt q pe = .receipt q := rfl
  cases hst : s.stage with
  | shipping x =>
    have hat : x.shipment.At t pe (Heard h .batch) (Heard h .receipt) := hl.state.of_stage hst
    refine .inl ⟨_, by rw [hm, react, hst], hshipped, leads_update.2
      ⟨fun shipment hok => ?_, fun e he => ?_⟩⟩
    · have hsame : Stage.mark (.shipping { x with shipment }) = s.stage.mark := by
        rw [hst]
        rfl
      have hphase : Stage.phase (.shipping { x with shipment }) = s.stage.phase := by
        rw [hst]
        rfl
      refine .silent (hl.state.restage ?_ hsame (by decide)) hsame hphase rfl (no_answer rfl)
      show Shipment.At _ _ _ (adding _ _ _ .batch) (adding _ _ _ .receipt)
      rw [adding_self, adding_of_ne (by decide)]
      exact hat.of_book hbatch hok
    · obtain ⟨hh, hremote⟩ := hat.book_error hbatch he
      exact ⟨rfl, hl.repeated hh hremote⟩
  | setup x =>
    rw [State.mark, hst] at hshipped
    exact absurd hshipped (Nat.not_succ_le_zero 0)
  | _ =>
    refine .inr ⟨by rw [hm, react, hst], ?_⟩
    have h3 : 3 ≤ s.mark := Stage.three_le_mark (by simp [hst, Stage.phase, Phase.rank])
    exact .inr (hl.record.level .receipt q hp (Nat.le_of_succ_le h3))

theorem react_query (hl : s.Live t once pe (t.message .query q pe :: pend) h) :
    s.Reacts t once pe .query q h := by
  have hp := hl.passes_head
  obtain ⟨hkeep, hretired⟩ := hl.state.keeps .query
  have hm : t.message .query q pe = .query q (t.holdings q).nodes.elems := rfl
  cases hserve : s.serving with
  | none =>
    refine .inr ⟨by rw [hm, react, hserve]; rfl, ?_⟩
    rcases hretired hserve with hlt | hall
    · exact .inl ⟨by decide, hlt⟩
    · exact .inr (hall q hp.1)
  | some g =>
    obtain ⟨rfl, hmark⟩ := hl.state.serving g hserve
    refine .inl ⟨_, by rw [hm, react, hserve]; rfl,
      hmark, leads_bind.2 (leads_lift.2 ⟨fun queries hok => ?_, fun e he => ?_⟩)⟩
    · refine leads_bind.2 (leads_send.2 ⟨fun hfits => leads_pure.2 ?_, fun e he => ?_⟩)
      · have hat : State.At { s with queries } t pe (adding (Heard h) .query q) once := by
          refine hl.state.counting (by decide) rfl rfl rfl rfl rfl (fun k' hk P hP => ?_)
            ⟨RollCall.Holds.of_record hkeep hok, fun hn => ?_⟩
          · cases k' <;> first | exact hP | exact absurd rfl hk
          · rw [show State.serving { s with queries } = s.serving from rfl, hserve] at hn
            cases hn
        rw [hl.state.pe_eq] at hfits ⊢
        exact Acts.answered (s := s) (a := .mask) hat rfl rfl rfl rfl (Nat.zero_le _) hfits
      · rw [hl.state.pe_eq] at he
        have hanswer : t.Passes .mask pe q := (Scenario.passes_answer rfl).2 hp
        exact ⟨rfl, rfl, fun _ => ⟨.unfit hanswer he, rfl⟩⟩
    · obtain ⟨hh, rfl⟩ := (RollCall.Holds.record_eq_error_iff hkeep).1 he
      exact ⟨rfl, hl.repeated hh rfl⟩

theorem react_mask (hl : s.Live t once pe (t.message .mask q pe :: pend) h) :
    s.Reacts t once pe .mask q h := by
  have hp := hl.passes_head
  have hm : t.message .mask q pe = .mask q (t.mask q pe) := rfl
  cases hst : s.stage with
  | indexed x =>
    obtain ⟨hlayout, hnodes, hholdings, hmasks⟩ := hl.state.of_stage hst
    have hmark : 3 ≤ s.mark := by
      rw [State.mark, hst]
      exact Nat.le_refl 3
    refine .inl ⟨_, by rw [hm, react, hst], hmark, leads_update.2
      ⟨fun masks hok => ?_, fun e he => ?_⟩⟩
    · have hsame : Stage.mark (.indexed { x with masks }) = s.stage.mark := by
        rw [hst]
        rfl
      have hphase : Stage.phase (.indexed { x with masks }) = s.stage.phase := by
        rw [hst]
        rfl
      refine .silent (hl.state.restage ⟨hlayout, hnodes, hholdings, ?_⟩ hsame (by decide)) hsame
        hphase rfl (no_answer rfl)
      rw [adding_self]
      exact RollCall.Holds.of_record hmasks hok
    · obtain ⟨hh, rfl⟩ := (RollCall.Holds.record_eq_error_iff hmasks).1 he
      exact ⟨rfl, hl.repeated hh rfl⟩
  | setup x | shipping x =>
    refine .inr ⟨by rw [hm, react, hst], ?_⟩
    refine .inl ⟨by decide, ?_⟩
    rw [State.mark, hst, Stage.mark, MessageKind.actedFrom]
    first | omega | (split <;> omega)
  | _ =>
    refine .inr ⟨by rw [hm, react, hst], ?_⟩
    refine .inr (hl.record.level .mask q hp (Stage.four_le_mark ?_))
    simp [hst, Stage.phase, Phase.rank]

theorem react_request (hl : s.Live t once pe (t.message .request q pe :: pend) h)
    (hdone : s.mark < 9) : s.Reacts t once pe .request q h := by
  have hp := hl.passes_head
  have hreact : s.react (t.message .request q pe) =
    s.stage.numbering?.map fun r => s.request r q (t.wants q pe).elems := rfl
  by_cases hmark : 4 ≤ s.mark
  · obtain ⟨r, hr⟩ := Stage.numbering?_isSome hmark hdone
    have hat := hl.state.stage.numbering hr
    obtain ⟨r', hask, hat'⟩ := hat.ask hp fun ho => hl.not_heard ho
    rw [hr] at hreact
    refine .inl ⟨_, hreact, hmark, ?_⟩
    have hsame := Stage.mark_withNumbering hr hat'.isGivenOut_eq
    have hstate : State.At { s with stage := s.stage.withNumbering r' } t pe
        (adding (Heard h) .request q) once := by
      refine hl.state.restage (hl.state.stage.withNumbering hr ?_) hsame (by decide)
      rw [adding_self, adding_of_ne (by decide)]
      exact hat'
    have hsaid := hl.state.stage.five_le_mark_iff hr
    show (s.request r q (t.wants q pe).elems).Leads _ _ _
    rw [State.request, hask]
    refine leads_bind.2 (leads_lift.2 ⟨fun x hx => ?_, fun e he => by cases he⟩)
    obtain rfl := Except.ok.inj hx
    cases hgiven : r.isGivenOut with
    | false =>
      refine leads_pure.2 (.silent hstate hsame Stage.phase_withNumbering rfl fun k' hk' hle => ?_)
      cases k' <;> cases hk'
      rw [hsaid.1 hle] at hgiven
      cases hgiven
    | true =>
      refine leads_bind.2 (leads_send.2 ⟨fun hfits => leads_pure.2 ?_, fun e he => ?_⟩)
      · rw [show State.pe { s with stage := s.stage.withNumbering r' } = pe from hl.state.pe_eq]
          at hfits ⊢
        show s.Acts _ t once pe .request q h (h ++ [.sent q (t.message .assigned pe q)])
        exact .answered hstate hsame Stage.phase_withNumbering rfl rfl (hsaid.2 hgiven) hfits
      · rw [show State.pe { s with stage := s.stage.withNumbering r' } = pe from hl.state.pe_eq]
          at he
        have hanswer : t.Passes .assigned pe q := (Scenario.passes_answer rfl).2 hp
        exact ⟨rfl, rfl, fun _ => ⟨.unfit hanswer he, rfl⟩⟩
  · refine .inr ⟨?_, .inl ⟨by decide, Nat.lt_of_not_le hmark⟩⟩
    rw [hreact, Stage.numbering?_eq_none (Nat.lt_of_not_le hmark)]
    rfl

theorem react_assigned (hl : s.Live t once pe (t.message .assigned q pe :: pend) h)
    (hdone : s.mark < 9) : s.Reacts t once pe .assigned q h := by
  have hp := hl.passes_head
  have hreact : s.react (t.message .assigned q pe) =
    s.stage.numbering?.map fun r => s.absorb r q (t.idsFor q pe) := rfl
  by_cases hmark : 4 ≤ s.mark
  · obtain ⟨r, hr⟩ := Stage.numbering?_isSome hmark hdone
    have hat := hl.state.stage.numbering hr
    obtain ⟨r', hlearn, hat'⟩ := hat.learn hp
    rw [hr] at hreact
    refine .inl ⟨_, hreact, hmark, ?_⟩
    show (s.absorb r q (t.idsFor q pe)).Leads _ _ _
    rw [State.absorb, hlearn]
    have hsame := Stage.mark_withNumbering hr hat'.isGivenOut_eq
    have hstage : (s.stage.withNumbering r').At t pe (adding (Heard h) .assigned q) once := by
      apply hl.state.stage.withNumbering hr
      rw [adding_self, adding_of_ne (by decide)]
      exact hat'
    exact leads_pure.2 (.silent (hl.state.restage hstage hsame (by decide)) hsame
      Stage.phase_withNumbering rfl (no_answer rfl))
  · refine .inr ⟨?_, .inl ⟨by decide, Nat.lt_of_not_le hmark⟩⟩
    rw [hreact, Stage.numbering?_eq_none (Nat.lt_of_not_le hmark)]
    rfl

theorem react (hl : s.Live t once pe (t.message k q pe :: pend) h) (hdone : s.mark < 9)
    (hreceipt : k = .receipt → 1 ≤ s.mark) : s.Reacts t once pe k q h := by
  cases k with
  | load => exact hl.react_load
  | batch => exact hl.react_batch
  | receipt => exact hl.react_receipt (hreceipt rfl)
  | delivered => exact hl.react_delivered
  | query => exact hl.react_query
  | mask => exact hl.react_mask
  | offset => exact hl.react_offset
  | request => exact hl.react_request hdone
  | assigned => exact hl.react_assigned hdone
  | lower => exact hl.react_lower
  | cost => exact hl.react_cost
  | deviation => exact hl.react_deviation
  | abort => exact absurd hl.passes_head.2.2 not_false

theorem take {m : Message} (hl : s.Live t once pe (m :: pend) h) (hpatient : s.Patient)
    (hdone : s.mark < 9) (hreceipt : m.kind = .receipt → 1 ≤ s.mark)
    (hdelivered : m.kind = .delivered → t.Passes .batch m.sender pe → Heard h .batch m.sender) :
    (s.take m).Leads h
      (fun s' h' => s'.Live t once pe pend h' ∧ s'.Patient ∧ s'.phase = s.phase ∧ s'.mark = s.mark)
      fun e h' => h' = h ∧ e.isRemote = false ∧
        (once → t.Flaw pe e ∧ m.kind.isQuestion = true) := by
  have hm := hl.genuine m (List.mem_cons_self ..)
  have hreacts : s.Reacts t once pe m.kind m.sender h := (hm ▸ hl).react hdone hreceipt
  unfold Reacts at hreacts
  rw [← hm] at hreacts
  obtain ⟨reaction, hreact, hfrom, hleads⟩ | ⟨hreact, hearly | hheard⟩ := hreacts
  · rw [State.take, hreact]
    refine leads_bind.2 (hleads.mono (fun s' h₁ ha => ?_) fun e h' he => he)
    obtain ⟨answer, hadds, hanswer, hfits⟩ := ha.answer
    refine leads_bind.2 (leads_accept.2 (leads_pure.2 ⟨?_, ?_, ha.phase_eq, ha.mark_eq⟩))
    · exact hl.act hadds ha.state ha.mark_eq ha.backlog_eq hfrom hdelivered hanswer hfits
    · intro m' hm'
      rw [ha.phase_eq]
      exact hpatient m' (ha.backlog_eq ▸ hm')
  · obtain ⟨hkind, hlt⟩ := hearly
    have hphase : s.phase < m.kind.opening := (Stage.phase_lt_opening_iff hkind).2 hlt
    rw [State.take, hreact]
    show (if s.phase < m.kind.opening then _ else _ : Script State).Leads _ _ _
    rw [if_pos hphase]
    refine leads_pure.2 ⟨hl.keep, fun m' hm' => ?_, rfl, rfl⟩
    rcases List.mem_append.1 hm' with hm' | hm'
    · exact hpatient m' hm'
    · rw [List.mem_singleton.1 hm']
      exact hphase
  · have hphase : ¬ s.phase < m.kind.opening := by
      by_cases hkind : m.kind = .receipt
      · rw [hkind]
        exact Nat.not_lt_zero _
      · rw [State.phase, Stage.phase_lt_opening_iff hkind, Nat.not_lt]
        obtain ⟨m', hm', hk, -⟩ := hheard
        exact hk ▸ hl.record.actedFrom_le m' hm'
    rw [State.take, hreact]
    show (if s.phase < m.kind.opening then _ else _ : Script State).Leads _ _ _
    rw [if_neg hphase]
    exact leads_fail.2 ⟨rfl, rfl, fun ho => absurd hheard (hl.not_heard ho)⟩

end Live
end State
end MeshNumbering
