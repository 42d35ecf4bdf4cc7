import MeshNumbering.Proofs.Processor.Actions
import MeshNumbering.Proofs.Processor.Ledger
import MeshNumbering.Proofs.Steps

/-! What comes of a script when all goes well. A message is acted on within the phase or kept. The
work of a phase leads one phase ahead, or what the phase waits for is still missing. -/

namespace MeshNumbering
open History

/-- When all goes well the script ends in `a`, with the messages `l` acted on. -/
structure Script.Yields {α : Type} (x : Script α) (a : α) (l : List Message) : Prop where
  result_eq : x.result = .ok a
  taken_eq : taken (x.actions.map Action.event) = l

namespace Script
variable {α β : Type} {x : Script β} {f : β → Script α} {a : α} {b : β} {l : List Message}

@[simp] theorem result_pure : (pure a : Script α).result = .ok a := rfl

@[simp] theorem result_lift {r : Except Fault α} : (liftM r : Script α).result = r := rfl

@[simp] theorem result_send {peer : Nat} {m : Message} : (send peer m).result = .ok () := rfl

@[simp] theorem result_call {c : Call} : (call c).result = .ok () := rfl

@[simp] theorem result_enter {p : Phase} : (enter p).result = .ok () := rfl

@[simp] theorem result_bind : (x >>= f).result = x.result >>= fun b => (f b).result := by
  show (Script.bind x f).result = _
  unfold Script.bind
  cases x.result <;> rfl

theorem result_bind_eq_ok_iff :
    (x >>= f).result = .ok a ↔ ∃ b, x.result = .ok b ∧ (f b).result = .ok a := by
  rw [result_bind, bind_eq_ok_iff]

theorem actions_bind (h : x.result = .ok b) :
    (x >>= f).actions = x.actions ++ (f b).actions := by
  show (Script.bind x f).actions = _
  unfold Script.bind
  rw [h]

theorem Yields.of_bind (h : (x >>= f).Yields a l) :
    ∃ b l₁ l₂, x.Yields b l₁ ∧ (f b).Yields a l₂ ∧ l = l₁ ++ l₂ := by
  obtain ⟨b, hb, ha⟩ := result_bind_eq_ok_iff.1 h.result_eq
  refine ⟨b, _, _, ⟨hb, rfl⟩, ⟨ha, rfl⟩, ?_⟩
  rw [← h.taken_eq, actions_bind hb, List.map_append, taken_append]

theorem Yields.of_pure {a' : α} (h : (pure a : Script α).Yields a' l) : a' = a ∧ l = [] :=
  ⟨(Except.ok.inj h.result_eq).symm, h.taken_eq.symm⟩

theorem yields_of_run {x : Script α} {links : Links} {events : List Event}
    (h : x.run links = (events, .ok a)) : x.Yields a (taken events) := by
  obtain ⟨hresult, rfl⟩ := of_run_eq_ok h
  exact ⟨hresult, rfl⟩

theorem Moves.taken_eq {x : Script α} (hx : x.Moves) :
    taken (x.actions.map Action.event) = [] := by
  apply List.filterMap_eq_nil_iff.2
  intro e he
  obtain ⟨y, hy, rfl⟩ := List.mem_map.1 he
  have hmove := hx y hy
  cases y with
  | accept m => cases hmove
  | _ => rfl

theorem Moves.yields_nil {x : Script α} (hx : x.Moves) (h : x.Yields a l) : l = [] :=
  h.taken_eq.symm.trans hx.taken_eq

end Script

namespace State
open Script
variable {s s' : State} {β : Type}

@[simp] theorem result_report {m : Milestone} : (s.report m).result = .ok () := by
  unfold report
  split <;> rfl

@[simp] theorem result_tellAll {m : Message} : (s.tellAll m).result = .ok () := rfl

@[simp] theorem result_sendEach {make : β → Message} {l : List (Nat × β)} :
    (sendEach make l).result = .ok () := by
  induction l with
  | nil => rfl
  | cons e l ih =>
    show (send e.1 (make e.2) >>= fun _ => sendEach make l).result = _
    rw [result_bind]
    exact ih

@[simp] theorem result_calls {make : β → Call} {l : List β} :
    (l.forM fun b => call (make b)).result = .ok () := by
  induction l with
  | nil => rfl
  | cons b l ih =>
    show (call (make b) >>= fun _ => l.forM fun b => call (make b)).result = _
    rw [result_bind]
    exact ih

/-! Within a phase. -/

/-- The phase is the same still, and so is what is kept and what is served. -/
structure Abides (s s' : State) : Prop where
  phase_eq : s'.phase = s.phase
  backlog_eq : s'.backlog = s.backlog
  serving_eq : s'.serving = s.serving

theorem abides_refl (s : State) : s.Abides s := ⟨rfl, rfl, rfl⟩

theorem abides_of_stage {x : Stage} (h : x.phase = s.phase) : s.Abides { s with stage := x } :=
  ⟨h, rfl, rfl⟩

theorem abides_of_react {m : Message} {reaction : Script State} (hm : s.react m = some reaction)
    (h : reaction.result = .ok s') : s.Abides s' := by
  cases m with
  | load | delivered | offset | cost | deviation =>
    obtain rfl := Option.some.inj hm
    obtain ⟨_, -, h⟩ := result_bind_eq_ok_iff.1 h
    obtain rfl := Except.ok.inj h
    exact ⟨rfl, rfl, rfl⟩
  | abort =>
    obtain rfl := Option.some.inj hm
    cases h
  | batch =>
    simp only [react] at hm
    split at hm
    · next t hst =>
      obtain rfl := Option.some.inj hm
      simp only [result_bind, result_lift, result_send, bind_eq_ok_iff] at h
      obtain ⟨shipment, -, _, -, h⟩ := h
      obtain rfl := Except.ok.inj h
      exact abides_of_stage (congrArg Stage.phase hst).symm
    · cases hm
  | receipt | mask =>
    simp only [react] at hm
    split at hm
    · next t hst =>
      obtain rfl := Option.some.inj hm
      obtain ⟨_, -, h⟩ := result_bind_eq_ok_iff.1 h
      obtain rfl := Except.ok.inj h
      exact abides_of_stage (congrArg Stage.phase hst).symm
    · cases hm
  | query =>
    obtain ⟨g, -, rfl⟩ := Option.map_eq_some_iff.1 hm
    simp only [answer, result_bind, result_lift, result_send, bind_eq_ok_iff] at h
    obtain ⟨queries, -, _, -, h⟩ := h
    obtain rfl := Except.ok.inj h
    exact ⟨rfl, rfl, rfl⟩
  | request =>
    obtain ⟨r, -, rfl⟩ := Option.map_eq_some_iff.1 hm
    obtain ⟨⟨_ | ids, r'⟩, -, h⟩ := result_bind_eq_ok_iff.1 h
    all_goals
      obtain rfl := Except.ok.inj h
      exact abides_of_stage Stage.phase_withNumbering
  | assigned =>
    obtain ⟨r, -, rfl⟩ := Option.map_eq_some_iff.1 hm
    unfold absorb at h
    split at h
    · cases h
    · obtain rfl := Except.ok.inj h
      exact abides_of_stage Stage.phase_withNumbering
  | lower =>
    simp only [react] at hm
    split at hm
    · split at hm
      · obtain rfl := Option.some.inj hm
        obtain rfl := Except.ok.inj h
        exact ⟨rfl, rfl, rfl⟩
      · obtain rfl := Option.some.inj hm
        cases h
    · cases hm

theorem take_cases {m : Message} {l : List Message} (h : (s.take m).Yields s' l) :
    (l = [m] ∧ s.Abides s') ∨ (l = [] ∧ s.react m = none ∧ s.phase < m.kind.opening ∧
      s' = { s with backlog := s.backlog ++ [m] }) := by
  unfold take at h
  split at h
  · next reaction hm =>
    obtain ⟨t, l₁, l₂, ht, hend, rfl⟩ := h.of_bind
    obtain rfl := (moves_of_sends (sends_react hm)).yields_nil ht
    obtain rfl : t = s' := Except.ok.inj hend.result_eq
    exact .inl ⟨hend.taken_eq.symm, abides_of_react hm ht.result_eq⟩
  · next hm =>
    split at h
    · next hearly =>
      obtain ⟨rfl, rfl⟩ := h.of_pure
      exact .inr ⟨rfl, hm, hearly, rfl⟩
    · cases h.result_eq

/-! From one phase to the next. -/

/-- What the phase waits for is still missing, and everything has been said that can be said without
it. -/
def Idle (s : State) : Prop :=
  match s.stage with
  | .setup _ => ¬ s.loads.isComplete
  | .shipping t => (t.announced ∨ ¬ t.shipment.isDelivered) ∧
      ¬ (t.announced && s.distributed.isComplete)
  | .indexed t => ¬ t.masks.isComplete
  | .numbering t => (s.offsets.base? = none ∨ t.numbering.isGivenOut) ∧ ¬ t.numbering.isComplete
  | .bounding _ => s.lower = none
  | .costing t => (s.costs.mean? = none ∨ t.announced) ∧ s.costs.statistics? = none
  | .done _ => True

structure Ahead (s s' : State) : Prop where
  rank_eq : s'.phase.rank = s.phase.rank + 1
  backlog_eq : s'.backlog = s.backlog
  serving : s'.serving = s.serving ∨ .indexed ≤ s'.phase

theorem ahead_of_stage {x : Stage} {lower : Option Nat}
    (h : x.phase.rank = s.phase.rank + 1) : s.Ahead { s with stage := x, lower } :=
  ⟨h, rfl, .inl rfl⟩

theorem ahead_of_ship {t : Setup} (hst : s.stage = .setup t) (h : (s.ship t).result = .ok s') :
    s.Ahead s' := by
  simp only [ship, result_bind, result_lift, result_call, result_report, result_sendEach,
    result_enter, result_pure, ok_bind, bind_eq_ok_iff, Except.ok.injEq] at h
  obtain ⟨nchare, -, layout, -, chares, -, _, -, rfl⟩ := h
  exact ahead_of_stage (by rw [phase, hst]; rfl)

theorem ahead_of_takeStock {t t' : Shipping} (hst : s.stage = .shipping t)
    (h : (s.takeStock t').result = .ok s') : s.Ahead s' := by
  simp only [takeStock, result_bind, result_lift, result_report, result_tellAll, result_enter,
    result_pure, ok_bind, bind_eq_ok_iff, Except.ok.injEq] at h
  obtain ⟨holdings, -, rfl⟩ := h
  exact ⟨by rw [phase, phase, hst]; rfl, rfl, .inr (Nat.le_refl _)⟩

theorem ahead_of_share {t : Indexed} (hst : s.stage = .indexed t)
    (h : (s.share t).result = .ok s') : s.Ahead s' := by
  simp only [share, result_bind, result_lift, result_report, result_tellAll, result_enter,
    result_pure, ok_bind, bind_eq_ok_iff, Except.ok.injEq] at h
  obtain ⟨sharing, -, rfl⟩ := h
  exact ahead_of_stage (by rw [phase, hst]; rfl)

theorem ahead_of_relabel {t t' : Reordering} {base : Nat} (hst : s.stage = .numbering t)
    (h : (s.relabel t' base).result = .ok s') : s.Ahead s' := by
  simp only [relabel, result_bind, result_lift, result_report, ok_bind, bind_eq_ok_iff] at h
  obtain ⟨relabelling, -, h⟩ := h
  split at h
  all_goals
    obtain rfl := Except.ok.inj h
    exact ahead_of_stage (by rw [phase, hst]; rfl)

theorem ahead_of_employ {t : Bounding} {lower : Nat} (hst : s.stage = .bounding t)
    (h : (s.employ t lower).result = .ok s') : s.Ahead s' := by
  simp only [employ, result_bind, result_report, result_calls, result_call, result_tellAll,
    result_enter, result_pure, ok_bind, Except.ok.injEq] at h
  obtain rfl := h
  exact ahead_of_stage (by rw [phase, hst]; rfl)

theorem ahead_of_finish {t t' : Costing} {statistics : CostStatistics}
    (hst : s.stage = .costing t) (h : (s.finish t' statistics).result = .ok s') : s.Ahead s' := by
  simp only [finish, result_bind, result_call, result_enter, ok_bind] at h
  split at h
  · cases h
  · obtain rfl := Except.ok.inj h
    exact ahead_of_stage (by rw [phase, hst]; rfl)

theorem announced_of_announce {t t' : Shipping} (h : (s.announce t).result = .ok t') :
    t'.announced ∨ ¬ t'.shipment.isDelivered := by
  unfold announce at h
  split at h
  · rw [result_bind, result_tellAll] at h
    obtain rfl := Except.ok.inj h
    exact .inl rfl
  · next hc =>
    obtain rfl := Except.ok.inj h
    rcases Bool.eq_false_or_eq_true t.announced with hann | hann
    · exact .inl hann
    · exact .inr fun hd => hc (by rw [hann, hd]; rfl)

theorem givenOut_of_number {t t' : Reordering} (h : (s.number t).result = .ok t') :
    s.offsets.base? = none ∨ t'.numbering.isGivenOut := by
  unfold number at h
  split at h
  · next hbase => exact .inl hbase
  · split at h
    · next hgiven =>
      obtain rfl := Except.ok.inj h
      exact .inr hgiven
    · simp only [result_bind, result_lift, result_sendEach, result_pure, ok_bind, bind_eq_ok_iff,
        Except.ok.injEq] at h
      obtain ⟨answers, -, rfl⟩ := h
      exact .inr rfl

theorem announced_of_compare {t t' : Costing} (h : (s.compare t).result = .ok t') :
    s.costs.mean? = none ∨ t'.announced := by
  unfold compare at h
  split at h
  · next hmean => exact .inl hmean
  · split at h
    · next hann =>
      obtain rfl := Except.ok.inj h
      exact .inr hann
    · rw [result_bind, result_tellAll] at h
      obtain rfl := Except.ok.inj h
      exact .inr rfl

theorem work_cases (h : s.work.result = .ok s') : s.Ahead s' ∨ s.Abides s' ∧ s'.Idle := by
  unfold work at h
  split at h
  · next t hst =>
    split at h
    · exact .inl (ahead_of_ship hst h)
    · next hc =>
      obtain rfl := Except.ok.inj h
      refine .inr ⟨abides_refl s, ?_⟩
      rw [Idle, hst]
      exact hc
  · next t hst =>
    obtain ⟨t', ht, h⟩ := result_bind_eq_ok_iff.1 h
    split at h
    · exact .inl (ahead_of_takeStock hst h)
    · next hc =>
      obtain rfl := Except.ok.inj h
      exact .inr ⟨abides_of_stage (congrArg Stage.phase hst).symm, announced_of_announce ht, hc⟩
  · next t hst =>
    split at h
    · exact .inl (ahead_of_share hst h)
    · next hc =>
      obtain rfl := Except.ok.inj h
      refine .inr ⟨abides_refl s, ?_⟩
      rw [Idle, hst]
      exact hc
  · next t hst =>
    obtain ⟨t', ht, h⟩ := result_bind_eq_ok_iff.1 h
    have hstays : s.Abides { s with stage := .numbering t' } :=
      abides_of_stage (congrArg Stage.phase hst).symm
    split at h
    · split at h
      · exact .inl (ahead_of_relabel hst h)
      · next hc =>
        obtain rfl := Except.ok.inj h
        exact .inr ⟨hstays, givenOut_of_number ht, hc⟩
    · next hnone =>
      obtain rfl := Except.ok.inj h
      refine .inr ⟨hstays, givenOut_of_number ht, ?_⟩
      simp [Numbering.isComplete, Numbering.isGivenOut, hnone]
  · next t hst =>
    split at h
    · exact .inl (ahead_of_employ hst h)
    · next hnone =>
      obtain rfl := Except.ok.inj h
      refine .inr ⟨abides_refl s, ?_⟩
      rw [Idle, hst]
      exact hnone
  · next t hst =>
    obtain ⟨t', ht, h⟩ := result_bind_eq_ok_iff.1 h
    split at h
    · exact .inl (ahead_of_finish hst h)
    · next hnone =>
      obtain rfl := Except.ok.inj h
      exact .inr ⟨abides_of_stage (congrArg Stage.phase hst).symm, announced_of_compare ht, hnone⟩
  · next outcome hst =>
    obtain rfl := Except.ok.inj h
    refine .inr ⟨abides_refl s, ?_⟩
    rw [Idle, hst]
    trivial

theorem Idle.work_eq (h : s.Idle) : s.work = pure s := by
  unfold Idle at h
  unfold work
  cases hst : s.stage with
  | setup t =>
    rw [hst] at h
    exact if_neg h
  | shipping t =>
    rw [hst] at h
    obtain ⟨hsaid, hmissing⟩ := h
    have hannounce : s.announce t = pure t := by
      refine if_neg fun hc => ?_
      rw [Bool.and_eq_true, Bool.not_eq_true'] at hc
      rcases hsaid with hann | hd
      · rw [hann] at hc
        cases hc.1
      · exact hd hc.2
    dsimp only
    rw [hannounce, pure_bind, if_neg hmissing, with_stage hst]
  | indexed t =>
    rw [hst] at h
    exact if_neg h
  | numbering t =>
    rw [hst] at h
    obtain ⟨hgiven, hmissing⟩ := h
    have hnumber : s.number t = pure t := by
      unfold number
      split
      · rfl
      · next base hbase =>
        exact if_pos (hgiven.resolve_left fun hnone => by rw [hbase] at hnone; cases hnone)
    dsimp only
    rw [hnumber, pure_bind, with_stage hst]
    split
    · exact if_neg hmissing
    · rfl
  | bounding t =>
    rw [hst] at h
    have hnone : s.lower = none := h
    dsimp only
    rw [hnone]
  | costing t =>
    rw [hst] at h
    obtain ⟨hsaid, hnone⟩ := h
    have hcompare : s.compare t = pure t := by
      unfold compare
      split
      · rfl
      · next mean hmean =>
        exact if_pos (hsaid.resolve_left fun hnone => by rw [hmean] at hnone; cases hnone)
    dsimp only
    rw [hcompare, pure_bind, hnone, with_stage hst]
  | done outcome => rfl

/-! A round, with what is no longer needed forgotten. -/

theorem phase_retire (s : State) : s.retire.phase = s.phase := congrArg Stage.phase s.stage_retire

theorem serving_retire (s : State) : s.retire.serving = s.serving ∨ s.retire.serving = none := by
  unfold retire
  split
  · exact .inr rfl
  · exact .inl rfl

theorem retire_retire (s : State) : s.retire.retire = s.retire := by
  by_cases hc : .indexed < s.phase ∧ s.queries.isComplete
  · have hretire : s.retire = { s with serving := none } := if_pos hc
    rw [hretire]
    exact if_pos hc
  · have hretire : s.retire = s := if_neg hc
    rw [hretire, hretire]

theorem Idle.retire (h : s.Idle) : s.retire.Idle := by
  unfold State.retire
  split <;> exact h

def Served (s : State) : Prop := s.serving ≠ none → .indexed ≤ s.phase

theorem Abides.served (h : s.Abides s') (hs : s.Served) : s'.Served := by
  unfold Served
  rw [h.serving_eq, h.phase_eq]
  exact hs

structure Round (s s' : State) : Prop where
  backlog_eq : s'.backlog = s.backlog
  served : s.Served → s'.Served
  progress : s'.phase.rank = s.phase.rank + 1 ∨ s'.phase = s.phase ∧ s'.proceed = pure s'

theorem Idle.proceed_retire (h : s.Idle) : s.retire.proceed = pure s.retire := by
  rw [proceed, h.retire.work_eq, pure_bind, retire_retire]

theorem Served.retire (h : s.Served) : s.retire.Served := by
  intro hsome
  rw [phase_retire]
  rcases serving_retire s with hsame | hnone
  · exact h (hsame ▸ hsome)
  · exact absurd hnone hsome

theorem proceed_cases {l : List Message} (h : s.proceed.Yields s' l) : l = [] ∧ s.Round s' := by
  obtain ⟨t, l₁, l₂, ht, hend, rfl⟩ := h.of_bind
  obtain rfl := moves_work.yields_nil ht
  obtain ⟨rfl, rfl⟩ := hend.of_pure
  refine ⟨rfl, ?_⟩
  rcases work_cases ht.result_eq with hahead | ⟨hstays, hidle⟩
  · refine ⟨(backlog_retire t).trans hahead.backlog_eq,
      fun hs => Served.retire fun hsome => ?_, .inl ?_⟩
    · rcases hahead.serving with hsame | hle
      · have hle : Phase.indexed.rank ≤ s.phase.rank := hs (hsame ▸ hsome)
        show Phase.indexed.rank ≤ t.phase.rank
        rw [hahead.rank_eq]
        exact Nat.le_succ_of_le hle
      · exact hle
    · rw [phase_retire, hahead.rank_eq]
  · exact ⟨(backlog_retire t).trans hstays.backlog_eq, fun hs => (hstays.served hs).retire,
      .inr ⟨(phase_retire t).trans hstays.phase_eq, hidle.proceed_retire⟩⟩

end State
end MeshNumbering
