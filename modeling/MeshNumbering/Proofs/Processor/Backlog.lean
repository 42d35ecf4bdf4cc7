import MeshNumbering.Proofs.Processor.Rounds
import MeshNumbering.Proofs.Processor.Standing

/-! Messages that come too early. Whatever comes in is acted on once or waits for a phase that is
still to come. Each new phase takes up what waited for it before it waits itself, so nothing that
could be done is left. -/

namespace MeshNumbering
open History Script

def Script.ending? {α : Type} (x : Script α) : Option (List Event × α) :=
  match x.run .sound with
  | (events, .ok a) => some (events, a)
  | _ => none

theorem Script.run_of_ending? {α : Type} {x : Script α} {e : List Event × α}
    (h : x.ending? = some e) : x.run .sound = (e.1, .ok e.2) := by
  unfold ending? at h
  split at h
  · next heq =>
    obtain rfl := Option.some.inj h
    exact heq
  · cases h

namespace State
variable {s s' : State} {m : Message} {came acted pend l : List Message}

def Ready (s : State) : MessageKind → Prop
  | .batch | .receipt => s.phase = .shipping
  | .query => s.serving ≠ none
  | .mask => s.phase = .indexed
  | .request | .assigned => s.stage.numbering? ≠ none
  | _ => True

theorem numbering_le_phase (h : s.stage.numbering? ≠ none) : .numbering ≤ s.phase := by
  show Phase.numbering.rank ≤ s.stage.phase.rank
  cases hst : s.stage with
  | numbering | bounding | costing => simp [Stage.phase, Phase.rank]
  | _ =>
    rw [hst] at h
    exact absurd rfl h

theorem not_ready_of_early (hs : s.Served) {k : MessageKind} (hk : s.phase < k.opening) :
    ¬ s.Ready k := by
  have hrank : s.phase.rank < k.opening.rank := hk
  intro hready
  cases k with
  | batch | mask =>
    rw [show s.phase = _ from hready] at hrank
    exact absurd hrank (Nat.lt_irrefl _)
  | query => exact absurd hrank (Nat.not_lt.2 (hs hready))
  | request | assigned => exact absurd hrank (Nat.not_lt.2 (numbering_le_phase hready))
  | _ => exact absurd hrank (Nat.not_lt_zero _)

theorem react_eq_none (h : ¬ s.Ready m.kind) : s.react m = none := by
  cases m with
  | batch | receipt | mask =>
    simp only [react]
    split
    · next t hst => exact absurd (congrArg Stage.phase hst) h
    · rfl
  | query =>
    rw [react, not_not.1 h]
    rfl
  | request | assigned =>
    rw [react, not_not.1 h]
    rfl
  | _ => exact absurd trivial h

/-! Acting on messages, early ones included. -/

theorem phase_of_take (h : (s.take m).Yields s' l) : s'.phase = s.phase := by
  rcases take_cases h with ⟨-, habides⟩ | ⟨-, -, -, rfl⟩
  · exact habides.phase_eq
  · rfl

theorem phase_of_takeAll (h : (pend.foldlM take s).Yields s' l) : s'.phase = s.phase := by
  induction pend generalizing s l with
  | nil => rw [h.of_pure.1]
  | cons m pend ih =>
    rw [List.foldlM_cons] at h
    obtain ⟨t, l₁, l₂, ht, hrest, -⟩ := h.of_bind
    exact (ih hrest).trans (phase_of_take ht)

theorem phase_of_replay (h : s.replay.Yields s' l) : s'.phase = s.phase :=
  phase_of_takeAll (s := { s with backlog := [] }) h

/-- The messages that came have been acted on once each or are kept, and those kept are too
early. -/
structure Accounts (s : State) (came acted : List Message) : Prop where
  accounted : came.Perm (acted ++ s.backlog)
  patient : s.Patient
  served : s.Served

theorem Accounts.take (h : s.Accounts came acted) (hm : (s.take m).Yields s' l) :
    s'.Accounts (came ++ [m]) (acted ++ l) := by
  have hcame : (came ++ [m]).Perm (acted ++ (s.backlog ++ [m])) := by
    rw [← List.append_assoc]
    exact h.accounted.append_right [m]
  rcases take_cases hm with ⟨rfl, habides⟩ | ⟨rfl, -, hearly, rfl⟩
  · refine ⟨hcame.trans ?_, fun m' hm' => ?_, habides.served h.served⟩
    · rw [habides.backlog_eq, List.append_assoc]
      exact List.perm_append_comm.append_left acted
    · rw [habides.phase_eq]
      exact h.patient m' (habides.backlog_eq ▸ hm')
  · refine ⟨by rwa [List.append_nil], fun m' hm' => ?_, h.served⟩
    rcases List.mem_append.1 hm' with hm' | hm'
    · exact h.patient m' hm'
    · obtain rfl := List.mem_singleton.1 hm'
      exact hearly

theorem Accounts.takeAll (h : s.Accounts came acted) (hl : (pend.foldlM State.take s).Yields s' l) :
    s'.Accounts (came ++ pend) (acted ++ l) := by
  induction pend generalizing s came acted l with
  | nil =>
    obtain ⟨rfl, rfl⟩ := hl.of_pure
    rwa [List.append_nil, List.append_nil]
  | cons m pend ih =>
    rw [List.foldlM_cons] at hl
    obtain ⟨t, l₁, l₂, ht, hrest, rfl⟩ := hl.of_bind
    have hall := ih (h.take ht) hrest
    rwa [List.append_assoc, List.append_assoc] at hall

theorem accounts_replay (hcame : came.Perm (acted ++ s.backlog)) (hs : s.Served)
    (h : s.replay.Yields s' l) : s'.Accounts came (acted ++ l) := by
  have hcleared : Accounts { s with backlog := [] } acted acted :=
    ⟨by rw [List.append_nil], fun _ hm => absurd hm List.not_mem_nil, hs⟩
  have hall := hcleared.takeAll h
  exact ⟨hcame.trans hall.accounted, hall.patient, hall.served⟩

/-! The loop that goes from phase to phase. -/

/-- The loop without a bound on its rounds: from a state, with the phases in which a round begins,
to what happens and how it ends. -/
inductive Loops (links : Links) : State → List Phase → List Event → Except Fault State → Prop
  | fails {s : State} {events : List Event} {e : Fault}
      (round : s.proceed.run links = (events, .error e)) :
      Loops links s [s.phase] events (.error e)
  | rests {s t : State} {events : List Event} (round : s.proceed.run links = (events, .ok t))
      (same : t.phase = s.phase) : Loops links s [s.phase] events (.ok t)
  | breaksOff {s t : State} {events later : List Event} {e : Fault}
      (round : s.proceed.run links = (events, .ok t)) (new : t.phase ≠ s.phase)
      (replay : t.replay.run links = (later, .error e)) :
      Loops links s [s.phase] (events ++ later) (.error e)
  | goesOn {s t u : State} {events later rest : List Event} {phases : List Phase}
      {r : Except Fault State} (round : s.proceed.run links = (events, .ok t))
      (new : t.phase ≠ s.phase) (replay : t.replay.run links = (later, .ok u))
      (loops : Loops links u phases rest r) :
      Loops links s (s.phase :: phases) (events ++ (later ++ rest)) r

theorem loops_settle (links : Links) {n : Nat} (hn : 7 ≤ s.phase.rank + n) :
    ∃ phases, s.Loops links phases ((settle n s).run links).1 ((settle n s).run links).2 ∧
      phases.Pairwise (· < ·) ∧ ∀ φ ∈ phases, s.phase ≤ φ := by
  -- Each round but the last leads one phase ahead, so there are rounds enough.
  induction n generalizing s with
  | zero => exact absurd (hn.trans s.phase.rank_le) (by decide)
  | succ n ih =>
    have hone : [s.phase].Pairwise (· < ·) ∧ ∀ φ ∈ [s.phase], s.phase ≤ φ :=
      ⟨List.pairwise_singleton .., fun φ hφ => (List.mem_singleton.1 hφ) ▸ Nat.le_refl _⟩
    unfold settle
    rw [run_bind]
    rcases hround : s.proceed.run links with ⟨events, e | t⟩
    · exact ⟨_, .fails hround, hone⟩
    · by_cases hphase : t.phase = s.phase
      · dsimp only
        rw [if_pos hphase]
        refine ⟨_, ?_, hone⟩
        show Loops links s _ (events ++ []) (.ok t)
        rw [List.append_nil]
        exact .rests hround hphase
      · dsimp only
        rw [if_neg hphase, run_bind]
        rcases hreplay : t.replay.run links with ⟨later, e | u⟩
        · exact ⟨_, .breaksOff hround hphase hreplay, hone⟩
        · -- The next round begins in a later phase.
          have hrank : u.phase.rank = s.phase.rank + 1 := by
            rw [phase_of_replay (yields_of_run hreplay)]
            exact (proceed_cases (yields_of_run hround)).2.progress.resolve_right
              fun hstays => hphase hstays.1
          obtain ⟨phases, hloops, hphases, hle⟩ := ih (s := u) (by omega)
          have hlt : ∀ φ ∈ phases, s.phase < φ := fun φ hφ => by
            have hu : u.phase.rank ≤ φ.rank := hle φ hφ
            show s.phase.rank < φ.rank
            omega
          refine ⟨_, .goesOn hround hphase hreplay hloops, List.pairwise_cons.2 ⟨hlt, hphases⟩, ?_⟩
          exact List.forall_mem_cons.2 ⟨Nat.le_refl _, fun φ hφ => Nat.le_of_lt (hlt φ hφ)⟩

theorem loops_respond {links : Links} {events : List Event} {t : State}
    (h : (s.take m).run links = (events, .ok t)) : ∃ phases later result,
      t.Loops links phases later result ∧ phases.Pairwise (· < ·) ∧
        (s.respond m).run links = (events ++ later, result) := by
  obtain ⟨phases, hloops, hphases, -⟩ := loops_settle (s := t) links (Nat.le_add_left rounds _)
  refine ⟨phases, _, _, hloops, hphases, ?_⟩
  unfold State.respond
  rw [run_bind, h]

theorem Loops.accounts {links : Links} {phases : List Phase} {events : List Event}
    {result : Except Fault State} (hl : s.Loops links phases events result)
    (h : s.Accounts came acted) (hresult : result = .ok s') :
    s'.Accounts came (acted ++ taken events) ∧ s'.proceed = pure s' := by
  induction hl generalizing acted with
  | fails | breaksOff => cases hresult
  | @rests s t events round same =>
    obtain rfl := Except.ok.inj hresult
    obtain ⟨hnone, hround⟩ := proceed_cases (yields_of_run round)
    have hsettled : t.phase = s.phase ∧ t.proceed = pure t :=
      hround.progress.resolve_left fun hrank => by
        rw [same] at hrank
        omega
    refine ⟨⟨?_, fun m hm => ?_, hround.served h.served⟩, hsettled.2⟩
    · rw [hnone, List.append_nil, hround.backlog_eq]
      exact h.accounted
    · rw [same]
      exact h.patient m (hround.backlog_eq ▸ hm)
  | @goesOn s t u events later rest phases result round new replay loops ih =>
    obtain ⟨hnone, hround⟩ := proceed_cases (yields_of_run round)
    have hcame : came.Perm (acted ++ t.backlog) := hround.backlog_eq ▸ h.accounted
    have hall := ih (accounts_replay hcame (hround.served h.served) (yields_of_run replay)) hresult
    rwa [taken_append, taken_append, hnone, List.nil_append, ← List.append_assoc]

/-- The states that messages can lead to from the start, with the messages that came and all that
has happened. -/
inductive Reached (seat : Seat) : State → List Message → List Event → Prop
  | begin {links : Links} {reader : Reader} {s : State} {events : List Event}
      (run : (State.begin seat reader).run links = (events, .ok s)) : Reached seat s [] events
  | respond {s s' : State} {came : List Message} {h events : List Event} {links : Links}
      {m : Message} (reached : Reached seat s came h)
      (run : (s.respond m).run links = (events, .ok s')) :
      Reached seat s' (came ++ [m]) (h ++ events)

structure AtRest (s : State) (came : List Message) (h : List Event) : Prop where
  accounted : came.Perm (taken h ++ s.backlog)
  early : ∀ m ∈ s.backlog, ¬ s.Ready m.kind ∧ s.react m = none ∧ s.phase < m.kind.opening
  cleared : .numbering ≤ s.phase → s.backlog = []
  settled : s.proceed = pure s

theorem Accounts.atRest {h : List Event} (ha : s.Accounts came (taken h))
    (hsettled : s.proceed = pure s) : s.AtRest came h where
  accounted := ha.accounted
  early m hm :=
    have hready := not_ready_of_early ha.served (ha.patient m hm)
    ⟨hready, react_eq_none hready, ha.patient m hm⟩
  cleared hle := by
    -- No kind is kept for longer than that.
    apply List.eq_nil_iff_forall_not_mem.2
    intro m hm
    have hlt : s.phase.rank < m.kind.opening.rank := ha.patient m hm
    have hopen : m.kind.opening.rank ≤ Phase.numbering.rank := by
      cases m.kind <;> decide
    exact absurd (hlt.trans_le hopen) (Nat.not_lt.2 hle)
  settled := hsettled

theorem Accounts.respond {h events : List Event} {links : Links} (ha : s.Accounts came (taken h))
    (hrun : (s.respond m).run links = (events, .ok s')) :
    s'.Accounts (came ++ [m]) (taken (h ++ events)) ∧ s'.proceed = pure s' := by
  rcases htake : (s.take m).run links with ⟨first, e | t⟩
  · unfold State.respond at hrun
    rw [run_bind, htake] at hrun
    cases hrun
  · obtain ⟨phases, later, result, hloops, -, hall⟩ := loops_respond htake
    obtain ⟨rfl, hresult⟩ := Prod.mk.inj (hall.symm.trans hrun)
    rw [taken_append, taken_append, ← List.append_assoc]
    exact hloops.accounts (ha.take (yields_of_run htake)) hresult

theorem eq_start_of_begin {seat : Seat} {reader : Reader}
    (h : (begin seat reader).result = .ok s) : ∃ t, s = start seat t := by
  unfold begin at h
  obtain ⟨_, -, h⟩ := result_bind_eq_ok_iff.1 h
  obtain ⟨chunk, -, h⟩ := result_bind_eq_ok_iff.1 h
  split at h
  all_goals
    obtain ⟨centroids, -, h⟩ := result_bind_eq_ok_iff.1 h
    rw [result_bind, result_report, ok_bind, result_bind, result_tellAll] at h
    exact ⟨_, (Except.ok.inj h).symm⟩

theorem accounts_begin {seat : Seat} {reader : Reader} {links : Links} {h : List Event}
    (hrun : (begin seat reader).run links = (h, .ok s)) : s.Accounts [] (taken h) := by
  have hyields := yields_of_run hrun
  rw [moves_begin.yields_nil hyields]
  obtain ⟨t, rfl⟩ := eq_start_of_begin hyields.result_eq
  exact ⟨.refl _, fun _ hm => absurd hm List.not_mem_nil, fun hsome => absurd rfl hsome⟩

theorem Reached.accounts {seat : Seat} {h : List Event} (hr : Reached seat s came h) :
    s.Accounts came (taken h) := by
  induction hr with
  | begin run => exact accounts_begin run
  | respond _ run ih => exact (ih.respond run).1

/-- Whenever a processor has responded to a message, all messages that came have been acted on once
each or are kept for a phase to come, and there is nothing left that it could do. However it ends,
it goes through the loop with a new phase in each round. -/
theorem Reached.leaves_nothing_undone {seat : Seat} {h : List Event} (hr : Reached seat s came h)
    (links : Links) (m : Message) :
    (∀ events s', (s.respond m).run links = (events, .ok s') →
      s'.AtRest (came ++ [m]) (h ++ events)) ∧
    ∀ events t, (s.take m).run links = (events, .ok t) → ∃ phases later result,
      t.Loops links phases later result ∧ phases.Pairwise (· < ·) ∧
        (s.respond m).run links = (events ++ later, result) := by
  refine ⟨fun events s' hrun => ?_, fun events t => loops_respond⟩
  obtain ⟨haccounts, hsettled⟩ := hr.accounts.respond hrun
  exact haccounts.atRest hsettled

def onlyOne : Seat := ⟨0, 1, .ofCount 1, none⟩

theorem early_messages_wait : ∃ s h events s',
    Reached onlyOne s [.request 0 [0], .query 0 [0, 1, 2, 3], .load 0 1] h ∧
    s.backlog = [.request 0 [0], .query 0 [0, 1, 2, 3]] ∧
    (s.respond (.delivered 0)).run .sound = (events, .ok s') ∧
    s'.AtRest [.request 0 [0], .query 0 [0, 1, 2, 3], .load 0 1, .delivered 0] (h ++ events) ∧
    s'.backlog = [.request 0 [0]] ∧ taken events = [.delivered 0, .query 0 [0, 1, 2, 3]] := by
  have hplayed : ∃ x ∈ (do
      let x₀ ← (begin onlyOne (.recorded (some 1) [0, 1, 2, 3] none)).ending?
      let x₁ ← (x₀.2.respond (.request 0 [0])).ending?
      let x₂ ← (x₁.2.respond (.query 0 [0, 1, 2, 3])).ending?
      let x₃ ← (x₂.2.respond (.load 0 1)).ending?
      let x₄ ← (x₃.2.respond (.delivered 0)).ending?
      return (x₃.2, x₄.1, x₄.2) : Option (State × List Event × State)),
      x.1.backlog = [.request 0 [0], .query 0 [0, 1, 2, 3]] ∧ x.2.2.backlog = [.request 0 [0]] ∧
        taken x.2.1 = [.delivered 0, .query 0 [0, 1, 2, 3]] := by
    decide +kernel
  obtain ⟨x, hx, hkept, hkept', htaken⟩ := hplayed
  simp only [Option.mem_def, Option.bind_eq_bind, Option.bind_eq_some_iff, Option.pure_def,
    Option.some.injEq] at hx
  obtain ⟨x₀, h₀, x₁, h₁, x₂, h₂, x₃, h₃, x₄, h₄, rfl⟩ := hx
  have hreached := (((Reached.begin (run_of_ending? h₀)).respond (run_of_ending? h₁)).respond
    (run_of_ending? h₂)).respond (run_of_ending? h₃)
  exact ⟨_, _, _, _, hreached, hkept, run_of_ending? h₄,
    (hreached.leaves_nothing_undone .sound _).1 _ _ (run_of_ending? h₄), hkept', htaken⟩

end State
end MeshNumbering
