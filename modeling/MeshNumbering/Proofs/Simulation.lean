import MeshNumbering.Proofs.Exchange
import MeshNumbering.Proofs.Network.Success
import MeshNumbering.Proofs.Processor.Pass
import MeshNumbering.Simulation

/-! Simulations without incidents. Whatever the schedule, they are reliable runs; and where no run
can get stuck, they go on until all processors have returned, within the limit set to them. -/

namespace MeshNumbering

namespace Network
variable {n : Network} {pe i target source : Nat} {p : Processor}

theorem of_fresh_start {reader : Reader} (hp : (n.start reader pe).processors[i]? = some p)
    (hfresh : p.status = .fresh) : i ≠ pe ∧ n.processors[i]? = some p := by
  unfold start at hp
  cases hpe : n.processors[pe]? with
  | none =>
    rw [take, hpe] at hp
    refine ⟨?_, hp⟩
    rintro rfl
    rw [hpe] at hp
    cases hp
  | some q =>
    rw [processors_take hpe] at hp
    by_cases hi : i = pe
    · subst hi
      rw [List.getElem?_set_self (List.getElem?_eq_some_iff.1 hpe).1] at hp
      obtain rfl := Option.some.inj hp
      exact absurd hfresh (q.status_start_ne_fresh .sound reader)
    · rw [List.getElem?_set_ne (Ne.symm hi)] at hp
      exact ⟨hi, hp⟩

theorem of_fresh_starts {reader : Reader} {l : List Nat}
    (hp : (l.foldl (fun n pe => n.start reader pe) n).processors[i]? = some p)
    (hfresh : p.status = .fresh) : ¬ i ∈ l ∧ n.processors[i]? = some p := by
  induction l generalizing n with
  | nil => exact ⟨List.not_mem_nil, hp⟩
  | cons pe l ih =>
    obtain ⟨hl, hp⟩ := ih hp
    obtain ⟨hpe, hp⟩ := of_fresh_start hp hfresh
    exact ⟨List.not_mem_cons_of_ne_of_not_mem hpe hl, hp⟩

theorem started_startAll (n : Network) (reader : Reader) :
    ∀ p ∈ (n.startAll reader).processors, p.status ≠ .fresh := by
  intro p hp hfresh
  obtain ⟨i, hi⟩ := List.mem_iff_getElem?.1 hp
  obtain ⟨hnot, hi⟩ := of_fresh_starts hi hfresh
  exact hnot (List.mem_range.2 (List.getElem?_eq_some_iff.1 hi).1)

theorem lt_of_isWaiting (h : n.isWaiting pe = true) : pe < n.processors.length := by
  obtain ⟨p, s, hp, -⟩ := isWaiting_iff.1 h
  exact (List.getElem?_eq_some_iff.1 hp).1

theorem mem_waiting : pe ∈ n.waiting ↔ n.isWaiting pe = true := by
  unfold waiting
  rw [List.mem_filter, List.mem_range]
  exact and_iff_right_of_imp lt_of_isWaiting

theorem mem_channels : (target, source) ∈ n.channels ↔ n.isWaiting target = true ∧
    source < n.processors.length ∧ ∃ x ∈ n.inFlight, x.target = target ∧ x.source = source := by
  unfold channels
  simp only [List.mem_flatMap, List.mem_map, List.mem_filter, List.mem_range, mem_waiting,
    Prod.mk.injEq, List.any_eq_true, decide_eq_true_eq]
  constructor
  · rintro ⟨_, hwaits, _, ⟨hlt, hx⟩, rfl, rfl⟩
    exact ⟨hwaits, hlt, hx⟩
  · rintro ⟨hwaits, hlt, hx⟩
    exact ⟨target, hwaits, source, ⟨hlt, hx⟩, rfl, rfl⟩

end Network

/-- As soon as all processors are started, and as long as not all have returned, there is a frame to
deliver. -/
def Scenario.Flows (t : Scenario) : Prop :=
  ∀ l n, Run t .exact l n → (∀ p ∈ n.processors, p.status ≠ .fresh) →
    (∃ p ∈ n.processors, ¬ p.HasReturned) → ∃ x ∈ n.inFlight, n.isWaiting x.target = true

theorem Scenario.Flows.hasReturned {t : Scenario} {l : List Packet} {n : Network} (ht : t.Flows)
    (hr : Run t .exact l n) (hfinal : n.IsFinal) : ∀ p ∈ n.processors, p.HasReturned := by
  by_contra hno
  push Not at hno
  obtain ⟨x, hx, hwaits⟩ := ht l n hr hfinal.1 hno
  rw [hfinal.2 x hx] at hwaits
  cases hwaits

theorem Scenario.flows_of_not_silent {t : Scenario}
    (h : ∀ l n, Run t .exact l n → ∀ p ∈ n.processors, ¬ p.FailsSilently) : t.Flows := by
  intro l n hr hstarted hreturned
  rcases hr.exists_next hreturned with ⟨p, hp, hfresh⟩ | hready | ⟨p, hp, hsilent⟩
  · exact absurd hfresh (hstarted p hp)
  · exact hready
  · exact absurd hsilent (h l n hr p hp)

namespace Simulation
variable {t : Scenario} {schedule : List Nat} {l : List Packet} {n n' : Network}

theorem choice_lt (schedule : List Nat) (k : Nat) {count : Nat} (h : 0 < count) :
    choice schedule k count < count := Nat.mod_lt _ h

theorem handOver_eq (k : Nat) {target source : Nat} (h : (target, source) ∈ n.channels) :
    ∃ x ∈ n.inFlight, n.isWaiting x.target = true ∧ (handOver [] k target source n).2 =
      Network.deliver ⟨n.processors, n.inFlight.erase x⟩ x.target x.source x.frame := by
  obtain ⟨hwaits, -, hx⟩ := Network.mem_channels.1 h
  have hfound : (n.inFlight.find? fun p => p.target = target ∧ p.source = source).isSome := by
    rw [List.find?_isSome]
    simpa using hx
  obtain ⟨x, hfind⟩ := Option.isSome_iff_exists.1 hfound
  have hchannel := List.find?_some hfind
  rw [decide_eq_true_eq] at hchannel
  obtain ⟨rfl, rfl⟩ := hchannel
  refine ⟨x, List.mem_of_find?_eq_some hfind, hwaits, ?_⟩
  unfold handOver
  rw [takeFirst?_eq_map, hfind]
  rfl

theorem step_delivers (hr : Run t .exact l n) (hstarted : ∀ p ∈ n.processors, p.status ≠ .fresh)
    (hready : ∃ x ∈ n.inFlight, n.isWaiting x.target = true) (schedule : List Nat) (k : Nat) :
    ∃ notices n' x, step schedule [] k n = some (notices, n') ∧ Run t .exact (l ++ [x]) n' ∧
      ∀ p ∈ n'.processors, p.status ≠ .fresh := by
  obtain ⟨y, hy, hywaits⟩ := hready
  obtain ⟨q, hq, -⟩ := hr.sound.posted y (List.mem_append_right _ hy)
  have hchannel : (y.target, y.source) ∈ n.channels := Network.mem_channels.2
    ⟨hywaits, (List.getElem?_eq_some_iff.1 hq).1, y, hy, rfl, rfl⟩
  have hlt := choice_lt schedule k (List.length_pos_of_mem hchannel)
  obtain ⟨⟨target, source⟩, hchosen⟩ :
      ∃ c, n.channels[choice schedule k n.channels.length]? = some c :=
    ⟨_, List.getElem?_eq_getElem hlt⟩
  obtain ⟨x, hx, hwaits, hnext⟩ := handOver_eq k (List.mem_of_getElem? hchosen)
  refine ⟨(handOver [] k target source n).1, (handOver [] k target source n).2, x, ?_,
    hnext ▸ hr.deliver hx hwaits, ?_⟩
  · unfold step
    dsimp only
    rw [hchosen]
  · rw [hnext]
    intro p hp
    obtain ⟨r, s, hget, hs⟩ := Network.isWaiting_iff.1 hwaits
    have hset := Network.processors_take (n := ⟨n.processors, n.inFlight.erase x⟩) hget fun r =>
      r.receive .sound x.source x.frame
    unfold Network.deliver at hp
    rw [hset] at hp
    rcases List.mem_or_eq_of_mem_set hp with hp | rfl
    · exact hstarted p hp
    · exact Processor.status_receive_ne_fresh (Processor.isWaiting_iff.2 ⟨s, hs⟩) _ _ _

theorem step_eq_none (h : ∀ pe, n.isWaiting pe = false) (schedule : List Nat)
    (incidents : List Incident) (k : Nat) : step schedule incidents k n = none := by
  have hnone : n.waiting = [] := by
    rw [List.eq_nil_iff_forall_not_mem]
    intro pe hpe
    rw [Network.mem_waiting, h] at hpe
    cases hpe
  have hchannels : n.channels = [] := by
    unfold Network.channels
    rw [hnone]
    rfl
  unfold step
  dsimp only
  rw [hchannels, hnone]
  rfl

theorem steps_complete (ht : t.Flows) {fuel : Nat} (hr : Run t .exact l n)
    (hstarted : ∀ p ∈ n.processors, p.status ≠ .fresh) (hfuel : 13 * t.npes ^ 2 < l.length + fuel)
    (schedule : List Nat) (k : Nat) : ∃ l' n', (steps schedule [] fuel k n).2 = n' ∧
      Run t .exact l' n' ∧ ∀ p ∈ n'.processors, p.HasReturned := by
  induction fuel generalizing l n k with
  | zero => exact absurd hr.length_le (Nat.not_le_of_lt hfuel)
  | succ fuel ih =>
    unfold steps
    by_cases hreturned : ∀ p ∈ n.processors, p.HasReturned
    · have hidle : ∀ pe, n.isWaiting pe = false := by
        intro pe
        rw [Bool.eq_false_iff, ne_eq, Network.isWaiting_iff]
        rintro ⟨p, s, hp, hs⟩
        obtain ⟨r, hr⟩ := hreturned p (List.mem_of_getElem? hp)
        rw [hr] at hs
        cases hs
      rw [step_eq_none hidle]
      exact ⟨l, n, rfl, hr, hreturned⟩
    · push Not at hreturned
      obtain ⟨notices, n', x, hstep, hr', hstarted'⟩ :=
        step_delivers hr hstarted (ht l n hr hstarted hreturned) schedule k
      rw [hstep]
      refine ih hr' hstarted' ?_ (k + 1)
      rw [List.length_append, List.length_singleton]
      omega

theorem run_complete (ht : t.Flows) (schedule : List Nat) :
    ∃ l n, (run t.reader t.npes t.config t.strategy schedule []).2 = .of n ∧ Run t .exact l n ∧
      ∀ p ∈ n.processors, p.HasReturned := by
  have hfuel : 13 * t.npes ^ 2 < 0 + limit t.npes 0 := by
    have hpos : 0 < (t.npes + 1) * (t.npes + 1) := Nat.mul_pos (Nat.succ_pos _) (Nat.succ_pos _)
    have hle : t.npes * t.npes ≤ (t.npes + 1) * (t.npes + 1) :=
      Nat.mul_le_mul (Nat.le_succ _) (Nat.le_succ _)
    unfold limit
    rw [Nat.pow_two, Nat.mul_assoc]
    omega
  obtain ⟨l, n, hsteps, hr, hreturned⟩ := steps_complete ht (Run.startAll t .exact)
    (Network.started_startAll _ t.reader) hfuel schedule 0
  exact ⟨l, n, congrArg Ensemble.of hsteps, hr, hreturned⟩

end Simulation
end MeshNumbering
