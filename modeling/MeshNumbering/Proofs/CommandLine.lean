import Mathlib.Data.Nat.Digits.Defs
import MeshNumbering.CommandLine
import MeshNumbering.Proofs.Mesh.Conforming
import MeshNumbering.Proofs.Network.Aborts
import MeshNumbering.Proofs.Simulation

/-! What becomes of a job, from its arguments to the exit code. In whatever order the processors are
started and frames are delivered, the run comes to its end, and the report says whether the numbers
fit together; only a job without processors has nobody to report on. -/

namespace MeshNumbering

theorem length_toString_le {n : Nat} (h : n < wordSize) : (toString n).length ≤ 20 :=
  Nat.repr_length n 20 (by decide) (Nat.lt_trans h (by decide))

theorem Fault.length_message_emptyChare_le {pe chare : Nat} (hpe : pe < wordSize)
    (hchare : chare < wordSize) : (emptyChare pe chare).message.length ≤ 300 := by
  have hpe := length_toString_le hpe
  have hchare := length_toString_le hchare
  -- All such messages have their words in common.
  have hwords : (emptyChare 0 0).message.length ≤ 260 := by decide +kernel
  unfold message at hwords ⊢
  simp only [String.length_append] at hwords ⊢
  omega

namespace Scenario.Plain
variable {t : Scenario} {m : Mesh} {nchare : Nat}

theorem flows (h : t.Plain m nchare) (hfits : t.npes ≤ nchare → t.Fits) : t.Flows := by
  by_cases hfew : nchare < t.npes
  · intro l n hr hstarted ⟨p, hp, hreturned⟩
    have hcheck := h.check_eq
    rw [if_pos hfew] at hcheck
    exact absurd ⟨_, (hr.refuses hcheck p hp).resolve_left (hstarted p hp)⟩ hreturned
  · have hle := Nat.le_of_not_lt hfew
    apply flows_of_not_silent
    rintro l n hr p hp ⟨e, hstatus, hsilent⟩
    obtain ⟨pe, hget⟩ := List.mem_iff_getElem?.1 hp
    have hseat : p.seat.pe = pe := congrArg Seat.pe (hr.sound.stands pe p hget).seat_eq
    have hpe := hr.sound.pe_lt hget
    rcases hsilent with ⟨hremote, hunheard⟩ | ⟨hlocal, hsilent⟩
    · have hreported := hr.sound.reported_of_unheard hget hstatus hremote hunheard
      exact h.not_reported hpe hreported
    have hflaw := (hr.sound.stands pe p hget).flaw rfl hstatus hlocal
    obtain ⟨c, rfl, howned, -⟩ := h.idle_of_flaw hle (hfits hle) hpe hflaw
    rw [h.layout_eq hle] at howned
    have hc : c < nchare := (Layout.owns_iff.1 ((Layout.mem_owned_iff hpe).1 howned)).1
    have hword := h.nchare_lt
    have hlength := Message.length_body_abort_le pe (Fault.emptyChare pe c).message
    have hshort : (Fault.emptyChare pe c).message.length ≤ 300 :=
      Fault.length_message_emptyChare_le (by omega) (by omega)
    unfold wordSize at hword
    rw [hseat] at hsilent
    omega

end Scenario.Plain

namespace Ensemble
variable {t : Scenario} {d : Delivery} {l : List Packet} {n : Network}

theorem map_pe_of (hs : n.Sound t d l) : (of n).map Member.pe = List.range t.npes := by
  apply List.ext_getElem?
  intro pe
  unfold of
  rw [List.getElem?_map, List.getElem?_map, ← hs.length_eq]
  cases hp : n.processors[pe]? with
  | none =>
    have hlt := List.getElem?_eq_none_iff.1 hp
    symm
    rw [Option.map_none, Option.map_none, List.getElem?_eq_none_iff, List.length_range]
    exact hlt
  | some p =>
    have hseat := congrArg Seat.pe (hs.stands pe p hp).seat_eq
    rw [List.getElem?_range (List.getElem?_eq_some_iff.1 hp).1]
    exact congrArg some hseat

theorem outcomes_eq_ok (hr : Run t d l n) (hok : ∀ p ∈ n.processors, p.Succeeds) :
    (of n).outcomes = .ok ((List.range t.npes).map t.outcome) := by
  have hnone : (of n).cause? = none := by
    refine (cause?_eq_none_iff fun p hp => ?_).2 fun p hp e he => ?_
    · obtain ⟨outcome, hstatus⟩ := hok p hp
      exact ⟨_, hstatus⟩
    · obtain ⟨outcome, hstatus⟩ := hok p hp
      rw [he] at hstatus
      cases hstatus
  have hresults : ∀ m ∈ of n, m.result = .ok (t.outcome m.pe) := by
    intro m hm
    obtain ⟨p, hp, rfl⟩ := List.mem_map.1 hm
    obtain ⟨pe, hget⟩ := List.mem_iff_getElem?.1 hp
    obtain ⟨outcome, hstatus⟩ := hok p hp
    have hseat : p.seat.pe = pe := congrArg Seat.pe (hr.sound.stands pe p hget).seat_eq
    unfold Processor.member
    rw [Processor.result?_eq_some_iff.2 hstatus, (hr.sound.result hget hstatus).1, hseat]
    rfl
  unfold outcomes
  rw [hnone]
  show (of n).mapM Member.result = _
  rw [mapM_eq_ok_of_forall hresults, ← map_pe_of hr.sound, List.map_map]
  rfl

theorem outcomes_eq_error {e : Ensemble} {f : Fault} (h : e.cause? = some f) :
    e.outcomes = .error f := by
  unfold outcomes
  rw [h]

end Ensemble

namespace CommandLine
open Decimal

/-- A number is written in digits, perhaps behind a plus sign, and is a word. -/
theorem number?_eq_some_iff {arg : String} {n : Nat} : number? arg = some n ↔
    n < wordSize ∧ ∃ ds, (arg.toList = ds ∨ arg.toList = '+' :: ds) ∧ ds ≠ [] ∧
      (∀ c ∈ ds, isDigit c = true) ∧ ofDigits ds = n := by
  obtain ⟨ds, hds, hnumber⟩ : ∃ ds, (arg.toList = '+' :: ds ∨
      arg.toList = ds ∧ ∀ ds', ds ≠ '+' :: ds') ∧ number? arg =
        if ds ≠ [] ∧ ds.all isDigit ∧ ofDigits ds < wordSize then some (ofDigits ds) else none := by
    unfold number?
    refine ⟨_, ?_, rfl⟩
    split
    · exact .inl ‹_›
    · exact .inr ⟨rfl, ‹_›⟩
  rw [hnumber, Option.ite_none_right_eq_some, List.all_eq_true, Option.some.injEq]
  constructor
  · rintro ⟨⟨hne, hall, hlt⟩, rfl⟩
    exact ⟨hlt, ds, hds.symm.imp_left And.left, hne, hall, rfl⟩
  · rintro ⟨hlt, ds', hds', hne, hall, rfl⟩
    suffices ds' = ds by
      subst this
      exact ⟨⟨hne, hall, hlt⟩, rfl⟩
    rcases hds with hds | ⟨hds, hplain⟩
    · rcases hds' with rfl | hds'
      · -- A plus sign is not a digit.
        have hno := hall '+' (hds ▸ List.mem_cons_self)
        cases hno
      · exact List.tail_eq_of_cons_eq (hds'.symm.trans hds)
    · rcases hds' with rfl | hds'
      · exact hds
      · exact absurd (hds.symm.trans hds') (hplain ds')

example : Job.ofArgs ["3", "-1", "+2", "x", "05"] = ⟨3, 2, 5, 4, 8⟩ := by decide

namespace Job

def scenario (job : Job) : Scenario := job.mesh.dealt job.npes job.nchare

/-- No size of the job overflows: node ids and the number of chares are words, and all messages have
frames. -/
structure Small (job : Job) : Prop where
  nodes_le : (job.nx + 1) * (job.ny + 1) * (job.nz + 1) ≤ wordSize
  nchare_lt : job.nchare < wordSize
  fits : job.npes ≤ job.nchare → job.scenario.Fits

variable {job : Job} {l : List Packet} {n : Network}

theorem plain (hnodes : (job.nx + 1) * (job.ny + 1) * (job.nz + 1) ≤ wordSize)
    (hchares : job.nchare < wordSize) (hpos : 0 < job.npes) :
    job.scenario.Plain job.mesh job.nchare := by
  have hvalid := Mesh.box_valid job.nx job.ny job.nz
  refine hvalid.plain_dealt (fun n hn => ?_) hpos hchares
  have hlt := hvalid.nodes n hn
  rw [Mesh.nodeCount_box] at hlt
  exact Nat.lt_of_lt_of_le hlt hnodes

theorem Small.plain (h : job.Small) (hpos : 0 < job.npes) :
    job.scenario.Plain job.mesh job.nchare := Job.plain h.nodes_le h.nchare_lt hpos

theorem small_of_elements (hnodes : (job.nx + 1) * (job.ny + 1) * (job.nz + 1) ≤ wordSize)
    (hchares : job.nchare < wordSize)
    (hshort : 20 + 144 * (6 * (job.nx * job.ny * job.nz)) < 2 ^ 32) : job.Small := by
  refine ⟨hnodes, hchares, fun hle k p q hpass => ?_⟩
  have hplain := plain hnodes hchares (Nat.zero_lt_of_lt hpass.1)
  exact hplain.fits hle (by rwa [mesh, Mesh.elementCount_box]) k p q hpass

theorem processors_eq_nil (hnone : job.npes = 0) (hr : Run job.scenario .exact l n) :
    n.processors = [] := List.eq_nil_of_length_eq_zero (hr.sound.length_eq.trans hnone)

theorem Small.flows (h : job.Small) : job.scenario.Flows := by
  rcases Nat.eq_zero_or_pos job.npes with hnone | hpos
  · intro l n hr _ ⟨p, hp, _⟩
    rw [processors_eq_nil hnone hr] at hp
    cases hp
  · exact (h.plain hpos).flows h.fits

variable (h : job.Small) (hr : Run job.scenario .exact l n)
  (hreturned : ∀ p ∈ n.processors, p.HasReturned)

include hr in
theorem conclude_nobody (hnone : job.npes = 0) :
    job.conclude (.of n) = ⟨[headline job job.mesh], .nobody⟩ := by
  unfold conclude Ensemble.of
  rw [processors_eq_nil hnone hr]
  rfl

include h hr hreturned

theorem conclude_success (hpos : 0 < job.npes) (hle : job.npes ≤ job.nchare)
    (hmany : job.nchare ≤ job.mesh.elementCount) : job.conclude (.of n) =
      ⟨headline job job.mesh :: (List.range job.npes).map (outcomeLine ∘ job.scenario.outcome) ++
        [statisticsLine (job.scenario.outcome 0).statistics,
          splitLine ((List.range job.npes).map job.scenario.outcome)], .success⟩ := by
  have hfinal := Network.isFinal_of_returned hreturned
  have hok := (hr.all_succeed_iff (h.plain hpos) hfinal).2 ⟨hle, hmany, h.fits hle⟩
  obtain ⟨k, hk⟩ : ∃ k, job.npes = k + 1 := Nat.exists_eq_add_one.2 hpos
  have houtcomes : (Ensemble.of n).outcomes = .ok (job.scenario.outcome 0 ::
      ((List.range k).map Nat.succ).map job.scenario.outcome) := by
    rw [Ensemble.outcomes_eq_ok hr hok, show job.scenario.npes = k + 1 from hk,
      List.range_succ_eq_map, List.map_cons]
  unfold conclude
  rw [houtcomes, ← List.map_map, hk, List.range_succ_eq_map]
  rfl

theorem conclude_failure (hpos : 0 < job.npes)
    (hnot : ¬ (job.npes ≤ job.nchare ∧ job.nchare ≤ job.mesh.elementCount)) :
    ∃ f, job.conclude (.of n) = ⟨[headline job job.mesh], .failure f⟩ ∧
      (job.nchare < job.npes ∧ f = .config (.fewerCharesThanProcessors job.nchare job.npes) ∨
        job.npes ≤ job.nchare ∧ ∃ pe c, pe < job.npes ∧ c < job.nchare ∧
          ¬ c ∈ job.scenario.chares ∧ f = .emptyChare pe c) := by
  have hplain := h.plain hpos
  have hfinal := Network.isFinal_of_returned hreturned
  obtain ⟨f, hf⟩ : ∃ f, (Ensemble.of n).cause? = some f := by
    rw [← Option.ne_none_iff_exists', ne_eq, hr.cause?_eq_none_iff hreturned]
    intro hall
    have hok : ∀ p ∈ n.processors, p.Succeeds := by
      intro p hp
      obtain ⟨pe, hget⟩ := List.mem_iff_getElem?.1 hp
      refine (hall pe p hget).resolve_right ?_
      rintro ⟨e, -, -, hreported⟩
      exact hplain.not_reported (hr.sound.pe_lt hget) hreported
    obtain ⟨hle, hmany, -⟩ := (hr.all_succeed_iff hplain hfinal).1 hok
    exact hnot ⟨hle, hmany⟩
  obtain ⟨pe, p, hget, hstatus, hflaw, -⟩ := hr.flaw_of_cause? hreturned hf
  refine ⟨f, ?_, ?_⟩
  · unfold conclude
    rw [Ensemble.outcomes_eq_error hf]
  · by_cases hfew : job.nchare < job.npes
    · have hrefused := hr.refuses_few hplain hfew hfinal p (List.mem_of_getElem? hget)
      rw [hstatus] at hrefused
      exact .inl ⟨hfew, Except.error.inj (Status.returned.inj hrefused)⟩
    · have hle := Nat.le_of_not_lt hfew
      have hpe := hr.sound.pe_lt hget
      obtain ⟨c, rfl, howned, hc⟩ := hplain.idle_of_flaw hle (h.fits hle) hpe hflaw
      rw [hplain.layout_eq hle] at howned
      have hlt : c < job.nchare := (Layout.owns_iff.1 ((Layout.mem_owned_iff hpe).1 howned)).1
      exact .inr ⟨hle, pe, c, hpe, hlt, hc, rfl⟩

end Job

def Report.Says (r : Report) (lines : List String) (complaint : Option String)
    (exitCode : UInt32) : Prop :=
  r.lines = lines ∧ r.complaint = complaint ∧ r.exitCode = exitCode

/-- Whatever the arguments, no run gets stuck or goes on for ever, whatever order it takes; and when
it is over, the report has a line for each processor if there are enough chares for them and enough
elements for these, and a failure with the number of chares if not. Without processors it says no
more than its first line. -/
theorem report_of_args (args : List String) (h : (Job.ofArgs args).Small) :
    let job := Job.ofArgs args
    let head := headline job job.mesh
    let outcome := job.scenario.outcome
    (∀ schedule, ∃ l n, Run job.scenario .exact l n ∧ n.IsFinal ∧
      report schedule job = job.conclude (.of n)) ∧
    ∀ l n, Run job.scenario .exact l n → l.length ≤ 13 * job.npes ^ 2 ∧ (n.IsFinal →
      (∀ p ∈ n.processors, p.HasReturned) ∧
      (job.npes = 0 → (job.conclude (.of n)).Says [head] none 101) ∧
      (1 ≤ job.npes → job.npes ≤ job.nchare → job.nchare ≤ 6 * (job.nx * job.ny * job.nz) →
        (job.conclude (.of n)).Says
          (head :: (List.range job.npes).map (outcomeLine ∘ outcome) ++
            [statisticsLine (outcome 0).statistics, splitLine ((List.range job.npes).map outcome)])
          (some "") 0) ∧
      (1 ≤ job.npes →
        ¬ (job.npes ≤ job.nchare ∧ job.nchare ≤ 6 * (job.nx * job.ny * job.nz)) →
        ∃ f : Fault, (job.conclude (.of n)).Says [head]
            (some ("reordering failed: " ++ f.message ++ "\n")) 1 ∧
          (job.nchare < job.npes ∧ f = .config (.fewerCharesThanProcessors job.nchare job.npes) ∨
            job.npes ≤ job.nchare ∧ ∃ pe c, pe < job.npes ∧ c < job.nchare ∧
              ¬ c ∈ job.scenario.chares ∧ f = .emptyChare pe c))) := by
  intro job head outcome
  refine ⟨fun schedule => ?_, fun l n hr => ⟨hr.length_le, fun hfinal => ?_⟩⟩
  · obtain ⟨l, n, hresult, hr, hreturned⟩ := Simulation.run_complete h.flows schedule
    exact ⟨l, n, hr, Network.isFinal_of_returned hreturned, congrArg job.conclude hresult⟩
  · have hreturned := h.flows.hasReturned hr hfinal
    have hcount : job.mesh.elementCount = 6 * (job.nx * job.ny * job.nz) :=
      Mesh.elementCount_box ..
    refine ⟨hreturned, fun hnone => ?_, fun hpos hle hmany => ?_, fun hpos hnot => ?_⟩
    · rw [Job.conclude_nobody hr hnone]
      exact ⟨rfl, rfl, rfl⟩
    · rw [Job.conclude_success h hr hreturned hpos hle (hcount ▸ hmany)]
      exact ⟨rfl, rfl, rfl⟩
    · obtain ⟨f, hreport, hcause⟩ :=
        Job.conclude_failure h hr hreturned hpos (by rwa [hcount])
      rw [hreport]
      exact ⟨f, ⟨rfl, rfl, rfl⟩, hcause⟩

theorem one_cube_reported :
    (∀ schedule, (report schedule (.ofArgs ["1", "1", "1", "2", "2"])).exitCode = 0) ∧
    ∀ schedule, (report schedule (.ofArgs ["1", "1", "1", "2", "1"])).exitCode = 1 := by
  have henough : Job.ofArgs ["1", "1", "1", "2", "2"] = ⟨1, 1, 1, 2, 2⟩ := by decide
  have hfew : Job.ofArgs ["1", "1", "1", "2", "1"] = ⟨1, 1, 1, 2, 1⟩ := by decide
  have hsmall : (Job.ofArgs ["1", "1", "1", "2", "2"]).Small :=
    henough ▸ Job.small_of_elements (by decide) (by decide) (by decide)
  have hsmall' : (Job.ofArgs ["1", "1", "1", "2", "1"]).Small :=
    hfew ▸ Job.small_of_elements (by decide) (by decide) (by decide)
  constructor
  · intro schedule
    obtain ⟨hreports, hall⟩ := report_of_args _ hsmall
    obtain ⟨l, n, hr, hfinal, hreport⟩ := hreports schedule
    obtain ⟨-, -, hsuccess, -⟩ := (hall l n hr).2 hfinal
    rw [hreport]
    exact (hsuccess (by decide) (by decide) (by decide)).2.2
  · intro schedule
    obtain ⟨hreports, hall⟩ := report_of_args _ hsmall'
    obtain ⟨l, n, hr, hfinal, hreport⟩ := hreports schedule
    obtain ⟨-, -, -, hfailure⟩ := (hall l n hr).2 hfinal
    obtain ⟨f, ⟨-, -, hexit⟩, -⟩ := hfailure (by decide) (by decide)
    rw [hreport]
    exact hexit

/-- Without processors there is neither a report nor an error. -/
theorem one_cube_without_processors : (Job.ofArgs ["1", "1", "1", "0"]).Small ∧
    ∀ schedule, (report schedule (.ofArgs ["1", "1", "1", "0"])).Says
      ["1x1x1 box: 8 nodes, 6 tetrahedra, 0 PEs, 0 chares"] none 101 := by
  have hjob : Job.ofArgs ["1", "1", "1", "0"] = ⟨1, 1, 1, 0, 0⟩ := by decide
  rw [hjob]
  refine ⟨Job.small_of_elements (by decide) (by decide) (by decide), fun schedule => ?_⟩
  have hreport : report schedule ⟨1, 1, 1, 0, 0⟩ = Job.conclude ⟨1, 1, 1, 0, 0⟩ [] := rfl
  rw [hreport]
  exact ⟨by decide +kernel, rfl, rfl⟩

end CommandLine
end MeshNumbering
