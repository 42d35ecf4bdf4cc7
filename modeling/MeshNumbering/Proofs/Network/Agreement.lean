import MeshNumbering.Proofs.Network.Runs

/-! What a run yields does not depend on the order in which frames arrive, nor on frames that are
lost or arrive more than once: a processor that gets as far as handing something over hands over
what it would in any other run. -/

namespace MeshNumbering
open History

/-- A run in which frames may be lost or repeated agrees with any reliable run that succeeds. -/
theorem Run.agrees {t : Scenario} {l₁ l₂ : List Packet} {n₁ n₂ : Network}
    (hr₁ : Run t .exact l₁ n₁) (hok : ∀ p ∈ n₁.processors, p.Succeeds) (hr₂ : Run t .loose l₂ n₂) :
    (∀ (pe : Nat) (p₁ p₂ : Processor), n₁.processors[pe]? = some p₁ → n₂.processors[pe]? = some p₂ →
      (∀ outcome, p₂.status = .returned (.ok outcome) → p₁.status = .returned (.ok outcome)) ∧
      (handoffs p₂.history = [] ∨ handoffs p₂.history = handoffs p₁.history)) ∧
    ∀ p ∈ n₂.processors, ∀ p' ∈ n₂.processors, ∀ outcome outcome',
      p.status = .returned (.ok outcome) → p'.status = .returned (.ok outcome') →
        outcome.nchare = outcome'.nchare ∧ outcome.total = outcome'.total ∧
        outcome.statistics = outcome'.statistics := by
  have hs₁ := hr₁.sound
  have hs₂ := hr₂.sound
  refine ⟨fun pe p₁ p₂ hp₁ hp₂ => ?_, fun p hp p' hp' outcome outcome' ho ho' => ?_⟩
  · obtain ⟨outcome₁, hstatus₁⟩ := hok p₁ (List.mem_of_getElem? hp₁)
    obtain ⟨rfl, hdone⟩ := (hs₁.stands pe p₁ hp₁).reaches_ok hstatus₁
    have hhanded : handoffs p₁.history = t.handoffs pe := hdone.handed
    refine ⟨fun outcome ho => ?_, ?_⟩
    · rw [((hs₂.stands pe p₂ hp₂).reaches_ok ho).1]
      exact hstatus₁
    · obtain ⟨μ, hreach⟩ := hs₂.reaches hp₂
      rw [hreach.handed, hhanded]
      split
      · exact .inl rfl
      · exact .inr rfl
  · obtain ⟨pe, hpe, rfl⟩ := List.mem_iff_getElem.1 hp
    obtain ⟨pe', hpe', rfl⟩ := List.mem_iff_getElem.1 hp'
    obtain ⟨rfl, -⟩ := (hs₂.stands pe _ (List.getElem?_eq_getElem hpe)).reaches_ok ho
    obtain ⟨rfl, -⟩ := (hs₂.stands pe' _ (List.getElem?_eq_getElem hpe')).reaches_ok ho'
    exact ⟨rfl, rfl, rfl⟩

theorem two_elements_agree : ∃ l₁ n₁ l₂ n₂, Run .twoElements .exact l₁ n₁ ∧
    Run .twoElements .loose l₂ n₂ ∧ (∀ p ∈ n₁.processors, p.Succeeds) ∧
    (∃ p ∈ n₂.processors, ¬ p.HasReturned) ∧
    ∃ (pe : Nat) (p₁ p₂ : Processor) (outcome : Outcome), n₁.processors[pe]? = some p₁ ∧
      n₂.processors[pe]? = some p₂ ∧ p₁.status = .returned (.ok outcome) ∧
      p₂.status = .returned (.ok outcome) := by
  have hdone := Scenario.twoElements_succeeds
  have hlost : ∃ p ∈ (Scenario.twoElements.played .loose
      (.range 29 ++ [27, 28, 28, 29, 30, 31, 33, 35])).processors, ¬ p.HasReturned := by
    decide +kernel
  have hlast : ∃ p ∈ (Scenario.twoElements.played .loose
      (.range 29 ++ [27, 28, 28, 29, 30, 31, 33, 35])).processors[1]?, p.Succeeds := by
    decide +kernel
  obtain ⟨p₂, hp₂, outcome, hstatus⟩ := hlast
  obtain ⟨l₁, hr₁⟩ := Run.played .twoElements .exact (.replicate 40 0)
  obtain ⟨l₂, hr₂⟩ := Run.played .twoElements .loose (.range 29 ++ [27, 28, 28, 29, 30, 31, 33, 35])
  obtain ⟨p₁, hp₁⟩ := hr₁.sound.exists_processor (show 1 < 2 by decide)
  obtain ⟨hsame, -⟩ := (hr₁.agrees hdone hr₂).1 1 p₁ p₂ hp₁ hp₂
  exact ⟨l₁, _, l₂, _, hr₁, hr₂, hdone, hlost, 1, p₁, p₂, outcome, hp₁, hp₂,
    hsame outcome hstatus, hstatus⟩

end MeshNumbering
