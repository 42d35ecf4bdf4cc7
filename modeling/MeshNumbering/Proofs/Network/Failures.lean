import MeshNumbering.Proofs.Network.Runs

/-! Failures in a reliable network. None of them is due to a message that should not have come, and
when one processor fails, none can have finished: a processor that could still fail on its own has
not told the last of what the others need. -/

namespace MeshNumbering
open History

theorem Message.eq_of_encode_abort {q : Nat} {reason reason' : String}
    (hfits : (abort q reason).unfit? = none)
    (h : (abort q reason').encode = (abort q reason).encode) : reason' = reason := by
  have hlength := congrArg List.length h
  rw [length_encode, length_encode] at hlength
  obtain ⟨hnumbers, hshort⟩ := unfit?_eq_none_iff.1 hfits
  have hfits' : (abort q reason').unfit? = none := unfit?_eq_none_iff.2 ⟨hnumbers, by omega⟩
  exact (Message.abort.inj (encode_inj hfits' hfits h)).2

namespace Network.Sound
variable {t : Scenario} {l : List Packet} {n : Network} {pe q μ : Nat} {p p' : Processor}

theorem origin_of_abort {d : Delivery} (hs : n.Sound t d l) {reason : String}
    (h : ⟨q, pe, (Message.abort q reason).encode⟩ ∈ l ++ n.inFlight) :
    q ≠ pe ∧ (Message.abort q reason).unfit? = none ∧ ∃ (p : Processor) (e : Fault),
      n.processors[q]? = some p ∧ p.status = .returned (.error e) ∧ e.isRemote = false ∧
        reason = e.message := by
  obtain ⟨p, m, hp, hm, hframe⟩ := hs.posting h
  obtain ⟨μ, hr⟩ := hs.reaches hp
  rcases hr.due pe m hm with hdue | ⟨e, hstatus, hremote, rfl, hfits, -, hne⟩
  · have hpass := hdue.passes
    rw [show m.kind = .abort from Message.kind_eq_of_encode_eq hframe] at hpass
    exact absurd hpass.2.2 id
  · rw [show p.seat.pe = q from congrArg Seat.pe (hs.stands q p hp).seat_eq] at hfits hne hframe
    obtain rfl := Message.eq_of_encode_abort hfits hframe.symm
    exact ⟨Ne.symm hne, hfits, p, e, hp, hstatus, hremote, rfl⟩

theorem fails_of_abort {d : Delivery} (hs : n.Sound t d l) (hp : n.processors[pe]? = some p)
    {reason : String} (h : (q, (Message.abort q reason).encode) ∈ frames p.history) :
    q ≠ pe ∧ ∃ (p' : Processor) (e : Fault), n.processors[q]? = some p' ∧
      p'.status = .returned (.error e) ∧ e.isRemote = false := by
  have hdelivered := (hs.heard_iff pe p hp q _).1 h
  obtain ⟨hne, -, p', e, hp', hstatus, hremote, -⟩ :=
    hs.origin_of_abort (List.mem_append_left _ hdelivered)
  exact ⟨hne, p', e, hp', hstatus, hremote⟩

theorem reported_of_unheard {d : Delivery} (hs : n.Sound t d l)
    (hp : n.processors[pe]? = some p) {e : Fault} (he : p.status = .returned (.error e))
    (hremote : e.isRemote = true)
    (hnone : ∀ q reason, (q, (Message.abort q reason).encode) ∉ frames p.history) :
    t.Reported pe e := by
  obtain ⟨μ, -, -, ⟨hreported | hlocal, -⟩ | ⟨j, reason, habort⟩⟩ :=
    (hs.stands pe p hp).reaches_error he
  · exact hreported
  · rw [hremote] at hlocal
    cases hlocal
  · exact absurd habort (hnone j reason)

theorem reported_of_remote {d : Delivery} (hs : n.Sound t d l)
    (hremote : ∀ (i : Nat) (r : Processor) (e : Fault), n.processors[i]? = some r →
      r.status = .returned (.error e) → e.isRemote = true)
    (hp : n.processors[pe]? = some p) {e : Fault} (he : p.status = .returned (.error e)) :
    t.Reported pe e ∧
      ∀ q reason, (q, (Message.abort q reason).encode) ∉ frames p.history := by
  have hnone : ∀ q reason, (q, (Message.abort q reason).encode) ∉ frames p.history := by
    intro q reason habort
    obtain ⟨-, r, e', hr, he', hlocal⟩ := hs.fails_of_abort hp habort
    rw [hremote q r e' hr he'] at hlocal
    cases hlocal
  exact ⟨hs.reported_of_unheard hp he (hremote pe p e hp he) hnone, hnone⟩

theorem heard_all {d : Delivery} {once : Prop} (hs : n.Sound t d l)
    (hp : n.processors[pe]? = some p) (hr : p.Reaches t once pe μ) (hμ : 8 ≤ μ)
    {k : MessageKind} (hk : k ≠ .deviation) (hpass : t.Passes k q pe) : Heard p.history k q := by
  -- From mark 8 on everything but deviations has been heard that ever comes.
  have hpe := hs.pe_lt hp
  obtain ⟨p', hp'⟩ := hs.exists_processor hpass.1
  obtain ⟨μ', hr'⟩ := hs.reaches hp'
  have hcost := hr.level .cost q ⟨hpass.1, hpe, trivial⟩ hμ
  have hfar : 7 ≤ μ' := (hs.said hp hp' hr' hcost).1
  have hasked : ∀ k' : MessageKind, k'.answers? = some k → k'.neededFor ≤ 7 →
      Heard p.history k q := by
    intro k' hans hneeded
    have hpass' : t.Passes k' pe q := (Scenario.passes_answer hans).2 hpass
    have hanswer := hr'.level k' pe hpass' (hneeded.trans hfar)
    exact (hs.said hp' hp hr hanswer).2 k hans
  -- Questions are known from the answers to them, which their senders have had.
  cases k with
  | query => exact hasked .mask rfl (by decide)
  | request => exact hasked .assigned rfl (by decide)
  | abort => exact absurd hpass.2.2 id
  | deviation => exact absurd rfl hk
  | _ => exact hr.level _ q hpass (Nat.le_trans (by decide) hμ)

end Network.Sound

/-- Some processor has failed on its own, with something still to be heard. -/
def Network.Rooted (n : Network) (t : Scenario) : Prop :=
  ∃ (pe : Nat) (p : Processor) (μ : Nat), n.processors[pe]? = some p ∧ p.Fails ∧
    p.Reaches t True pe μ ∧
    (μ ≤ 6 ∨ ∃ k q, k ≠ .deviation ∧ t.Passes k q pe ∧ ¬ Heard p.history k q)

theorem Network.Rooted.set {t : Scenario} {l : List Packet} {n n' : Network} {pe : Nat}
    {p : Processor} (hroot : (∃ p ∈ n.processors, p.Fails) → n.Rooted t)
    (hs' : n'.Sound t .exact l) (hp : n.processors[pe]? = some p) (hfails : ¬ p.Fails)
    (hset : ∃ p', n'.processors = n.processors.set pe p') :
    (∃ p ∈ n'.processors, p.Fails) → n'.Rooted t := by
  -- A failure either has its root in another one or is one.
  obtain ⟨p', hset⟩ := hset
  have hother : ∀ i, i ≠ pe → n'.processors[i]? = n.processors[i]? := fun i hi => by
    rw [hset]
    exact List.getElem?_set_ne (Ne.symm hi)
  have hkeeps : n.Rooted t → n'.Rooted t := by
    rintro ⟨i, r, μ, hr, hrfails, hrest⟩
    have hi : i ≠ pe := by
      rintro rfl
      obtain rfl := Option.some.inj (hp.symm.trans hr)
      exact hfails hrfails
    exact ⟨i, r, μ, (hother i hi).trans hr, hrfails, hrest⟩
  rintro ⟨r, hr, hrfails⟩
  obtain ⟨i, hi, rfl⟩ := List.mem_iff_getElem.1 hr
  have hget := List.getElem?_eq_getElem hi
  by_cases hne : i = pe
  · subst hne
    obtain ⟨e, hstatus⟩ := hrfails
    obtain ⟨μ, hreach, -, ⟨-, hown⟩ | ⟨j, reason, habort⟩⟩ :=
      (hs'.stands i _ hget).reaches_error hstatus
    · rw [eq_self] at hreach
      exact ⟨i, _, μ, hget, ⟨e, hstatus⟩, hreach, hown rfl⟩
    -- A failure that was only heard of has its root where it came from.
    · obtain ⟨hji, p'', e', hp'', hstatus', -⟩ := hs'.fails_of_abort hget habort
      rw [hother j hji] at hp''
      exact hkeeps (hroot ⟨p'', List.mem_of_getElem? hp'', e', hstatus'⟩)
  · rw [hother i hne] at hget
    exact hkeeps (hroot ⟨_, List.mem_of_getElem? hget, hrfails⟩)

/-- Processor `pe` has failed with `e`, and has not just been answered so by its reader or its
strategy. -/
def Network.Raises (n : Network) (t : Scenario) (pe : Nat) (e : Fault) : Prop :=
  ∃ p, n.processors[pe]? = some p ∧ p.status = .returned (.error e) ∧ ¬ t.Reported pe e

namespace Run
variable {t : Scenario} {l : List Packet} {n : Network}

theorem rooted (hr : Run t .exact l n) (hfails : ∃ p ∈ n.processors, p.Fails) : n.Rooted t := by
  induction hr with
  | fresh =>
    obtain ⟨p, hp, e, hstatus⟩ := hfails
    obtain ⟨pe, -, rfl⟩ := List.mem_map.1 hp
    cases hstatus
  | @start l n pe p run here fresh ih =>
    refine Network.Rooted.set ih (run.start here fresh).sound here ?_
      ⟨_, Network.processors_take here _⟩ hfails
    rintro ⟨e, hstatus⟩
    rw [fresh] at hstatus
    cases hstatus
  | @deliver l n x run under waits ih =>
    obtain ⟨p, s, hp, hwaits⟩ := Network.isWaiting_iff.1 waits
    have hset := Network.processors_take
      (n := ⟨n.processors, Delivery.exact.remaining n.inFlight x⟩) hp fun p =>
        p.receive .sound x.source x.frame
    refine Network.Rooted.set ih (run.deliver under waits).sound hp ?_ ⟨_, hset⟩ hfails
    rintro ⟨e, hstatus⟩
    rw [hwaits] at hstatus
    cases hstatus

theorem not_fails_of_succeeds (hr : Run t .exact l n) {p p' : Processor} (hp : p ∈ n.processors)
    (hp' : p' ∈ n.processors) (hok : p.Succeeds) : ¬ p'.Fails := by
  intro hfails
  have hs := hr.sound
  obtain ⟨i, r, μ, hget, -, hreach, hown⟩ := hr.rooted ⟨p', hp', hfails⟩
  obtain ⟨j, hj, rfl⟩ := List.mem_iff_getElem.1 hp
  have hp := List.getElem?_eq_getElem hj
  obtain ⟨outcome, hstatus⟩ := hok
  obtain ⟨-, hdone⟩ := (hs.stands j _ hp).reaches_ok hstatus
  have hheard := hdone.level .deviation i ⟨hs.pe_lt hget, hs.pe_lt hp, trivial⟩ (Nat.le_refl 9)
  -- The failed processor has told its deviation, so nothing it still waited for was essential.
  have hfar : 8 ≤ μ := (hs.said hp hget hreach hheard).1
  rcases hown with hμ | ⟨k, q, hk, hpass, hno⟩
  · omega
  · exact hno (hs.heard_all hget hreach hfar hk hpass)

/-- No processor raises a failure that is due to a message that should not have come, whatever
fails elsewhere; and unless a reader or a strategy makes one up, none ends with such a failure. -/
theorem never_misdelivered (hr : Run t .exact l n) :
    (∀ pe e, n.Raises t pe e → e.isMisdelivery = false) ∧
    ((∀ pe e, t.Reported pe e → e.isMisdelivery = false) →
      ∀ p ∈ n.processors, ∀ e, p.status = .returned (.error e) → e.isMisdelivery = false) := by
  have hinnocent : ∀ (pe : Nat) (p : Processor) (e : Fault), n.processors[pe]? = some p →
      p.status = .returned (.error e) → t.Reported pe e ∨ e.isMisdelivery = false := by
    intro pe p e hget hstatus
    obtain ⟨-, -, heither, -⟩ := (hr.sound.stands pe p hget).reaches_error hstatus
    exact heither rfl
  constructor
  · rintro pe e ⟨p, hget, hstatus, hown⟩
    exact (hinnocent pe p e hget hstatus).resolve_left hown
  · intro hreports p hp e hstatus
    obtain ⟨pe, hget⟩ := List.mem_iff_getElem?.1 hp
    exact (hinnocent pe p e hget hstatus).elim (hreports pe e) id

end Run

def Scenario.oneUnlisted : Scenario :=
  { Scenario.twoElements with strategy := some (.provided [0]) }

theorem unlisted_element_misdelivers_nothing : ∃ l n e, Run .oneUnlisted .exact l n ∧
    n.Raises .oneUnlisted 0 e ∧ e.isMisdelivery = false := by
  have hfails : ∃ p ∈ (Scenario.oneUnlisted.played .exact [0, 0, 0, 0, 0, 1]).processors[0]?,
      p.result? = some (.error (.aborted 1 (Fault.strategy (.elementUnlisted 1)).message)) := by
    decide +kernel
  have hown : ∀ reason, ¬ Scenario.oneUnlisted.Reported 0 (.aborted 1 reason) := by
    rintro reason (h | ⟨hcount, -, h⟩ | ⟨needs, -, -⟩ | ⟨hs, h⟩)
    · cases h
    · cases h
    · cases needs
    · obtain rfl := Option.some.inj hs
      cases h
  obtain ⟨p, hp, hresult⟩ := hfails
  have hstatus := Processor.result?_eq_some_iff.1 hresult
  obtain ⟨l, hr⟩ := Run.played .oneUnlisted .exact [0, 0, 0, 0, 0, 1]
  exact ⟨l, _, _, hr, ⟨p, hp, hstatus, hown _⟩,
    hr.never_misdelivered.1 0 _ ⟨p, hp, hstatus, hown _⟩⟩

end MeshNumbering
