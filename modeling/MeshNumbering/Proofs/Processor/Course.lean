import MeshNumbering.Processor.Basic
import MeshNumbering.Proofs.Processor.Turns

/-! A processor from its start to its return. As long as nothing forged reaches it, its history
tells what its status is; when it fails, it has been told to, or something of its own was wrong. -/

namespace MeshNumbering
open History Script State

namespace History

theorem frames_performAll (links : Links) (l : List Action) :
    frames (performAll links l).1 = [] := by
  have hone : ∀ a : Action, frames (a.perform links).1 = [] := by
    intro a
    cases a with
    | send peer m =>
      simp only [Action.perform]
      split <;> rfl
    | _ => rfl
  induction l with
  | nil => rfl
  | cons a l ih =>
    have ha := hone a
    unfold performAll
    split
    · next events e heq =>
      rw [heq] at ha
      exact ha
    · next events heq =>
      rw [heq] at ha
      show frames (events ++ (performAll links l).1) = []
      rw [frames_append, ha, ih]
      rfl

end History

theorem Script.frames_run {α : Type} (links : Links) (s : Script α) :
    frames (s.run links).1 = [] := by
  have hall := frames_performAll links s.actions
  unfold Script.run
  split
  · next heq => rwa [heq] at hall
  · next heq => rwa [heq] at hall

theorem Script.frames_of_run {α : Type} {links : Links} {s : Script α} {events : List Event}
    {r : Except Fault α} (h : s.run links = (events, r)) : frames events = [] := by
  have hnone := Script.frames_run links s
  rwa [h] at hnone

theorem Script.Leads.frames_eq {α : Type} {s : Script α} {h : List Event}
    {P : α → List Event → Prop} {Q : Fault → List Event → Prop} (hs : s.Leads h P Q) :
    s.Leads h (fun a h' => P a h' ∧ frames h' = frames h)
      fun e h' => Q e h' ∧ frames h' = frames h := by
  have hframes : frames (h ++ (s.run .sound).1) = frames h := by
    rw [frames_append, Script.frames_run, List.append_nil]
  unfold Script.Leads at hs ⊢
  split
  · next heq =>
    rw [heq] at hs hframes
    exact ⟨hs, hframes⟩
  · next heq =>
    rw [heq] at hs hframes
    exact ⟨hs, hframes⟩

/-! What a failed processor tells its peers. -/

namespace Seat
variable {seat : Seat} {e : Fault}

theorem farewell_eq (seat : Seat) (e : Fault) : seat.farewell .sound e =
    if e.isRemote then []
    else (if (Message.abort seat.pe e.message).unfit?.isSome then []
      else (List.range seat.npes).filter (· ≠ seat.pe)).map
        (fun peer => .sent peer (.abort seat.pe e.message)) ++ [.halted e.message] := rfl

theorem adds_farewell (h : List Event) : ∃ peers : List Nat, peers.Nodup ∧
    (∀ q ∈ peers, q < seat.npes ∧ q ≠ seat.pe ∧ e.isRemote = false ∧
      (Message.abort seat.pe e.message).unfit? = none) ∧
    (∀ q < seat.npes, q ≠ seat.pe → e.isRemote = false →
      (Message.abort seat.pe e.message).unfit? = none → q ∈ peers) ∧
    Adds h (h ++ seat.farewell .sound e)
      (peers.map fun q => (q, .abort seat.pe e.message)) [] := by
  rw [farewell_eq]
  by_cases hremote : e.isRemote = true
  · refine ⟨[], .nil, by simp, fun q _ _ hr => ?_, by simpa [hremote] using Adds.refl h⟩
    rw [hremote] at hr
    cases hr
  rw [if_neg hremote, ← List.append_assoc]
  rw [Bool.not_eq_true] at hremote
  refine ⟨_, ?_, fun q hq => ?_, fun q hq hne _ hfits => ?_,
    (adds_sends _ id fun _ => .abort seat.pe e.message).trans_quiet (.of_append _ rfl rfl)⟩
  · split
    · exact .nil
    · exact List.nodup_range.filter _
  · split at hq
    · cases hq
    · next hfits =>
      obtain ⟨hlt, hne⟩ := List.mem_filter.1 hq
      refine ⟨List.mem_range.1 hlt, by simpa using hne, hremote, ?_⟩
      rwa [Bool.not_eq_true, Option.isSome_eq_false_iff, Option.isNone_iff_eq_none] at hfits
  · rw [hfits]
    exact List.mem_filter.2 ⟨List.mem_range.2 hq, by simpa using hne⟩

end Seat

/-! Where a processor stands. -/

def Scenario.Readable (t : Scenario) (h : List Event) : Prop :=
  ∀ f ∈ frames h, ∀ l ∈ t.config.frameLimit, f.2.length ≤ l

/-- What holds at the end of a turn: the run is over here, or something is missing. -/
structure State.Rests (s : State) (t : Scenario) (once : Prop) (pe : Nat) (h : List Event) :
    Prop where
  live : s.Live t once pe [] h
  patient : s.Patient
  rests : s.mark = 9 ∨ s.Settled t pe h
  readable : t.Readable h

structure State.Waits (s : State) (t : Scenario) (once : Prop) (pe : Nat) (h : List Event) :
    Prop where
  live : s.Live t once pe [] h
  patient : s.Patient
  unfinished : s.mark < 9
  settled : s.Settled t pe h
  readable : t.Readable h

/-- A failure, up to mark `μ`, before it is told to anybody. From mark 7 on it needs a message that
does not come any more, or somebody else's failure. -/
structure Breaks (t : Scenario) (once : Prop) (pe : Nat) (e : Fault) (μ : Nat) (h : List Event) :
    Prop where
  record : Record t once pe μ h
  flaw : once → e.isRemote = false → t.Flaw pe e
  cause : (t.Reported pe e ∨ e.isRemote = false) ∧ (once → μ ≤ 6 ∨
      ∃ k q, k ≠ .deviation ∧ t.Passes k q pe ∧ ¬ Heard h k q) ∨
    ∃ q reason, (q, (Message.abort q reason).encode) ∈ frames h

def Status.Stands (t : Scenario) (once : Prop) (pe : Nat) (h : List Event) : Status → Prop
  | .fresh => h = []
  | .waiting s => s.Waits t once pe h
  | .returned (.ok outcome) => ∃ s : State, s.stage = .done outcome ∧ s.Live t once pe [] h
  | .returned (.error e) =>
    ∃ μ h₀, h = h₀ ++ (t.seat pe).farewell .sound e ∧ Breaks t once pe e μ h₀

variable {t : Scenario} {once : Prop} {pe q : Nat} {h : List Event} {s : State} {m : Message}

theorem State.Fails.breaks {e : Fault} (hf : State.Fails t once pe e h) :
    ∃ μ, Breaks t once pe e μ h := by
  obtain ⟨⟨μ, hμ, hr⟩, hlocal, honce⟩ := hf
  exact ⟨μ, hr, fun ho _ => honce ho, .inl ⟨hlocal, fun _ => .inl hμ⟩⟩

theorem Seat.stands_conclude {x : Script State}
    (hx : x.Leads h (fun s' h' => s'.Rests t once pe h') fun e h' => ∃ μ, Breaks t once pe e μ h') :
    ((t.seat pe).conclude .sound x).status.Stands t once pe
      (h ++ ((t.seat pe).conclude .sound x).events) := by
  unfold Script.Leads at hx
  unfold Seat.conclude
  split
  · next events e heq =>
    rw [heq] at hx
    obtain ⟨μ, hb⟩ := hx
    exact ⟨μ, h ++ events, (List.append_assoc ..).symm, hb⟩
  · next events s' heq =>
    rw [heq] at hx
    obtain ⟨hl, hpatient, hend, hread⟩ := hx
    split
    · next outcome hst => exact ⟨s', hst, hl⟩
    · next hst =>
      have hmark : s'.mark ≠ 9 := by
        intro hmark
        rw [State.mark] at hmark
        cases hstage : s'.stage with
        | done outcome => exact hst outcome hstage
        | _ =>
          simp only [hstage, Stage.mark] at hmark
          first | omega | (split at hmark <;> omega)
      have hlt : s'.mark < 9 := Nat.lt_of_le_of_ne s'.stage.mark_le hmark
      exact ⟨hl, hpatient, hlt, hend.resolve_left hmark, hread⟩

/-! The start. -/

theorem Record.start {l : List (Nat × Message)} (hpe : pe < t.npes) (ha : Adds [] h l [])
    (hl : t.Round once pe 0 [] l) : Record t once pe 0 h := by
  have hsent : sent h = l := ha.sent_eq
  have htaken : taken h = [] := ha.taken_eq
  have hheard : Heard h = Heard [] := ha.heard_eq
  exact {
    pe_lt := hpe
    due := fun q m hm => by
      obtain ⟨hg, hp, hf, hs, hk⟩ := hl.due q m (hsent ▸ hm)
      exact ⟨hg, hp, hf, hs, fun k hk' => hheard ▸ hk k hk'⟩
    genuine := fun m hm => by
      rw [htaken] at hm
      cases hm
    passes := fun m hm => by
      rw [htaken] at hm
      cases hm
    received := fun m hm => by
      rw [htaken] at hm
      cases hm
    actedFrom_le := fun m hm => by
      rw [htaken] at hm
      cases hm
    level := fun k q _ hk => by cases k <;> cases hk
    passed := .zero t pe
    handed := ha.handoffs_eq
    sent_once := fun ho => hsent ▸ hl.each_once ho }

theorem not_heard_nil (k : MessageKind) (q : Nat) : ¬ Heard [] k q := by
  rintro ⟨m, hm, -⟩
  cases hm

theorem State.live_start {l : List (Nat × Message)} (hpe : pe < t.npes) (hreads : t.Reads pe)
    (ha : Adds [] h l []) (hround : t.Round once pe 0 [] l)
    (hloads : ∀ q < t.npes, (q, t.message .load pe q) ∈ l) :
    (State.start (t.seat pe) ⟨t.chunk pe, t.centroids pe⟩).Live t once pe [] h := by
  have hheard : Heard h = Heard [] := ha.heard_eq
  have hno : ∀ {α : Type} (k kind : MessageKind) (f : Nat → α),
      (RollCall.start kind t.npes).Holds kind t.npes (Heard h k) f := fun k kind f =>
    RollCall.holds_start.congr fun q => by simp [hheard, not_heard_nil]
  refine {
    state := ⟨rfl, ⟨rfl, rfl, hreads⟩, fun k => ?_, fun g hg => (by cases hg), rfl, rfl⟩
    record := .start hpe ha hround
    told := fun k q hp hk hans => ?_
    ordered := fun q hd => ?_
    genuine := fun m hm => by cases hm
    passes := fun m hm => by cases hm
    received := fun m hm => by cases hm
    known := fun f hf => ?_
    each_once := fun _ => ?_ }
  · cases k with
    | query => exact ⟨hno .query .query _, fun _ => .inl (show 0 < 3 by decide)⟩
    | lower =>
      intro r
      refine ⟨fun hr => (by cases hr), ?_⟩
      rintro ⟨-, ⟨-, h6⟩ | ⟨q, -, hh⟩⟩
      · exact absurd (show 6 ≤ 0 from h6) (by decide)
      · rw [hheard] at hh
        exact absurd hh (not_heard_nil _ _)
    | load => exact hno .load .load _
    | delivered => exact hno .delivered .delivered _
    | offset => exact hno .offset .offset _
    | cost => exact hno .cost .cost _
    | deviation => exact hno .deviation .deviation _
    | _ => exact trivial
  · have hk : k.saidFrom ≤ 0 := hk
    rw [hheard] at hans
    refine ha.told_iff.2 (.inr ?_)
    cases k <;> try cases hk
    · exact ⟨_, hloads q hp.2.1, rfl⟩
    · exact absurd (hans _ rfl) (not_heard_nil _ _)
    · exact absurd (hans _ rfl) (not_heard_nil _ _)
    · exact absurd hp.2.2 id
  · rw [hheard] at hd
    exact absurd hd (not_heard_nil _ _)
  · rw [ha.frames_eq] at hf
    cases hf
  · rw [ha.taken_eq]
    exact .nil

theorem State.leads_begin (hpe : pe < t.npes) : (State.begin (t.seat pe) t.reader).Leads []
    (fun s' h' => s'.Rests t once pe h') fun e h' => ∃ μ, Breaks t once pe e μ h' := by
  have hfails : ∀ {e h'}, Adds [] h' [] [] → t.Flaw pe e → ∃ μ, Breaks t once pe e μ h' :=
    fun ha he => (Fails.of_quiet (.start hpe (.refl []) .nil) (Nat.zero_le 6) ha he).breaks
  -- What comes after reading is the same with and without centroids.
  have hrest : t.Reads pe → ∀ centroids, t.centroids pe = centroids → (do
      let s := State.start (t.seat pe) ⟨t.chunk pe, centroids⟩
      s.report .read
      s.tellAll (.load s.pe (t.chunk pe).size)
      return s : Script State).Leads []
      (fun s' h' => s'.Rests t once pe h') fun e h' => ∃ μ, Breaks t once pe e μ h' := by
    rintro hreads _ rfl
    refine leads_bind.2 (leads_reported fun h₁ ha₁ => leads_bind.2 ?_)
    refine leads_tellAll once (k := .load) ha₁ hpe rfl rfl (fun q hq => ⟨rfl, hpe, hq, trivial⟩) rfl
      (fun h₂ ha₂ hround => leads_pure.2 ⟨?_, fun m hm => (by cases hm), .inr ?_, fun f hf => ?_⟩)
      fun e _ hflaw => hfails ha₁ hflaw
    · exact live_start hpe hreads ha₂ hround fun q hq =>
        List.mem_map.2 ⟨q, List.mem_range.2 hq, rfl⟩
    · refine ⟨.load, pe, ⟨hpe, hpe, trivial⟩, rfl, ?_⟩
      rw [ha₂.heard_eq]
      exact not_heard_nil _ _
    · rw [ha₂.frames_eq] at hf
      cases hf
  unfold State.begin
  refine leads_bind.2 (leads_mapError (fun _ _ => ?_) fun _ he => hfails (.refl []) (.config he))
  refine leads_bind.2 (leads_lift.2 ⟨fun chunk hchunk => ?_, fun _ he =>
    hfails (.refl []) (.chunk he)⟩)
  obtain rfl : t.chunk pe = chunk := by
    rw [Scenario.chunk, show Chunk.read t.reader pe t.npes = .ok chunk from hchunk]
    rfl
  replace hrest := hrest hchunk
  show (if t.config.algorithm.needsCentroids then _ else _ : Script State).Leads _ _ _
  unfold Scenario.centroids at hrest
  split
  · next hneeds =>
    rw [if_pos hneeds] at hrest
    refine leads_bind.2 (leads_lift.2 ⟨fun centroids hc => hrest _ ?_, fun _ he =>
      hfails (.refl []) (.centroids hneeds he)⟩)
    rw [hc]
    rfl
  · next hneeds =>
    rw [if_neg hneeds] at hrest
    exact leads_bind.2 (leads_pure.2 (hrest _ rfl))

/-! A frame that comes in. -/

/-- What a processor can count on when frame `f` comes from `q`: it has been sent by `q`, after
everything that had to happen before. -/
inductive Scenario.Arrives (t : Scenario) (once : Prop) (pe μ : Nat) (h : List Event) (q : Nat) :
    Frame → Prop
  | message {k : MessageKind} (passes : t.Passes k q pe) (fits : (t.message k q pe).unfit? = none)
      (fresh : once → (q, (t.message k q pe).encode) ∉ frames h)
      (shipped : k = .receipt → 1 ≤ μ)
      (ordered : k = .delivered → t.Passes .batch q pe → Heard h .batch q) :
      t.Arrives once pe μ h q (t.message k q pe).encode
  | abort {reason : String} (fits : (Message.abort q reason).unfit? = none) :
      t.Arrives once pe μ h q (Message.abort q reason).encode

section
variable {k : MessageKind} {f : Frame}

theorem heard_hearing : Heard (h ++ [.heard q f]) = Heard h := by
  have htaken : taken (h ++ [.heard q f]) = taken h := by
    rw [taken_append]
    exact List.append_nil _
  funext k j
  rw [Heard, Heard, htaken]

theorem Record.hearing {μ : Nat} (hr : Record t once pe μ h) :
    Record t once pe μ (h ++ [.heard q f]) := by
  have hsent : sent (h ++ [.heard q f]) = sent h := by
    rw [sent_append]
    exact List.append_nil _
  have htaken : taken (h ++ [.heard q f]) = taken h := by
    rw [taken_append]
    exact List.append_nil _
  have hcalls : handoffs (h ++ [.heard q f]) = handoffs h := by
    rw [handoffs_append]
    exact List.append_nil _
  exact {
    pe_lt := hr.pe_lt
    due := fun j m hm => by
      obtain ⟨hg, hp, hf, hs, hk⟩ := hr.due j m (hsent ▸ hm)
      exact ⟨hg, hp, hf, hs, fun k hk' => by rw [heard_hearing]; exact hk k hk'⟩
    genuine := by rw [htaken]; exact hr.genuine
    passes := by rw [htaken]; exact hr.passes
    received := fun m hm => by
      rw [frames_append]
      exact List.mem_append_left _ (hr.received m (htaken ▸ hm))
    actedFrom_le := by rw [htaken]; exact hr.actedFrom_le
    level := by rw [heard_hearing]; exact hr.level
    passed := hr.passed
    handed := by rw [hcalls]; exact hr.handed
    sent_once := by rw [hsent]; exact hr.sent_once }

namespace State.Live

theorem hearing (hl : s.Live t once pe [] h) (hp : t.Passes k q pe)
    (hfresh : once → (q, (t.message k q pe).encode) ∉ frames h) :
    s.Live t once pe [t.message k q pe] (h ++ [.heard q (t.message k q pe).encode]) := by
  have htaken : taken (h ++ [.heard q (t.message k q pe).encode]) = taken h := by
    rw [taken_append]
    exact List.append_nil _
  have hframes : frames (h ++ [.heard q (t.message k q pe).encode]) =
      frames h ++ [(q, (t.message k q pe).encode)] := frames_append ..
  have htold : Told (h ++ [.heard q (t.message k q pe).encode]) = Told h := by
    funext k' j
    rw [Told, Told, sent_append, show sent [.heard q (t.message k q pe).encode] = [] from rfl,
      List.append_nil]
  refine {
    state := by rw [heard_hearing]; exact hl.state
    record := hl.record.hearing
    told := by rw [heard_hearing, htold]; exact hl.told
    ordered := by rw [heard_hearing]; exact hl.ordered
    genuine := List.forall_mem_cons.2 ⟨?_, hl.genuine⟩
    passes := List.forall_mem_cons.2 ⟨?_, hl.passes⟩
    received := List.forall_mem_cons.2 ⟨?_, fun m hm => ?_⟩
    known := fun f hf => ?_
    each_once := fun ho => ?_ }
  · rw [Scenario.kind_message, Scenario.sender_message]
  · rwa [Scenario.kind_message, Scenario.sender_message]
  · rw [hframes, Scenario.sender_message]
    exact List.mem_append_right _ (List.mem_singleton_self _)
  · rw [hframes]
    exact List.mem_append_left _ (hl.received m hm)
  · rw [htaken]
    rw [hframes, List.mem_append, List.mem_singleton] at hf
    rcases hf with hf | rfl
    · obtain ⟨m, hm, heq⟩ := hl.known f hf
      exact ⟨m, List.mem_cons_of_mem _ hm, heq⟩
    · exact ⟨_, List.mem_cons_self .., by rw [Scenario.sender_message]⟩
  · rw [htaken]
    refine List.nodup_cons.2 ⟨fun hm => hfresh ho ?_, hl.each_once ho⟩
    have hin := (List.mem_append.1 hm).elim (hl.received _) (hl.record.received _)
    rwa [Scenario.sender_message] at hin

end State.Live

theorem length_load (p n : Nat) : (Message.load p n).encode.length = 28 := by
  rw [Message.length_encode, Message.length_body]
  simp [Message.fields, Bytes.length_word]

theorem length_deviation (p : Nat) (bits : UInt64) :
    (Message.deviation p bits).encode.length = 28 := by
  rw [Message.length_encode, Message.length_body]
  simp [Message.fields, Bytes.length_word]

namespace State.Waits

theorem readable_deviation (hw : s.Waits t once pe h) (hmark : 1 ≤ s.mark) :
    ∀ l ∈ t.config.frameLimit, (t.message .deviation q pe).encode.length ≤ l := by
  -- A deviation is no longer than the loads that have been read before.
  intro l hl
  have hpe := hw.live.record.pe_lt
  obtain ⟨m, hm, hkind, hsender⟩ := hw.live.record.level .load pe ⟨hpe, hpe, trivial⟩ hmark
  have hread := hw.readable _ (hw.live.record.received m hm) l hl
  have hgenuine := hw.live.record.genuine m hm
  rw [hkind] at hgenuine
  rw [show m = .load m.sender (t.load m.sender) from hgenuine, length_load] at hread
  rw [show t.message .deviation q pe = .deviation q (t.deviation q).toBits from rfl,
    length_deviation]
  exact hread

theorem not_heard_of_fresh (hw : s.Waits t once pe h)
    (hfresh : once → (q, (t.message k q pe).encode) ∉ frames h) (ho : once) :
    ¬ Heard (h ++ [.heard q f]) k q := by
  -- A message heard before would have come in this very frame.
  rw [heard_hearing]
  rintro ⟨m, hm, rfl, rfl⟩
  rw [← hw.live.record.genuine m hm] at hfresh
  exact hfresh ho (hw.live.record.received m hm)

theorem leads_respond (hw : s.Waits t once pe h) (hp : t.Passes k q pe)
    (hfresh : once → (q, (t.message k q pe).encode) ∉ frames h)
    (hshipped : k = .receipt → 1 ≤ s.mark)
    (hordered : k = .delivered → t.Passes .batch q pe → Heard h .batch q)
    (hshort : ∀ l ∈ t.config.frameLimit, (t.message k q pe).encode.length ≤ l) :
    (s.respond (t.message k q pe)).Leads (h ++ [.heard q (t.message k q pe).encode])
      (fun s' h' => s'.Rests t once pe h') fun e h' => ∃ μ, Breaks t once pe e μ h' := by
  have hread : t.Readable (h ++ [.heard q (t.message k q pe).encode]) := by
    intro g hg
    rw [frames_append, List.mem_append] at hg
    rcases hg with hg | hg
    · exact hw.readable g hg
    · rw [List.mem_singleton.1 hg]
      exact hshort
  have htakes := (hw.live.hearing hp hfresh).take hw.patient hw.unfinished
    (by rwa [Scenario.kind_message])
    (by rw [Scenario.kind_message, Scenario.sender_message, heard_hearing]; exact hordered)
  unfold State.respond
  refine leads_bind.2 (htakes.frames_eq.mono (fun s' h' hs => ?_) fun e h' he => ?_)
  · obtain ⟨⟨hl, hpatient, -, -⟩, hframes⟩ := hs
    have hsettles := (hl.settle hpatient (Nat.le_add_left 7 _)).frames_eq
    refine hsettles.mono (fun s'' h'' hs => ?_) fun e h'' he => Fails.breaks he.1
    obtain ⟨⟨hl', hpatient', hend⟩, hframes'⟩ := hs
    refine ⟨hl', hpatient', hend, fun g hg => ?_⟩
    rw [hframes', hframes] at hg
    exact hread g hg
  · obtain ⟨⟨rfl, hremote, honce⟩, -⟩ := he
    refine ⟨s.mark, hw.live.record.hearing, fun ho _ => (honce ho).1,
      .inl ⟨.inr hremote, fun ho => .inr ?_⟩⟩
    have hquestion := (honce ho).2
    rw [Scenario.kind_message] at hquestion
    refine ⟨k, q, fun hk => ?_, hp, hw.not_heard_of_fresh hfresh ho⟩
    rw [hk] at hquestion
    cases hquestion

theorem leads_hear (hw : s.Waits t once pe h) (ha : t.Arrives once pe s.mark h q f) :
    (s.hear q f).Leads (h ++ [.heard q f]) (fun s' h' => s'.Rests t once pe h')
      fun e h' => ∃ μ, Breaks t once pe e μ h' := by
  have hr : Record t once pe s.mark (h ++ [.heard q f]) := hw.live.record.hearing
  have hlimit : s.seat.config.frameLimit = t.config.frameLimit :=
    congrArg (fun x => x.config.frameLimit) hw.live.state.seat_eq
  have hin : (q, f) ∈ frames (h ++ [.heard q f]) := by
    rw [frames_append]
    exact List.mem_append_right _ (List.mem_singleton_self _)
  unfold State.hear
  rw [hlimit]
  cases ha with
  | @message k hp hfits hfresh hshipped hordered =>
    rw [Message.decode_encode hfits]
    split
    · next hshort =>
      refine leads_bind.2 (leads_lift.2 ⟨fun m hm => ?_, fun e he => by cases he⟩)
      obtain rfl := Except.ok.inj hm
      rw [if_pos (Scenario.sender_message ..)]
      exact hw.leads_respond hp hfresh hshipped hordered hshort
    · next hlong =>
      refine leads_bind.2 (leads_lift.2 ⟨fun m hm => (by cases hm), fun e he => ?_⟩)
      obtain rfl := Except.error.inj he
      have hflaw : t.Flaw pe (.frame (.overLimit _ _)) := .of_too_long hlong
      refine ⟨s.mark, hr, fun _ _ => hflaw, .inl ⟨.inr rfl, fun ho => ?_⟩⟩
      -- Once the loads have been read no deviation is too long, so the frame was one that is still
      -- needed.
      by_cases hmark : 1 ≤ s.mark
      · refine .inr ⟨k, q, fun hk => ?_, hp, hw.not_heard_of_fresh hfresh ho⟩
        subst hk
        exact hlong (hw.readable_deviation hmark)
      · exact .inl (by omega)
  | @abort reason hfits =>
    rw [Message.decode_encode hfits]
    split
    · refine leads_bind.2 (leads_lift.2 ⟨fun m hm => ?_, fun e he => by cases he⟩)
      obtain rfl := Except.ok.inj hm
      rw [if_pos (show (Message.abort q reason).sender = q from rfl)]
      refine leads_bind.2 (leads_bind.2 (leads_fail.2 ?_))
      exact ⟨s.mark, hr, fun _ hremote => (by cases hremote), .inr ⟨q, reason, hin⟩⟩
    · next hlong =>
      refine leads_bind.2 (leads_lift.2 ⟨fun m hm => (by cases hm), fun e he => ?_⟩)
      obtain rfl := Except.error.inj he
      have hflaw : t.Flaw pe (.frame (.overLimit _ _)) := .of_too_long hlong
      exact ⟨s.mark, hr, fun _ _ => hflaw, .inr ⟨q, reason, hin⟩⟩

end State.Waits

end

end MeshNumbering
