import MeshNumbering.Network
import MeshNumbering.Proofs.Processor.Reach

/-! Runs of a network, in any order of starts and deliveries. Whatever is under way has been sent,
and whatever a processor has heard has been delivered to it; so one processor can conclude from what
it has heard how far the others have come. -/

namespace MeshNumbering
open History

inductive Delivery where
  -- Every frame is delivered at most once.
  | exact
  -- A frame can be delivered at any time, any number of times.
  | loose
deriving DecidableEq

def Delivery.remaining (d : Delivery) (l : List Packet) (x : Packet) : List Packet :=
  match d with
  | exact => l.erase x
  | loose => l

/-- A run up to some moment, with the packets delivered so far. Processors are started once each;
frames reach only those that wait. Nothing has to be delivered. -/
inductive Run (t : Scenario) (d : Delivery) : List Packet → Network → Prop
  | fresh : Run t d [] (.fresh t.npes t.config t.strategy)
  | start {l : List Packet} {n : Network} {pe : Nat} {p : Processor} (run : Run t d l n)
      (here : n.processors[pe]? = some p) (fresh : p.status = .fresh) :
      Run t d l (n.start t.reader pe)
  | deliver {l : List Packet} {n : Network} {x : Packet} (run : Run t d l n)
      (under : x ∈ n.inFlight) (waits : n.isWaiting x.target = true) :
      Run t d (l ++ [x])
        (Network.deliver ⟨n.processors, d.remaining n.inFlight x⟩ x.target x.source x.frame)

def History.posts (pe : Nat) (h : List Event) : List Packet :=
  (sent h).map fun y => ⟨pe, y.1, y.2.encode⟩

theorem History.posts_append (pe : Nat) (h h' : List Event) :
    posts pe (h ++ h') = posts pe h ++ posts pe h' := by
  rw [posts, sent_append, List.map_append]
  rfl

/-- Every processor is as its history tells, and the histories fit to what has been delivered and
what is under way. -/
structure Network.Sound (n : Network) (t : Scenario) (d : Delivery) (l : List Packet) : Prop where
  length_eq : n.processors.length = t.npes
  stands : ∀ (pe : Nat) (p : Processor), n.processors[pe]? = some p → p.Stands t (d = .exact) pe
  heard_iff : ∀ (pe : Nat) (p : Processor), n.processors[pe]? = some p →
    ∀ q f, (q, f) ∈ frames p.history ↔ ⟨q, pe, f⟩ ∈ l
  posted : ∀ x ∈ l ++ n.inFlight, ∃ p : Processor, n.processors[x.source]? = some p ∧
    x ∈ posts x.source p.history
  balanced : d = .exact → ∀ (pe : Nat) (p : Processor), n.processors[pe]? = some p →
    ((l ++ n.inFlight).filter fun x => x.source = pe).Perm (posts pe p.history)

theorem Network.isWaiting_iff {n : Network} {pe : Nat} : n.isWaiting pe = true ↔
    ∃ (p : Processor) (s : State), n.processors[pe]? = some p ∧ p.status = .waiting s := by
  rw [Network.isWaiting]
  cases n.processors[pe]? with
  | none => simp
  | some p => cases hs : p.status <;> simp [Processor.isWaiting, hs]

theorem Network.processors_take {n : Network} {pe : Nat} {p : Processor}
    (h : n.processors[pe]? = some p) (turn : Processor → Turn) :
    (n.take pe turn).processors = n.processors.set pe (p.after (turn p)) := by
  rw [Network.take, h]

theorem Network.eq_fresh_of_getElem? {t : Scenario} {pe : Nat} {p : Processor}
    (h : (Network.fresh t.npes t.config t.strategy).processors[pe]? = some p) :
    p = .fresh (t.seat pe) := by
  rw [Network.fresh, List.getElem?_map, Option.map_eq_some_iff] at h
  obtain ⟨i, hi, rfl⟩ := h
  obtain ⟨hlt, rfl⟩ := List.getElem?_eq_some_iff.1 hi
  rw [List.getElem_range]
  rfl

theorem Network.of_processors_set {n n' : Network} {pe i : Nat} {p p' : Processor}
    (hset : n'.processors = n.processors.set pe p') (hp : n'.processors[i]? = some p) :
    i = pe ∧ p = p' ∨ n.processors[i]? = some p := by
  rw [hset] at hp
  by_cases hi : i = pe
  · subst hi
    have hlt := (List.getElem?_eq_some_iff.1 hp).1
    rw [List.length_set] at hlt
    rw [List.getElem?_set_self hlt] at hp
    exact .inl ⟨rfl, (Option.some.inj hp).symm⟩
  · rw [List.getElem?_set_ne (Ne.symm hi)] at hp
    exact .inr hp

namespace Network.Sound
variable {t : Scenario} {d : Delivery} {l : List Packet} {n : Network} {pe q μ : Nat}
  {p p' : Processor} {k : MessageKind}

theorem pe_lt (hs : n.Sound t d l) (hp : n.processors[pe]? = some p) : pe < t.npes := by
  rw [← hs.length_eq]
  exact (List.getElem?_eq_some_iff.1 hp).1

theorem exists_processor (hs : n.Sound t d l) (hpe : pe < t.npes) :
    ∃ p, n.processors[pe]? = some p :=
  ⟨_, List.getElem?_eq_getElem (hs.length_eq ▸ hpe)⟩

theorem reaches (hs : n.Sound t d l) (hp : n.processors[pe]? = some p) :
    ∃ μ, p.Reaches t (d = .exact) pe μ := (hs.stands pe p hp).reaches (hs.pe_lt hp)

theorem take (hs : n.Sound t d l) (hp : n.processors[pe]? = some p) {x : Turn}
    (l' rest : List Packet) (hstands : (p.after x).Stands t (d = .exact) pe)
    (hheard : ∀ q j f, ⟨q, j, f⟩ ∈ l' ↔ ⟨q, j, f⟩ ∈ l ∨ j = pe ∧ (q, f) ∈ frames x.events)
    (hsub : ∀ y ∈ l' ++ rest, y ∈ l ++ n.inFlight)
    (hperm : d = .exact → (l' ++ rest).Perm (l ++ n.inFlight)) :
    Network.Sound ⟨n.processors.set pe (p.after x), rest ++ x.packets pe⟩ t d l' := by
  have hpe : pe < n.processors.length := (List.getElem?_eq_some_iff.1 hp).1
  have hself : (n.processors.set pe (p.after x))[pe]? = some (p.after x) :=
    List.getElem?_set_self hpe
  have hother : ∀ i, i ≠ pe → (n.processors.set pe (p.after x))[i]? = n.processors[i]? :=
    fun i hi => List.getElem?_set_ne (Ne.symm hi)
  have hposts : posts pe (p.after x).history = posts pe p.history ++ x.packets pe := by
    rw [Turn.packets_eq]
    exact posts_append ..
  refine {
    length_eq := by rw [List.length_set]; exact hs.length_eq
    stands := fun i p' hp' => ?_
    heard_iff := fun i p' hp' q f => ?_
    posted := fun y hy => ?_
    balanced := fun hd i p' hp' => ?_ }
  · by_cases hi : i = pe
    · subst hi
      obtain rfl := Option.some.inj (hself.symm.trans hp')
      exact hstands
    · exact hs.stands i p' (hother i hi ▸ hp')
  · rw [hheard]
    by_cases hi : i = pe
    · subst hi
      obtain rfl := Option.some.inj (hself.symm.trans hp')
      show (q, f) ∈ frames (p.history ++ x.events) ↔ _
      rw [frames_append, List.mem_append, hs.heard_iff i p hp]
      simp
    · rw [hs.heard_iff i p' (hother i hi ▸ hp')]
      simp [hi]
  · rw [← List.append_assoc, List.mem_append] at hy
    rcases hy with hy | hy
    · obtain ⟨p', hp', hin⟩ := hs.posted y (hsub y hy)
      by_cases hi : y.source = pe
      · rw [hi] at hp' hin ⊢
        obtain rfl := Option.some.inj (hp.symm.trans hp')
        exact ⟨_, hself, hposts ▸ List.mem_append_left _ hin⟩
      · exact ⟨p', (hother _ hi).trans hp', hin⟩
    · rw [Turn.source_of_mem_packets hy]
      exact ⟨_, hself, hposts ▸ List.mem_append_right _ hy⟩
  · rw [← List.append_assoc, List.filter_append]
    -- Only the packets of `pe` become more, by those of this turn.
    have hold := ((hperm hd).filter fun x => x.source = i)
    by_cases hi : i = pe
    · subst hi
      obtain rfl := Option.some.inj (hself.symm.trans hp')
      have hall : (x.packets i).filter (fun y => y.source = i) = x.packets i := by
        rw [List.filter_eq_self]
        intro y hy
        exact decide_eq_true (Turn.source_of_mem_packets hy)
      rw [hall, hposts]
      exact (hold.trans (hs.balanced hd i p hp)).append_right _
    · have hnone : (x.packets pe).filter (fun y => y.source = i) = [] := by
        rw [List.filter_eq_nil_iff]
        intro y hy
        rw [Turn.source_of_mem_packets hy, decide_eq_true_eq]
        exact Ne.symm hi
      rw [hnone, List.append_nil]
      exact hold.trans (hs.balanced hd i p' (hother i hi ▸ hp'))

theorem posting (hs : n.Sound t d l) {source target : Nat} {f : Frame}
    (hx : ⟨source, target, f⟩ ∈ l ++ n.inFlight) : ∃ (p : Processor) (m : Message),
      n.processors[source]? = some p ∧ (target, m) ∈ sent p.history ∧ m.encode = f := by
  obtain ⟨p, hp, hpost⟩ := hs.posted _ hx
  obtain ⟨⟨j, m⟩, hm, heq⟩ := List.mem_map.1 hpost
  obtain ⟨-, rfl, rfl⟩ := Packet.mk.inj heq
  exact ⟨p, m, hp, hm, rfl⟩

theorem due_of_heard {once : Prop} (hs : n.Sound t d l) (hp : n.processors[pe]? = some p)
    (hp' : n.processors[q]? = some p') (hr' : p'.Reaches t once q μ)
    (hh : Heard p.history k q) : t.Due q μ p'.history pe (t.message k q pe) := by
  obtain ⟨_, hr⟩ := hs.reaches hp
  obtain ⟨hpass, -, hin⟩ := hr.received k q hh
  have hdelivered := (hs.heard_iff pe p hp q _).1 hin
  obtain ⟨p'', m, hp'', hm, hframe⟩ := hs.posting (List.mem_append_left _ hdelivered)
  obtain rfl := Option.some.inj (hp'.symm.trans hp'')
  have hkind : m.kind = k := (Message.kind_eq_of_encode_eq hframe).trans (t.kind_message ..)
  rcases hr'.due pe m hm with hdue | ⟨e, -, -, rfl, -⟩
  · have hgenuine := hdue.genuine
    rw [hkind] at hgenuine
    rw [← hgenuine]
    exact hdue
  · rw [← hkind] at hpass
    exact absurd hpass.2.2 id

theorem said {once : Prop} (hs : n.Sound t d l) (hp : n.processors[pe]? = some p)
    (hp' : n.processors[q]? = some p') (hr' : p'.Reaches t once q μ)
    (hh : Heard p.history k q) : k.saidFrom ≤ μ ∧
      ∀ k', k.answers? = some k' → Heard p'.history k' pe := by
  obtain ⟨-, -, -, hfrom, hasked⟩ := hs.due_of_heard hp hp' hr' hh
  rw [t.kind_message] at hfrom hasked
  exact ⟨hfrom, hasked⟩

theorem nodup_posts {once : Prop} (hr : p.Reaches t once pe μ) (ho : once) :
    (posts pe p.history).Nodup := by
  have hfits : ∀ y ∈ sent p.history, y.2.unfit? = none := by
    intro y hy
    rcases hr.due y.1 y.2 hy with hdue | ⟨_, _, _, _, hfits, _⟩
    · exact hdue.fits
    · exact hfits
  apply (hr.sent_once ho).map_on
  intro y hy z hz heq
  obtain ⟨-, htarget, hframe⟩ := Packet.mk.inj heq
  exact Prod.ext htarget (Message.encode_inj (hfits y hy) (hfits z hz) hframe)

theorem nodup (hs : n.Sound t .exact l) : (l ++ n.inFlight).Nodup := by
  rw [List.nodup_iff_count_le_one]
  intro x
  by_cases hx : x ∈ l ++ n.inFlight
  · obtain ⟨p, hp, -⟩ := hs.posted x hx
    obtain ⟨μ, hr⟩ := hs.reaches hp
    have hnodup := (hs.balanced rfl x.source p hp).nodup_iff.2 (nodup_posts hr rfl)
    have hcount := List.nodup_iff_count_le_one.1 hnodup x
    rwa [List.count_filter (by simp)] at hcount
  · rw [List.count_eq_zero_of_not_mem hx]
    exact Nat.zero_le 1

theorem arrives (hs : n.Sound t d l) {source target : Nat} {f : Frame}
    (hx : ⟨source, target, f⟩ ∈ n.inFlight) {s : State} (hp : n.processors[target]? = some p)
    (hstatus : p.status = .waiting s) :
    t.Arrives (d = .exact) target s.mark p.history source f := by
  have hr := (hs.stands _ p hp).reaches_waiting hstatus
  obtain ⟨p', m, hp', hm, rfl⟩ := hs.posting (List.mem_append_right _ hx)
  obtain ⟨μ, hr'⟩ := hs.reaches hp'
  rcases hr'.due target m hm with ⟨hg, hpass, hfits, hfrom, hasked⟩ | ⟨e, -, -, rfl, hfits, -⟩
  · generalize m.kind = k at hg hpass hfrom hasked
    subst hg
    -- A receipt comes after the batch it is for, and the word that all is delivered comes after all
    -- receipts.
    refine .message hpass hfits (fun hd hheard => ?_) (fun hk => ?_) fun hk hbatch => ?_
    · subst hd
      have hl := (hs.heard_iff target p hp source _).1 hheard
      exact (List.nodup_append.1 hs.nodup).2.2 _ hl _ hx rfl
    · subst hk
      exact (hs.said hp' hp hr (hasked .batch rfl)).1
    · subst hk
      have hreceipt := hr'.level .receipt target ((Scenario.passes_answer rfl).2 hbatch) hfrom
      exact (hs.said hp' hp hr hreceipt).2 .batch rfl
  · rw [(hs.stands _ p' hp').seat_eq] at hfits ⊢
    exact .abort hfits

theorem fresh (t : Scenario) (d : Delivery) :
    (Network.fresh t.npes t.config t.strategy).Sound t d [] := by
  refine {
    length_eq := by simp [Network.fresh]
    stands := fun pe p hp => ?_
    heard_iff := fun pe p hp q f => ?_
    posted := fun x hx => by cases hx
    balanced := fun _ pe p hp => ?_ }
  · rw [Network.eq_fresh_of_getElem? hp]
    exact ⟨rfl, rfl⟩
  · rw [Network.eq_fresh_of_getElem? hp]
    exact iff_of_false List.not_mem_nil List.not_mem_nil
  · rw [Network.eq_fresh_of_getElem? hp]
    exact .refl _

theorem start (hs : n.Sound t d l) (hp : n.processors[pe]? = some p) (hfresh : p.status = .fresh) :
    (n.start t.reader pe).Sound t d l := by
  have hstart := hs.take hp l n.inFlight
    ((hs.stands pe p hp).start (hs.pe_lt hp) hfresh)
    (fun q j f => by rw [Processor.frames_start]; simp) (fun _ => id) fun _ => .refl _
  rwa [Network.start, Network.take, hp]

theorem deliver (hs : n.Sound t d l) {x : Packet} (hx : x ∈ n.inFlight)
    (hw : n.isWaiting x.target = true) :
    (Network.deliver ⟨n.processors, d.remaining n.inFlight x⟩ x.target x.source x.frame).Sound t d
      (l ++ [x]) := by
  obtain ⟨source, target, f⟩ := x
  obtain ⟨p, s, hp, hstatus⟩ := Network.isWaiting_iff.1 hw
  have hstands := (hs.stands target p hp).receive hstatus (hs.arrives hx hp hstatus)
  have hdeliver := hs.take hp (l ++ [⟨source, target, f⟩])
    (d.remaining n.inFlight ⟨source, target, f⟩) hstands (fun q j g => ?_) (fun y hy => ?_)
    fun hd => ?_
  · rwa [Network.deliver, Network.take, hp]
  · rw [Processor.frames_receive hstatus, List.mem_append, List.mem_singleton, List.mem_singleton,
      Packet.mk.injEq, Prod.mk.injEq]
    exact or_congr Iff.rfl and_left_comm
  · rw [List.append_assoc, List.mem_append, List.mem_append, List.mem_singleton] at hy
    rcases hy with hy | rfl | hy
    · exact List.mem_append_left _ hy
    · exact List.mem_append_right _ hx
    · apply List.mem_append_right _
      cases d with
      | exact => exact List.mem_of_mem_erase hy
      | loose => exact hy
  · subst hd
    rw [List.append_assoc]
    exact (List.perm_cons_erase hx).symm.append_left l

end Network.Sound

theorem Run.sound {t : Scenario} {d : Delivery} {l : List Packet} {n : Network}
    (hr : Run t d l n) : n.Sound t d l := by
  induction hr with
  | fresh => exact .fresh t d
  | start run here fresh ih => exact ih.start here fresh
  | deliver run under waits ih => exact ih.deliver under waits

/-- What holds of a fresh processor and of one that is started or hears a frame of some peer holds
of every processor at any time. -/
theorem Run.each {t : Scenario} {d : Delivery} {P : Nat → Processor → Prop}
    (hfresh : ∀ pe, P pe (.fresh (t.seat pe)))
    (hstart : ∀ pe p, P pe p → p.status = .fresh → P pe (p.after (p.start .sound t.reader)))
    (hreceive : ∀ pe p, P pe p → p.isWaiting = true → ∀ sender < t.npes, ∀ frame,
      P pe (p.after (p.receive .sound sender frame)))
    {l : List Packet} {n : Network} (hr : Run t d l n) {pe : Nat} {p : Processor}
    (hp : n.processors[pe]? = some p) : P pe p := by
  induction hr generalizing pe p with
  | fresh => exact Network.eq_fresh_of_getElem? hp ▸ hfresh pe
  | start run here fresh ih =>
    rcases Network.of_processors_set (Network.processors_take here _) hp with ⟨rfl, rfl⟩ | hp
    · exact hstart _ _ (ih here) fresh
    · exact ih hp
  | @deliver l n x run under waits ih =>
    obtain ⟨r, s, hr, hs⟩ := Network.isWaiting_iff.1 waits
    have hset := Network.processors_take (n := ⟨n.processors, d.remaining n.inFlight x⟩) hr
      fun r => r.receive .sound x.source x.frame
    rcases Network.of_processors_set (n := n) hset hp with ⟨rfl, rfl⟩ | hp
    · obtain ⟨r', hr', -⟩ := run.sound.posted x (List.mem_append_right _ under)
      exact hreceive _ _ (ih hr) (Processor.isWaiting_iff.2 ⟨s, hs⟩) _ (run.sound.pe_lt hr') _
    · exact ih hp

/-- Delivers packets by their places among those under way, as long as their targets wait. -/
def Network.follow (n : Network) (d : Delivery) : List Nat → Network
  | [] => n
  | i :: schedule =>
    match n.inFlight[i]? with
    | none => n
    | some x =>
      if n.isWaiting x.target then
        (Network.deliver ⟨n.processors, d.remaining n.inFlight x⟩
          x.target x.source x.frame).follow d schedule
      else n

theorem Run.follow {t : Scenario} {d : Delivery} {l : List Packet} {n : Network} (hr : Run t d l n)
    (schedule : List Nat) : ∃ l', Run t d l' (n.follow d schedule) := by
  fun_induction Network.follow n d schedule generalizing l with
  | case1 n => exact ⟨l, hr⟩
  | case2 n i schedule hx => exact ⟨l, hr⟩
  | case3 n i schedule x hx hw ih => exact ih (hr.deliver (List.mem_of_getElem? hx) hw)
  | case4 n i schedule x hx hw => exact ⟨l, hr⟩

theorem Run.startAll (t : Scenario) (d : Delivery) :
    Run t d [] ((Network.fresh t.npes t.config t.strategy).startAll t.reader) := by
  have hstarted : ∀ k ≤ t.npes,
      let n := (List.range k).foldl (fun n pe => Network.start n t.reader pe)
        (Network.fresh t.npes t.config t.strategy)
      Run t d [] n ∧ ∀ pe < t.npes, k ≤ pe → ∃ p : Processor, n.processors[pe]? = some p ∧
        p.status = .fresh := by
    intro k
    induction k with
    | zero =>
      refine fun _ => ⟨.fresh, fun pe hpe _ => ⟨.fresh (t.seat pe), ?_, rfl⟩⟩
      show ((List.range t.npes).map _)[pe]? = _
      rw [List.getElem?_map, List.getElem?_range hpe]
      rfl
    | succ k ih =>
      intro hk
      obtain ⟨hr, hfresh⟩ := ih (Nat.le_of_succ_le hk)
      obtain ⟨p, hp, hstatus⟩ := hfresh k hk (Nat.le_refl k)
      rw [List.range_succ, List.foldl_append]
      refine ⟨hr.start hp hstatus, fun pe hpe hle => ?_⟩
      obtain ⟨p', hp', hstatus'⟩ := hfresh pe hpe (Nat.le_of_succ_le hle)
      refine ⟨p', ?_, hstatus'⟩
      show (Network.take _ k _).processors[pe]? = _
      rw [Network.take, hp]
      exact (List.getElem?_set_ne (Nat.ne_of_lt hle)).trans hp'
  have hlength : (Network.fresh t.npes t.config t.strategy).processors.length = t.npes := by
    simp [Network.fresh]
  rw [Network.startAll, hlength]
  exact (hstarted t.npes (Nat.le_refl _)).1

/-- All processors are started, and then the schedule is followed. -/
def Scenario.played (t : Scenario) (d : Delivery) (schedule : List Nat) : Network :=
  ((Network.fresh t.npes t.config t.strategy).startAll t.reader).follow d schedule

theorem Run.played (t : Scenario) (d : Delivery) (schedule : List Nat) :
    ∃ l, Run t d l (t.played d schedule) := (Run.startAll t d).follow schedule

def Processor.HasReturned (p : Processor) : Prop := ∃ r, p.status = .returned r

def Processor.Succeeds (p : Processor) : Prop := ∃ outcome, p.status = .returned (.ok outcome)

def Processor.Fails (p : Processor) : Prop := ∃ e, p.status = .returned (.error e)

instance (p : Processor) : Decidable p.HasReturned :=
  decidable_of_iff (p.result?.isSome = true) <| by
    simp [Option.isSome_iff_exists, Processor.result?_eq_some_iff, Processor.HasReturned]

instance (p : Processor) : Decidable p.Succeeds :=
  decidable_of_iff (p.result?.any Except.isOk = true) <| by
    rw [Option.any_eq_true]
    simp only [Processor.result?_eq_some_iff, Processor.Succeeds]
    constructor
    · rintro ⟨_ | outcome, hr, hok⟩
      · cases hok
      · exact ⟨outcome, hr⟩
    · rintro ⟨outcome, hr⟩
      exact ⟨_, hr, rfl⟩

instance (p : Processor) : Decidable p.Fails :=
  decidable_of_iff (p.HasReturned ∧ ¬ p.Succeeds) <| by
    constructor
    · rintro ⟨⟨e | outcome, hr⟩, hno⟩
      · exact ⟨e, hr⟩
      · exact absurd ⟨outcome, hr⟩ hno
    · rintro ⟨e, hr⟩
      refine ⟨⟨_, hr⟩, ?_⟩
      rintro ⟨outcome, hr'⟩
      rw [hr] at hr'
      cases hr'

/-- Two processors that read one element each, for a chare of the other; the elements share three
nodes. -/
def Scenario.twoElements : Scenario :=
  ⟨2, .recorded (some 2) [0, 1, 2, 3, 1, 2, 3, 4] none, .ofCount 2, some (.provided [1, 0])⟩

theorem Scenario.twoElements_succeeds :
    ∀ p ∈ (Scenario.twoElements.played .exact (.replicate 40 0)).processors, p.Succeeds := by
  decide +kernel

end MeshNumbering
