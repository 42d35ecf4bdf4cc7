import Mathlib.Data.List.Infix
import MeshNumbering.Exchange

/-! The links between processors over their whole course. Whoever sends, takes or leaves in whatever
order: a processor takes just the frames that have been sent to it, each once, under the names of
their senders and in the order in which these sent them. -/

namespace MeshNumbering

theorem takeFirst?_eq_map (p : Packet → Bool) (l : List Packet) :
    takeFirst? p l = (l.find? p).map fun a => (a, l.erase a) := by
  induction l with
  | nil => rfl
  | cons b l ih =>
    unfold takeFirst?
    by_cases hb : p b = true
    · rw [if_pos hb, List.find?_cons_of_pos hb, Option.map_some, List.erase_cons_head]
    · rw [if_neg hb, List.find?_cons_of_neg hb, ih, Option.map_map]
      apply Option.map_congr
      intro a ha
      have hne : b ≠ a := by
        rintro rfl
        exact hb (List.find?_some ha)
      rw [List.erase_cons_tail (by simpa using hne)]
      rfl

theorem takeFirst?_eq_none_iff {p : Packet → Bool} {l : List Packet} :
    takeFirst? p l = none ↔ l.filter p = [] := by
  rw [takeFirst?_eq_map, Option.map_eq_none_iff, List.find?_eq_none, List.filter_eq_nil_iff]

theorem takeFirst?_eq_some {p : Packet → Bool} {l rest : List Packet} {a : Packet}
    (h : takeFirst? p l = some (a, rest)) : p a = true ∧ l.filter p = a :: rest.filter p ∧
      ∀ q : Packet → Bool, q a = false → l.filter q = rest.filter q := by
  rw [takeFirst?_eq_map] at h
  obtain ⟨b, hfind, heq⟩ := Option.map_eq_some_iff.1 h
  obtain ⟨rfl, rfl⟩ := Prod.mk.inj heq
  obtain ⟨hb, before, after, rfl, hbefore⟩ := List.find?_eq_some_iff_append.1 hfind
  have hnone : ∀ c ∈ before, ¬ p c = true := fun c hc => by simpa using hbefore c hc
  have herase : (before ++ b :: after).erase b = before ++ after := by
    rw [List.erase_append_right _ fun hin => hnone b hin hb, List.erase_cons_head]
  refine ⟨hb, ?_, fun q hq => ?_⟩
  · rw [herase, List.filter_append, List.filter_append, List.filter_eq_nil_iff.2 hnone,
      List.filter_cons_of_pos hb]
    rfl
  · rw [herase, List.filter_append, List.filter_append,
      List.filter_cons_of_neg (Bool.eq_false_iff.1 hq)]

namespace Exchange

/-- Senders and frames of what waits for a processor, in order. -/
def waiting (x : Exchange) (pe : Nat) : List (Nat × Frame) :=
  (x.inFlight.filter fun p => p.target = pe).map fun p => (p.source, p.frame)

/-- What a processor does with its links: it sends a frame, looks for one, waits for one, or
leaves. -/
inductive Move where
  | send (pe target : Nat) (frame : Frame)
  | poll (pe : Nat)
  | await (pe : Nat)
  | leave (pe : Nat)

def Move.pe : Move → Nat
  | send pe .. => pe
  | poll pe => pe
  | await pe => pe
  | leave pe => pe

inductive Reply where
  | accepted
  | refused (fault : Fault)
  | packet (source : Nat) (frame : Frame)
  | nothing
  | gone

def answer (x : Exchange) (pe : Nat) : Reply × Exchange :=
  match x.take pe with
  | (some p, x') => (.packet p.source p.frame, x')
  | (none, x') => (.nothing, x')

def move (x : Exchange) : Move → Reply × Exchange
  | .send pe target frame =>
    match x.send pe target frame with
    | .ok x' => (.accepted, x')
    | .error e => (.refused (.link target e), x)
  | .poll pe => x.answer pe
  | .await pe => x.answer pe
  | .leave pe => (.gone, x.leave pe)

/-- Moves are made by processors that are there and have not left. Only who waits for a frame that
has arrived gets an answer. -/
def Allows (x : Exchange) (m : Move) : Prop :=
  m.pe < x.size ∧ ¬ m.pe ∈ x.left ∧ ∀ pe, m = .await pe → x.waiting pe ≠ []

/-- The exchange of `n` processors after some moves, with the answers to these. -/
inductive Course (n : Nat) : List (Move × Reply) → Exchange → Prop
  | start : Course n [] (.start n)
  | move {log : List (Move × Reply)} {x : Exchange} {m : Move} (course : Course n log x)
      (allowed : x.Allows m) : Course n (log ++ [(m, (x.move m).1)]) (x.move m).2

/-- Senders and frames of what has been sent to `pe` and accepted, in order. -/
def posted (log : List (Move × Reply)) (pe : Nat) : List (Nat × Frame) :=
  log.filterMap fun
    | (.send source target frame, .accepted) => if target = pe then some (source, frame) else none
    | _ => none

/-- What `pe` has taken and under which sender's name, in order. -/
def taken (log : List (Move × Reply)) (pe : Nat) : List (Nat × Frame) :=
  log.filterMap fun
    | (m, .packet source frame) => if m.pe = pe then some (source, frame) else none
    | _ => none

def framesFrom (source : Nat) (l : List (Nat × Frame)) : List Frame :=
  (l.filter fun e => e.1 = source).map Prod.snd

def HasLeft (log : List (Move × Reply)) (pe : Nat) : Prop := .leave pe ∈ log.map Prod.fst

/-- What waits for a processor that is still there is what it has not taken of what has been sent
to it. -/
structure Balances (x : Exchange) (n : Nat) (log : List (Move × Reply)) : Prop where
  size_eq : x.size = n
  left_iff : ∀ pe, pe ∈ x.left ↔ HasLeft log pe
  balanced : ∀ pe, ¬ HasLeft log pe → posted log pe = taken log pe ++ x.waiting pe
  taken_prefix : ∀ pe, taken log pe <+: posted log pe

section
variable {x x' : Exchange} {n pe q source target : Nat} {frame : Frame}

theorem send_eq_error_iff {e : LinkFault} : x.send source target frame = .error e ↔
    x.size ≤ target ∧ e = .noSuchPeer x.size ∨
      target < x.size ∧ target ∈ x.left ∧ e = .inboxClosed := by
  unfold send
  split
  · next h =>
    rw [Except.error.injEq]
    constructor
    · rintro rfl
      exact .inl ⟨h, rfl⟩
    · rintro (⟨-, rfl⟩ | ⟨hlt, -⟩)
      · rfl
      · exact absurd h (Nat.not_le_of_lt hlt)
  · next h =>
    split
    · next hleft =>
      rw [Except.error.injEq]
      constructor
      · rintro rfl
        exact .inr ⟨Nat.lt_of_not_le h, hleft, rfl⟩
      · rintro (⟨hle, -⟩ | ⟨-, -, rfl⟩)
        · exact absurd hle h
        · rfl
    · next hleft =>
      constructor
      · nofun
      · rintro (⟨hle, -⟩ | ⟨-, hin, -⟩)
        · exact absurd hle h
        · exact absurd hin hleft

theorem send_eq_ok (h : x.send source target frame = .ok x') :
    ¬ target ∈ x.left ∧ x'.size = x.size ∧ x'.left = x.left ∧
      ∀ pe, x'.waiting pe = x.waiting pe ++ if target = pe then [(source, frame)] else [] := by
  unfold send at h
  split at h
  · cases h
  · split at h
    · cases h
    · next hleft =>
      obtain rfl := Except.ok.inj h
      refine ⟨hleft, rfl, rfl, fun pe => ?_⟩
      unfold waiting
      rw [List.filter_append, List.map_append]
      by_cases ht : target = pe
      · simp [ht]
      · simp [ht]

theorem take_eq (x : Exchange) (pe : Nat) :
    (x.waiting pe = [] ∧ x.take pe = (none, x)) ∨
    ∃ p x', x.take pe = (some p, x') ∧ x'.size = x.size ∧ x'.left = x.left ∧
      x.waiting pe = (p.source, p.frame) :: x'.waiting pe ∧
      ∀ q, q ≠ pe → x'.waiting q = x.waiting q := by
  unfold take
  cases h : takeFirst? (fun p => p.target = pe) x.inFlight with
  | none =>
    refine .inl ⟨?_, rfl⟩
    unfold waiting
    rw [takeFirst?_eq_none_iff.1 h]
    rfl
  | some r =>
    obtain ⟨p, rest⟩ := r
    obtain ⟨htarget, hwanted, hothers⟩ := takeFirst?_eq_some h
    refine .inr ⟨p, { x with inFlight := rest }, rfl, rfl, rfl, ?_, fun q hq => ?_⟩
    · unfold waiting
      rw [hwanted]
      rfl
    · have hother : decide (p.target = q) = false := by
        rw [decide_eq_true_eq] at htarget
        rw [decide_eq_false_iff_not, htarget]
        exact hq.symm
      unfold waiting
      rw [hothers _ hother]

theorem answer_none (h : x.take pe = (none, x')) : x.answer pe = (.nothing, x') := by
  unfold answer
  rw [h]

theorem answer_some {p : Packet} (h : x.take pe = (some p, x')) :
    x.answer pe = (.packet p.source p.frame, x') := by
  unfold answer
  rw [h]

theorem move_send_ok (h : x.send pe target frame = .ok x') :
    x.move (.send pe target frame) = (.accepted, x') := by
  unfold move
  dsimp only
  rw [h]

theorem move_send_error {e : LinkFault} (h : x.send pe target frame = .error e) :
    x.move (.send pe target frame) = (.refused (.link target e), x) := by
  unfold move
  dsimp only
  rw [h]

theorem waiting_leave (h : q ≠ pe) : (x.leave pe).waiting q = x.waiting q := by
  unfold waiting leave
  dsimp only
  rw [List.filter_filter]
  apply congrArg
  apply List.filter_congr
  intro p _
  by_cases hp : p.target = q
  · simp [hp, h]
  · simp [hp]

end

section
variable {x x' : Exchange} {n : Nat} {log : List (Move × Reply)} {m : Move} {r : Reply}

theorem posted_concat (pe : Nat) :
    posted (log ++ [(m, r)]) pe = posted log pe ++ posted [(m, r)] pe := List.filterMap_append

theorem taken_concat (pe : Nat) :
    taken (log ++ [(m, r)]) pe = taken log pe ++ taken [(m, r)] pe := List.filterMap_append

theorem hasLeft_concat {pe : Nat} :
    HasLeft (log ++ [(m, r)]) pe ↔ HasLeft log pe ∨ m = .leave pe := by
  unfold HasLeft
  rw [List.map_append, List.mem_append, List.map_singleton, List.mem_singleton, eq_comm (a := m)]

theorem Balances.concat (h : x.Balances n log) (hsize : x'.size = x.size)
    (hleft : ∀ pe, pe ∈ x'.left ↔ pe ∈ x.left ∨ m = .leave pe)
    (hflow : ∀ pe, ¬ pe ∈ x'.left →
      x.waiting pe ++ posted [(m, r)] pe = taken [(m, r)] pe ++ x'.waiting pe)
    (hgone : ∀ pe, pe ∈ x'.left → taken [(m, r)] pe = []) :
    x'.Balances n (log ++ [(m, r)]) := by
  have hleft' : ∀ pe, pe ∈ x'.left ↔ HasLeft (log ++ [(m, r)]) pe := by
    intro pe
    rw [hleft, hasLeft_concat, h.left_iff]
  have hbalanced : ∀ pe, ¬ pe ∈ x'.left →
      posted (log ++ [(m, r)]) pe = taken (log ++ [(m, r)]) pe ++ x'.waiting pe := by
    intro pe hpe
    have hbefore : ¬ HasLeft log pe := by
      rw [← h.left_iff]
      exact fun hin => hpe ((hleft pe).2 (.inl hin))
    rw [posted_concat, taken_concat, h.balanced pe hbefore, List.append_assoc, hflow pe hpe,
      List.append_assoc]
  refine
    { size_eq := hsize.trans h.size_eq
      left_iff := hleft'
      balanced := fun pe hpe => hbalanced pe ((hleft' pe).not.2 hpe)
      taken_prefix := fun pe => ?_ }
  by_cases hpe : pe ∈ x'.left
  · rw [taken_concat, posted_concat, hgone pe hpe, List.append_nil]
    exact (h.taken_prefix pe).trans (List.prefix_append ..)
  · rw [hbalanced pe hpe]
    exact List.prefix_append ..

theorem posted_send (source target pe : Nat) (frame : Frame) :
    posted [(.send source target frame, .accepted)] pe =
      if target = pe then [(source, frame)] else [] := by
  unfold posted
  by_cases h : target = pe
  · simp [h]
  · simp [h]

theorem posted_of_ne (h : r ≠ .accepted) (pe : Nat) : posted [(m, r)] pe = [] := by
  cases m with
  | send =>
    cases r with
    | accepted => exact absurd rfl h
    | refused | packet | nothing | gone => rfl
  | poll | await | leave => rfl

theorem taken_packet (m : Move) (source : Nat) (frame : Frame) (pe : Nat) :
    taken [(m, .packet source frame)] pe = if m.pe = pe then [(source, frame)] else [] := by
  unfold taken
  by_cases h : m.pe = pe
  · simp [h]
  · simp [h]

theorem taken_of_ne (h : ∀ source frame, r ≠ .packet source frame) (pe : Nat) :
    taken [(m, r)] pe = [] := by
  cases r with
  | packet source frame => exact absurd rfl (h source frame)
  | accepted | refused | nothing | gone => rfl

theorem Balances.unchanged (h : x.Balances n log) (hm : ∀ q, m ≠ .leave q) (hr : r ≠ .accepted)
    (hr' : ∀ source frame, r ≠ .packet source frame) : x.Balances n (log ++ [(m, r)]) := by
  refine h.concat rfl (fun q => (or_iff_left (hm q)).symm) (fun q _ => ?_)
    fun q _ => taken_of_ne hr' q
  rw [posted_of_ne hr, taken_of_ne hr']
  exact List.append_nil _

theorem Balances.packet {p : Packet} (h : x.Balances n log) (hpe : ¬ m.pe ∈ x.left)
    (hm : ∀ q, m ≠ .leave q) (hsize : x'.size = x.size) (hleft : x'.left = x.left)
    (hfirst : x.waiting m.pe = (p.source, p.frame) :: x'.waiting m.pe)
    (hothers : ∀ q, q ≠ m.pe → x'.waiting q = x.waiting q) :
    x'.Balances n (log ++ [(m, .packet p.source p.frame)]) := by
  have hposted : ∀ q, posted [(m, .packet p.source p.frame)] q = [] := posted_of_ne nofun
  refine h.concat hsize (fun q => ?_) (fun q _ => ?_) (fun q hq => ?_)
  · rw [hleft, or_iff_left (hm q)]
  · rw [hposted, taken_packet, List.append_nil]
    by_cases hq : m.pe = q
    · rw [if_pos hq, ← hq, hfirst]
      rfl
    · rw [if_neg hq, hothers q (Ne.symm hq)]
      rfl
  · rw [taken_packet, if_neg]
    rintro rfl
    exact hpe (hleft ▸ hq)

theorem Balances.answer {pe : Nat} (h : x.Balances n log) (hpe : ¬ pe ∈ x.left)
    (hm : m.pe = pe) (hstays : ∀ q, m ≠ .leave q) :
    (x.answer pe).2.Balances n (log ++ [(m, (x.answer pe).1)]) := by
  subst hm
  rcases x.take_eq m.pe with ⟨-, htake⟩ | ⟨p, x', htake, hsize, hleft, hfirst, hothers⟩
  · rw [answer_none htake]
    exact h.unchanged hstays nofun nofun
  · rw [answer_some htake]
    exact h.packet hpe hstays hsize hleft hfirst hothers

theorem Balances.send {pe target : Nat} {frame : Frame} (h : x.Balances n log) :
    (x.move (.send pe target frame)).2.Balances n
      (log ++ [(.send pe target frame, (x.move (.send pe target frame)).1)]) := by
  have hstays : ∀ q, Move.send pe target frame ≠ .leave q := nofun
  cases hsend : x.send pe target frame with
  | error e =>
    rw [move_send_error hsend]
    exact h.unchanged hstays nofun nofun
  | ok x' =>
    obtain ⟨-, hsize, hleft, hwaiting⟩ := send_eq_ok hsend
    rw [move_send_ok hsend]
    refine h.concat hsize (fun q => ?_) (fun q _ => ?_) (fun q _ => rfl)
    · rw [hleft, or_iff_left (hstays q)]
    · rw [hwaiting, posted_send]
      rfl

theorem Balances.leave {pe : Nat} (h : x.Balances n log) :
    (x.leave pe).Balances n (log ++ [(.leave pe, .gone)]) := by
  refine h.concat rfl (fun q => ?_) (fun q hq => ?_) (fun q _ => rfl)
  · rw [Move.leave.injEq, or_comm, eq_comm]
    exact NatSet.mem_insert
  · have hne : q ≠ pe := by
      rintro rfl
      exact hq (NatSet.mem_insert.2 (.inl rfl))
    rw [waiting_leave hne]
    exact List.append_nil _

theorem Balances.move (h : x.Balances n log) (ha : x.Allows m) :
    (x.move m).2.Balances n (log ++ [(m, (x.move m).1)]) := by
  obtain ⟨-, hthere, -⟩ := ha
  cases m with
  | send pe target frame => exact h.send
  | poll pe => exact h.answer hthere rfl nofun
  | await pe => exact h.answer hthere rfl nofun
  | leave pe => exact h.leave

theorem Course.balances (h : Course n log x) : x.Balances n log := by
  induction h with
  | start =>
    exact ⟨rfl, fun pe => iff_of_false NatSet.not_mem_empty List.not_mem_nil, fun _ _ => rfl,
      fun _ => List.nil_prefix⟩
  | move course allowed ih => exact ih.move allowed

theorem Course.size_eq (h : Course n log x) : x.size = n := h.balances.size_eq

theorem move_send_eq_refused_iff {pe target : Nat} {frame : Frame} {fault : Fault} :
    (x.move (.send pe target frame)).1 = .refused fault ↔
      ∃ e, x.send pe target frame = .error e ∧ fault = .link target e := by
  cases hsend : x.send pe target frame with
  | ok x' =>
    rw [move_send_ok hsend]
    exact ⟨nofun, nofun⟩
  | error e =>
    rw [move_send_error hsend]
    constructor
    · rintro ⟨⟩
      exact ⟨e, rfl, rfl⟩
    · rintro ⟨_, ⟨⟩, rfl⟩
      rfl

theorem answer_eq_nothing_iff {pe : Nat} : (x.answer pe).1 = .nothing ↔ x.waiting pe = [] := by
  rcases x.take_eq pe with ⟨hempty, htake⟩ | ⟨p, x', htake, -, -, hfirst, -⟩
  · rw [answer_none htake]
    exact iff_of_true rfl hempty
  · rw [answer_some htake, hfirst]
    exact iff_of_false nofun (List.cons_ne_nil _ _)

theorem exists_answer_eq_packet {pe : Nat} (h : x.waiting pe ≠ []) :
    ∃ source frame, (x.answer pe).1 = .packet source frame := by
  rcases x.take_eq pe with ⟨hempty, -⟩ | ⟨p, x', htake, -⟩
  · exact absurd hempty h
  · rw [answer_some htake]
    exact ⟨p.source, p.frame, rfl⟩

theorem framesFrom_prefix {source : Nat} {l l' : List (Nat × Frame)} (h : l <+: l') :
    framesFrom source l <+: framesFrom source l' := (h.filter _).map _

/-- The links lose nothing, keep the order of every sender and name it truly, to others and to
itself, whenever processors leave. Sending fails just for a processor that does not exist or has
left, and then nothing has happened. -/
theorem Course.delivers (h : Course n log x) :
    (∀ pe target frame fault, (x.move (.send pe target frame)).1 = .refused fault ↔
      n ≤ target ∧ fault = .link target (.noSuchPeer n) ∨
        target < n ∧ HasLeft log target ∧ fault = .link target .inboxClosed) ∧
    (∀ pe target frame, (x.move (.send pe target frame)).1 = .accepted ∨
      ∃ fault, x.move (.send pe target frame) = (.refused fault, x)) ∧
    (∀ pe source, framesFrom source (taken log pe) <+: framesFrom source (posted log pe)) ∧
    (∀ pe, ¬ HasLeft log pe →
      ((x.move (.poll pe)).1 = .nothing ↔ taken log pe = posted log pe)) ∧
    (∀ pe, x.Allows (.await pe) → ∃ source frame, (x.move (.await pe)).1 = .packet source frame) ∧
    (∀ pe, ¬ HasLeft log pe → posted log pe = taken log pe ++ x.waiting pe) ∧
    ∀ pe q, q ≠ pe → (x.move (.leave pe)).2.waiting q = x.waiting q := by
  refine ⟨fun pe target frame fault => ?_, fun pe target frame => ?_, fun pe source => ?_,
    fun pe hpe => ?_, fun pe hpe => ?_, h.balances.balanced, fun pe q hq => waiting_leave hq⟩
  · rw [move_send_eq_refused_iff]
    constructor
    · rintro ⟨e, hsend, rfl⟩
      rw [send_eq_error_iff, h.size_eq, h.balances.left_iff] at hsend
      rcases hsend with ⟨hn, rfl⟩ | ⟨hn, hleft, rfl⟩
      · exact .inl ⟨hn, rfl⟩
      · exact .inr ⟨hn, hleft, rfl⟩
    · intro hrefused
      simp only [send_eq_error_iff, h.size_eq, h.balances.left_iff]
      rcases hrefused with ⟨hn, rfl⟩ | ⟨hn, hleft, rfl⟩
      · exact ⟨_, .inl ⟨hn, rfl⟩, rfl⟩
      · exact ⟨_, .inr ⟨hn, hleft, rfl⟩, rfl⟩
  · cases hsend : x.send pe target frame with
    | ok x' => exact .inl (by rw [move_send_ok hsend])
    | error e => exact .inr ⟨_, move_send_error hsend⟩
  · exact framesFrom_prefix (h.balances.taken_prefix pe)
  · rw [h.balances.balanced pe hpe, List.self_eq_append_right]
    exact answer_eq_nothing_iff
  · exact exists_answer_eq_packet (hpe.2.2 pe rfl)

theorem early_leaver_delivers :
    let log : List (Move × Reply) :=
      [(.send 0 1 [7], .accepted), (.send 1 1 [8], .accepted), (.leave 0, .gone),
        (.send 1 0 [9], .refused (.link 0 .inboxClosed)), (.poll 1, .packet 0 [7])]
    let x : Exchange := ⟨2, .insert ∅ 0, [⟨1, 1, [8]⟩]⟩
    Course 2 log x ∧ (x.move (.send 1 0 [9])).1 = .refused (.link 0 .inboxClosed) ∧
      framesFrom 0 (taken log 1) <+: framesFrom 0 (posted log 1) ∧
      ((x.move (.poll 1)).1 = .nothing ↔ taken log 1 = posted log 1) := by
  intro log x
  have hcourse : Course 2 log x := by
    refine .move (m := .poll 1) (.move (m := .send 1 0 [9]) (.move (m := .leave 0)
      (.move (m := .send 1 1 [8]) (.move (m := .send 0 1 [7]) .start ?_) ?_) ?_) ?_) ?_
    all_goals exact ⟨by decide, by decide, nofun⟩
  obtain ⟨hrefused, -, hprefix, hpoll, -⟩ := hcourse.delivers
  exact ⟨hcourse, (hrefused ..).2 (.inr ⟨by decide, by simp [HasLeft, log], rfl⟩), hprefix 1 0,
    hpoll 1 (by simp [HasLeft, log])⟩

end

end Exchange
end MeshNumbering
