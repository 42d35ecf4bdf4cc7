import MeshNumbering.Proofs.Message.Length

/-! Which bytes can be read as a message. A form says which bytes stand for which value, without
saying how to read them; a reader accepts a form when it takes from the front just what is written
in it. All the readers of a body accept the form of their fields, so a frame is read exactly when it
carries a message. -/

namespace MeshNumbering

namespace Bytes
variable {α β : Type}

abbrev Form (α : Type) := α → List UInt8 → Prop

namespace Form

def number (width : Nat) : Form Nat := fun n l => n < 256 ^ width ∧ l = littleEndian width n

def word : Form Nat := number 8

def pair (f : Form α) (g : Form β) : Form (α × β) := fun p l =>
  ∃ front back, f p.1 front ∧ g p.2 back ∧ l = front ++ back

def each (f : Form α) : Form (List α)
  | [], l => l = []
  | a :: as, l => ∃ front back, f a front ∧ each f as back ∧ l = front ++ back

def sequence (f : Form α) : Form (List α) := fun as l => pair word (each f) (as.length, as) l

def map (f : Form β) : Form (NatMap β) := fun m l =>
  ∃ entries : List (Nat × β), m = entries.foldl (fun m e => m.insert e.1 e.2) ∅ ∧
    sequence (pair word f) entries l

def text : Form String := fun s l =>
  ∃ front, word s.utf8ByteSize front ∧ l = front ++ s.toByteArray.data.toList

def bits : Form UInt64 := fun b => word b.toNat

end Form

def Accepts (read : Read α) (f : Form α) : Prop :=
  ∀ l a rest, read l = .ok (a, rest) ↔ ∃ front, f a front ∧ l = front ++ rest

theorem split?_eq_some {n : Nat} {l front rest : List UInt8} (h : split? n l = some (front, rest)) :
    front.length = n ∧ l = front ++ rest := by
  induction n generalizing l front with
  | zero =>
    obtain ⟨rfl, rfl⟩ := Prod.mk.inj (Option.some.inj h)
    exact ⟨rfl, rfl⟩
  | succ n ih =>
    cases l with
    | nil => cases h
    | cons b l =>
      obtain ⟨⟨front', rest'⟩, hsplit, heq⟩ := Option.map_eq_some_iff.1 h
      obtain ⟨rfl, rfl⟩ := Prod.mk.inj heq
      obtain ⟨rfl, rfl⟩ := ih hsplit
      exact ⟨rfl, rfl⟩

theorem littleEndian_ofLittleEndian (l : List UInt8) :
    littleEndian l.length (ofLittleEndian l) = l := by
  induction l with
  | nil => rfl
  | cons b l ih =>
    have hb : b.toNat < 256 := b.toNat_lt
    have hdiv : (b.toNat + 256 * ofLittleEndian l) / 256 = ofLittleEndian l := by omega
    have hlow : UInt8.ofNat (b.toNat + 256 * ofLittleEndian l) = b := by
      rw [← UInt8.toNat_inj, UInt8.toNat_ofNat']
      omega
    rw [List.length_cons, littleEndian, ofLittleEndian, hdiv, hlow, ih]

theorem ofLittleEndian_lt (l : List UInt8) : ofLittleEndian l < 256 ^ l.length := by
  induction l with
  | nil => exact Nat.one_pos
  | cons b l ih =>
    have hb : b.toNat < 256 := b.toNat_lt
    rw [ofLittleEndian, List.length_cons, Nat.pow_succ]
    omega

theorem accepts_number (width : Nat) : Accepts (readNumber width) (.number width) := by
  intro l n rest
  constructor
  · intro h
    rw [readNumber] at h
    split at h
    · next front rest' hsplit =>
      obtain ⟨rfl, rfl⟩ := split?_eq_some hsplit
      obtain ⟨rfl, rfl⟩ := Prod.mk.inj (Except.ok.inj h)
      exact ⟨front, ⟨ofLittleEndian_lt front, (littleEndian_ofLittleEndian front).symm⟩, rfl⟩
    · cases h
  · rintro ⟨_, ⟨hn, rfl⟩, rfl⟩
    exact readNumber_littleEndian hn rest

theorem accepts_word : Accepts readWord .word := accepts_number 8

theorem Accepts.bind {read : Read α} {f : Form α} (hf : Accepts read f) {γ : Type}
    {next : α × List UInt8 → Except FrameFault (γ × List UInt8)} {l rest : List UInt8} {c : γ} :
    read l >>= next = .ok (c, rest) ↔
      ∃ a front back, f a front ∧ next (a, back) = .ok (c, rest) ∧ l = front ++ back := by
  rw [bind_eq_ok_iff]
  constructor
  · rintro ⟨⟨a, back⟩, hread, hnext⟩
    obtain ⟨front, hfront, rfl⟩ := (hf _ _ _).1 hread
    exact ⟨a, front, back, hfront, hnext, rfl⟩
  · rintro ⟨a, front, back, hfront, hnext, rfl⟩
    exact ⟨(a, back), (hf _ _ _).2 ⟨front, hfront, rfl⟩, hnext⟩

theorem Accepts.both {read : Read α} {read' : Read β} {f : Form α} {g : Form β}
    (hf : Accepts read f) (hg : Accepts read' g) {γ : Type} (make : α → β → γ)
    {l rest : List UInt8} {c : γ} :
    (do let (a, l) ← read l; let (b, l) ← read' l; return (make a b, l)) = .ok (c, rest) ↔
      ∃ a b front, c = make a b ∧ Form.pair f g (a, b) front ∧ l = front ++ rest := by
  refine hf.bind.trans ?_
  constructor
  · rintro ⟨a, front, back, hfront, hnext, rfl⟩
    obtain ⟨b, front', back', hfront', hpure, rfl⟩ := hg.bind.1 hnext
    obtain ⟨rfl, rfl⟩ := Prod.mk.inj (Except.ok.inj hpure)
    exact ⟨a, b, front ++ front', rfl, ⟨front, front', hfront, hfront', rfl⟩,
      (List.append_assoc ..).symm⟩
  · rintro ⟨a, b, _, rfl, ⟨front, front', hfront, hfront', rfl⟩, rfl⟩
    refine ⟨a, front, front' ++ rest, hfront, ?_, List.append_assoc ..⟩
    exact hg.bind.2 ⟨b, front', rest, hfront', rfl, rfl⟩

theorem accepts_each {read : Read α} {f : Form α} (hf : Accepts read f) {n : Nat}
    {l rest : List UInt8} {as : List α} : readMany read n l = .ok (as, rest) ↔
      as.length = n ∧ ∃ front, Form.each f as front ∧ l = front ++ rest := by
  induction n generalizing l as with
  | zero =>
    constructor
    · intro h
      obtain ⟨rfl, rfl⟩ := Prod.mk.inj (Except.ok.inj h)
      exact ⟨rfl, [], rfl, rfl⟩
    · rintro ⟨hlength, front, hfront, rfl⟩
      obtain rfl := List.eq_nil_of_length_eq_zero hlength
      obtain rfl : front = [] := hfront
      rfl
  | succ n ih =>
    refine hf.bind.trans ?_
    constructor
    · rintro ⟨a, front, back, hfront, hnext, rfl⟩
      obtain ⟨⟨as', rest'⟩, hmany, hpure⟩ := bind_eq_ok_iff.1 hnext
      obtain ⟨rfl, rfl⟩ := Prod.mk.inj (Except.ok.inj hpure)
      obtain ⟨rfl, front', hfront', rfl⟩ := ih.1 hmany
      exact ⟨rfl, front ++ front', ⟨front, front', hfront, hfront', rfl⟩,
        (List.append_assoc ..).symm⟩
    · rintro ⟨hlength, _, heach, rfl⟩
      cases as with
      | nil => cases hlength
      | cons a as =>
        obtain ⟨front, front', hfront, hfront', rfl⟩ := heach
        have hmany := ih.2 ⟨Nat.succ.inj hlength, front', hfront', rfl⟩
        refine ⟨a, front, front' ++ rest, hfront, ?_, List.append_assoc ..⟩
        exact bind_eq_ok_iff.2 ⟨_, hmany, rfl⟩

theorem accepts_sequence {read : Read α} {f : Form α} (hf : Accepts read f) :
    Accepts (readSequence read) (.sequence f) := by
  intro l as rest
  refine accepts_word.bind.trans ?_
  constructor
  · rintro ⟨n, front, back, hfront, hmany, rfl⟩
    obtain ⟨rfl, front', hfront', rfl⟩ := (accepts_each hf).1 hmany
    exact ⟨front ++ front', ⟨front, front', hfront, hfront', rfl⟩, (List.append_assoc ..).symm⟩
  · rintro ⟨_, ⟨front, front', hfront, hfront', rfl⟩, rfl⟩
    refine ⟨as.length, front, front' ++ rest, hfront, ?_, List.append_assoc ..⟩
    exact (accepts_each hf).2 ⟨rfl, front', hfront', rfl⟩

/-! What is counted is there: a count is never larger than what follows it. -/

theorem Form.length_word {n : Nat} {l : List UInt8} (h : word n l) : l.length = 8 :=
  h.2 ▸ length_littleEndian 8 n

theorem Form.ofLittleEndian_word {n : Nat} {l : List UInt8} (h : word n l) :
    ofLittleEndian l = n := by
  rw [h.2, ofLittleEndian_littleEndian, Nat.mod_eq_of_lt h.1]

def Form.Counted (f : Form α) : Prop :=
  ∀ a l, f a l → ∃ n front back, word n front ∧ l = front ++ back ∧ n ≤ back.length

theorem Form.length_le_each {f : Form α} (hf : ∀ a l, f a l → 0 < l.length) {as : List α}
    {l : List UInt8} (h : each f as l) : as.length ≤ l.length := by
  induction as generalizing l with
  | nil => exact Nat.zero_le _
  | cons a as ih =>
    obtain ⟨front, back, hfront, hback, rfl⟩ := h
    have := hf a front hfront
    have := ih hback
    rw [List.length_cons, List.length_append]
    omega

theorem Form.counted_sequence {f : Form α} (hf : ∀ a l, f a l → 0 < l.length) :
    (sequence f).Counted := by
  rintro as _ ⟨front, back, hfront, hback, rfl⟩
  exact ⟨as.length, front, back, hfront, rfl, length_le_each hf hback⟩

theorem Form.counted_map (f : Form β) : (map f).Counted := by
  rintro m l ⟨entries, -, h⟩
  refine counted_sequence ?_ entries l h
  rintro e _ ⟨front, back, hfront, -, rfl⟩
  rw [List.length_append, length_word hfront]
  omega

theorem Form.counted_text : text.Counted := by
  rintro s _ ⟨front, hfront, rfl⟩
  exact ⟨s.utf8ByteSize, front, _, hfront, rfl, Nat.le_refl _⟩

end Bytes

namespace Message
open Bytes
variable {α β : Type}

theorem accepts_entry {read : Read β} {f : Form β} (hf : Accepts read f) :
    Accepts (readEntry read) (.pair .word f) := by
  intro l e rest
  refine (accepts_word.both hf Prod.mk).trans ?_
  constructor
  · rintro ⟨k, b, front, rfl, hfront, rfl⟩
    exact ⟨front, hfront, rfl⟩
  · rintro ⟨front, hfront, rfl⟩
    exact ⟨e.1, e.2, front, rfl, hfront, rfl⟩

theorem accepts_map {read : Read β} {f : Form β} (hf : Accepts read f) :
    Accepts (readMap read) (.map f) := by
  intro l m rest
  refine (accepts_sequence (accepts_entry hf)).bind.trans ?_
  constructor
  · rintro ⟨entries, front, back, hfront, hpure, rfl⟩
    obtain ⟨rfl, rfl⟩ := Prod.mk.inj (Except.ok.inj hpure)
    exact ⟨front, ⟨entries, NatMap.ofList_eq_foldl entries, hfront⟩, rfl⟩
  · rintro ⟨front, ⟨entries, rfl, hfront⟩, rfl⟩
    refine ⟨entries, front, rest, hfront, ?_, rfl⟩
    rw [← NatMap.ofList_eq_foldl]
    rfl

theorem accepts_text : Accepts readText .text := by
  intro l s rest
  refine accepts_word.bind.trans ?_
  constructor
  · rintro ⟨n, front, back, hfront, hnext, rfl⟩
    dsimp only at hnext
    split at hnext
    · cases hnext
    · next text rest' hsplit =>
      obtain ⟨rfl, rfl⟩ := split?_eq_some hsplit
      obtain ⟨chars, hdecode, hpure⟩ := bind_eq_ok_iff.1 hnext
      obtain ⟨rfl, rfl⟩ := Prod.mk.inj (Except.ok.inj hpure)
      have htext := Utf8.encode_toList (String.ofList chars)
      rw [String.toList_ofList, ← Utf8.decode_eq_ok_iff.1 hdecode] at htext
      refine ⟨front ++ text, ⟨front, ?_, by rw [htext]⟩, (List.append_assoc ..).symm⟩
      rw [htext] at hfront
      exact hfront
  · rintro ⟨_, ⟨front, hfront, rfl⟩, rfl⟩
    refine ⟨s.utf8ByteSize, front, s.toByteArray.data.toList ++ rest, hfront, ?_,
      List.append_assoc ..⟩
    have hsplit : split? s.utf8ByteSize (s.toByteArray.data.toList ++ rest) = _ :=
      split?_append rfl
    dsimp only
    rw [hsplit]
    refine bind_eq_ok_iff.2 ⟨s.toList, Utf8.decode_eq_ok_iff.2 (Utf8.encode_toList s).symm, ?_⟩
    rw [String.ofList_toList]
    rfl

theorem accepts_bits : Accepts readBits .bits := by
  intro l b rest
  refine accepts_word.bind.trans ?_
  constructor
  · rintro ⟨n, front, back, hfront, hpure, rfl⟩
    obtain ⟨rfl, rfl⟩ := Prod.mk.inj (Except.ok.inj hpure)
    refine ⟨front, ?_, rfl⟩
    rw [Form.bits, UInt64.toNat_ofNat', Nat.mod_eq_of_lt (show n < 2 ^ 64 from hfront.1)]
    exact hfront
  · rintro ⟨front, hfront, rfl⟩
    refine ⟨b.toNat, front, rest, hfront, ?_, rfl⟩
    dsimp only
    rw [UInt64.ofNat_toNat]
    rfl

def Fields : Message → List UInt8 → Prop
  | load pe n | offset pe n | lower pe n => Form.pair .word .word (pe, n)
  | receipt pe | delivered pe => Form.word pe
  | query pe nodes | request pe nodes => Form.pair .word (.sequence .word) (pe, nodes)
  | batch pe m | mask pe m => Form.pair .word (.map (.sequence .word)) (pe, m)
  | assigned pe ids => Form.pair .word (.map .word) (pe, ids)
  | cost pe bits | deviation pe bits => Form.pair .word .bits (pe, bits)
  | abort pe reason => Form.pair .word .text (pe, reason)

def Spelled (m : Message) (l : List UInt8) : Prop :=
  Form.pair (.number 4) Fields (m.kind.index, m) l

theorem fields_of_readFields {k : MessageKind} {l rest : List UInt8} {m : Message}
    (h : readFields k l = .ok (m, rest)) :
    m.kind = k ∧ ∃ front, m.Fields front ∧ l = front ++ rest := by
  have lists : Accepts (readMap (readSequence readWord)) _ :=
    accepts_map (accepts_sequence accepts_word)
  cases k
  case load | offset | lower =>
    obtain ⟨pe, n, front, rfl, hfront, rfl⟩ := (accepts_word.both accepts_word _).1 h
    exact ⟨rfl, front, hfront, rfl⟩
  case receipt | delivered =>
    obtain ⟨pe, front, back, hfront, hpure, rfl⟩ := accepts_word.bind.1 h
    obtain ⟨rfl, rfl⟩ := Prod.mk.inj (Except.ok.inj hpure)
    exact ⟨rfl, front, hfront, rfl⟩
  case query | request =>
    obtain ⟨pe, nodes, front, rfl, hfront, rfl⟩ :=
      (accepts_word.both (accepts_sequence accepts_word) _).1 h
    exact ⟨rfl, front, hfront, rfl⟩
  case batch | mask =>
    obtain ⟨pe, m, front, rfl, hfront, rfl⟩ := (accepts_word.both lists _).1 h
    exact ⟨rfl, front, hfront, rfl⟩
  case assigned =>
    obtain ⟨pe, ids, front, rfl, hfront, rfl⟩ :=
      (accepts_word.both (accepts_map accepts_word) _).1 h
    exact ⟨rfl, front, hfront, rfl⟩
  case cost | deviation =>
    obtain ⟨pe, bits, front, rfl, hfront, rfl⟩ := (accepts_word.both accepts_bits _).1 h
    exact ⟨rfl, front, hfront, rfl⟩
  case abort =>
    obtain ⟨pe, reason, front, rfl, hfront, rfl⟩ := (accepts_word.both accepts_text _).1 h
    exact ⟨rfl, front, hfront, rfl⟩

theorem readFields_of_fields {m : Message} {front : List UInt8} (h : m.Fields front)
    (rest : List UInt8) : readFields m.kind (front ++ rest) = .ok (m, rest) := by
  have lists : Accepts (readMap (readSequence readWord)) _ :=
    accepts_map (accepts_sequence accepts_word)
  cases m
  case load | offset | lower =>
    exact (accepts_word.both accepts_word _).2 ⟨_, _, front, rfl, h, rfl⟩
  case receipt | delivered => exact accepts_word.bind.2 ⟨_, front, rest, h, rfl, rfl⟩
  case query | request =>
    exact (accepts_word.both (accepts_sequence accepts_word) _).2 ⟨_, _, front, rfl, h, rfl⟩
  case batch | mask => exact (accepts_word.both lists _).2 ⟨_, _, front, rfl, h, rfl⟩
  case assigned =>
    exact (accepts_word.both (accepts_map accepts_word) _).2 ⟨_, _, front, rfl, h, rfl⟩
  case cost | deviation =>
    exact (accepts_word.both accepts_bits _).2 ⟨_, _, front, rfl, h, rfl⟩
  case abort => exact (accepts_word.both accepts_text _).2 ⟨_, _, front, rfl, h, rfl⟩

theorem accepts_body : Accepts readBody Spelled := by
  intro l m rest
  refine (accepts_number 4).bind.trans ?_
  constructor
  · rintro ⟨index, front, back, hfront, hnext, rfl⟩
    dsimp only at hnext
    split at hnext
    · cases hnext
    · next k hk =>
      obtain ⟨rfl, fields, hfields, rfl⟩ := fields_of_readFields hnext
      obtain rfl := MessageKind.index_of_ofIndex? hk
      exact ⟨front ++ fields, ⟨front, fields, hfront, hfields, rfl⟩, (List.append_assoc ..).symm⟩
  · rintro ⟨_, ⟨front, fields, hfront, hfields, rfl⟩, rfl⟩
    refine ⟨m.kind.index, front, fields ++ rest, hfront, ?_, List.append_assoc ..⟩
    dsimp only
    rw [MessageKind.ofIndex?_index]
    exact readFields_of_fields hfields rest

/-- The frame carries the message: it is not too long, its header tells the version, the kind and
the length of the body, and the body begins with the message. -/
structure Carried (limit : Option Nat) (f : Frame) (m : Message) : Prop where
  length_le : ∀ l ∈ limit, f.length ≤ l
  header_le : 8 ≤ f.length
  version_eq : ofLittleEndian (f.take 2) = version
  code_eq : ofLittleEndian ((f.drop 2).take 2) = m.kind.code
  length_eq : ofLittleEndian ((f.drop 4).take 4) = f.length - 8
  body_eq : ∃ front rest, m.Spelled front ∧ f.drop 8 = front ++ rest

theorem decode_some (limit : Nat) (f : Frame) : decode (some limit) f =
    if limit < f.length then .error (.overLimit f.length limit) else decode none f := by
  simp only [decode]
  split <;> rfl

theorem carried_of_decode {limit : Option Nat} {f : Frame} {m : Message}
    (h : decode limit f = .ok m) : m.Carried limit f := by
  have unlimited {f : Frame} (h : decode none f = .ok m) : m.Carried none f := by
    unfold decode at h
    dsimp only at h
    split at h
    · cases h
    next hheader =>
    split at h
    · cases h
    next hversion =>
    split at h
    · cases h
    next hlength =>
    obtain ⟨⟨m', rest⟩, hread, h⟩ := bind_eq_ok_iff.1 h
    dsimp only at h
    split at h
    · cases h
    next hcode =>
    obtain rfl := Except.ok.inj h
    obtain ⟨front, hfront, hbody⟩ := (accepts_body _ _ _).1 hread
    exact {
      length_le := by simp
      header_le := Nat.not_lt.1 hheader
      version_eq := not_not.1 hversion
      code_eq := (not_not.1 hcode).symm
      length_eq := (List.length_drop ▸ not_not.1 hlength).symm
      body_eq := ⟨front, rest, hfront, hbody⟩ }
  cases limit with
  | none => exact unlimited h
  | some limit =>
    rw [decode_some] at h
    split at h
    · cases h
    · next hlimit => exact { unlimited h with length_le := by simpa using hlimit }

theorem decode_of_carried {limit : Option Nat} {f : Frame} {m : Message}
    (h : m.Carried limit f) : decode limit f = .ok m := by
  obtain ⟨front, rest, hfront, hbody⟩ := h.body_eq
  have hread := (accepts_body _ _ _).2 ⟨front, hfront, hbody⟩
  have hlength : (f.drop 8).length = f.length - 8 := List.length_drop
  have hrest : decode none f = .ok m := by
    simp only [decode, bind, Except.bind, pure, Except.pure, h.version_eq, h.code_eq, h.length_eq,
      hread, hlength]
    rw [if_neg (Nat.not_lt.2 h.header_le), if_neg (by simp), if_neg (by simp), if_neg (by simp)]
  cases limit with
  | none => exact hrest
  | some limit => rw [decode_some, if_neg (Nat.not_lt.2 (h.length_le limit rfl)), hrest]

def counted : List MessageKind := [.batch, .query, .mask, .request, .assigned, .abort]

theorem Fields.exists_count {m : Message} {l : List UInt8} (hk : m.kind ∈ counted)
    (h : m.Fields l) : ∃ pe n front middle back, Form.word pe front ∧ Form.word n middle ∧
      l = front ++ (middle ++ back) ∧ n ≤ back.length := by
  have of_pair {α : Type} {f : Form α} (hf : f.Counted) {pe : Nat} {a : α}
      (h : Form.pair .word f (pe, a) l) : ∃ pe n front middle back, Form.word pe front ∧
        Form.word n middle ∧ l = front ++ (middle ++ back) ∧ n ≤ back.length := by
    obtain ⟨front, counted, hfront, hcounted, rfl⟩ := h
    obtain ⟨n, middle, back, hmiddle, rfl, hle⟩ := hf a counted hcounted
    exact ⟨pe, n, front, middle, back, hfront, hmiddle, rfl, hle⟩
  have words : (Form.sequence .word).Counted := Form.counted_sequence fun n l h => by
    rw [Form.length_word h]
    decide
  cases m
  case query | request => exact of_pair words h
  case batch | mask => exact of_pair (Form.counted_map _) h
  case assigned => exact of_pair (Form.counted_map _) h
  case abort => exact of_pair Form.counted_text h
  all_goals simp [kind, counted] at hk

theorem Carried.count_le {limit : Option Nat} {f : Frame} {m : Message} (hk : m.kind ∈ counted)
    (h : m.Carried limit f) : ofLittleEndian ((f.drop 20).take 8) ≤ f.length - 28 := by
  obtain ⟨_, rest, ⟨index, fields, hindex, hfields, rfl⟩, hbody⟩ := h.body_eq
  obtain ⟨pe, n, front, middle, back, hfront, hmiddle, rfl, hle⟩ := hfields.exists_count hk
  have hindex : index.length = 4 := hindex.2 ▸ length_littleEndian ..
  have hdrop : f.drop 20 = middle ++ (back ++ rest) := by
    rw [show 20 = 8 + (4 + 8) from rfl, ← List.drop_drop, ← List.drop_drop, hbody,
      List.append_assoc, List.drop_left' hindex, List.append_assoc,
      List.drop_left' (Form.length_word hfront), List.append_assoc]
  have hlength : f.length - 20 = 8 + (back.length + rest.length) := by
    rw [← List.length_drop, hdrop, List.length_append, Form.length_word hmiddle,
      List.length_append]
  rw [hdrop, List.take_left' (Form.length_word hmiddle), Form.ofLittleEndian_word hmiddle]
  omega

/-- A frame is read as a message exactly when it carries that message, and is refused when it
carries none; so it is when a count promises more than the frame has left. -/
theorem decode_exact (limit : Option Nat) (f : Frame) :
    (∀ m, decode limit f = .ok m ↔ m.Carried limit f) ∧
    ((∀ m : Message, ¬ m.Carried limit f) → ∃ cause, decode limit f = .error cause) ∧
    ∀ k ∈ counted, ofLittleEndian ((f.drop 2).take 2) = k.code →
      f.length - 28 < ofLittleEndian ((f.drop 20).take 8) →
      ∃ cause, decode limit f = .error cause := by
  have hiff : ∀ m, decode limit f = .ok m ↔ m.Carried limit f :=
    fun m => ⟨carried_of_decode, decode_of_carried⟩
  have hrefused (hnone : ∀ m : Message, ¬ m.Carried limit f) :
      ∃ cause, decode limit f = .error cause := by
    cases hdecode : decode limit f with
    | error cause => exact ⟨cause, rfl⟩
    | ok m => exact absurd ((hiff m).1 hdecode) (hnone m)
  refine ⟨hiff, hrefused, fun k hk hcode hcount => hrefused fun m hm => ?_⟩
  have hkind : m.kind = k := by
    have hindex : m.kind.index = k.index := Nat.succ.inj (hm.code_eq.symm.trans hcode)
    have hof := MessageKind.ofIndex?_index m.kind
    rw [hindex, MessageKind.ofIndex?_index] at hof
    exact (Option.some.inj hof).symm
  exact absurd (hm.count_le (hkind ▸ hk)) (Nat.not_le.2 hcount)

def repeatedKey : Frame :=
  [1, 0, 6, 0, 61, 0, 0, 0] ++ [5, 0, 0, 0] ++ word 1 ++ word 2 ++ word 5 ++ word 1 ++ word 7 ++
    word 5 ++ word 0 ++ [9]

def endlessQuery : Frame :=
  [1, 0, 5, 0, 20, 0, 0, 0] ++ [4, 0, 0, 0] ++ word 1 ++ word (2 ^ 64 - 1)

theorem decode_exact_repeatedKey :
    (mask 1 (.ofList [(5, [])])).Carried (some 69) repeatedKey ∧
    (∀ m : Message, ¬ m.Carried none endlessQuery) ∧
    ∃ cause, decode none endlessQuery = .error cause := by
  have hrefused := (decode_exact none endlessQuery).2.2 .query (by decide) (by decide) (by decide)
  have hnone : ∀ m : Message, ¬ m.Carried none endlessQuery := fun m hm => by
    obtain ⟨cause, hcause⟩ := hrefused
    have hread := ((decode_exact none endlessQuery).1 m).2 hm
    simp [hcause] at hread
  refine ⟨((decode_exact (some 69) repeatedKey).1 _).1 (by decide), hnone, ?_⟩
  exact (decode_exact none endlessQuery).2.1 hnone

theorem spelled_body {m : Message} (hn : ∀ n ∈ m.numbers, n < 2 ^ 64)
    (hl : m.body.length < 2 ^ 32) : m.Spelled m.body := by
  obtain ⟨front, hfront, hbody⟩ := (accepts_body _ _ _).1 (readBody_body hn hl)
  rwa [hbody, List.append_nil]

/-- A message whose body is not too long for the header has a frame, is read back from it as it
was, and shares the frame with no other message. A longer one has none. -/
theorem frame_faithful (m : Message) (hn : ∀ n ∈ m.numbers, n < 2 ^ 64) :
    (m.body.length < 2 ^ 32 → m.frame = .ok m.encode ∧ m.Spelled m.body ∧
      ∀ limit, (∀ l ∈ limit, m.encode.length ≤ l) → decode limit m.encode = .ok m) ∧
    (2 ^ 32 ≤ m.body.length → m.frame = .error (.bodyTooLong m.body.length)) ∧
    ∀ m' f, m.frame = .ok f → m'.frame = .ok f → m = m' := by
  have hfits {m : Message} {f : Frame} (h : m.frame = .ok f) : m.unfit? = none ∧ m.encode = f := by
    rw [frame] at h
    split at h
    · cases h
    · next hunfit => exact ⟨hunfit, Except.ok.inj h⟩
  refine ⟨fun hl => ?_, fun hl => ?_, fun m' f hm hm' => ?_⟩
  · have hunfit := unfit?_eq_none_iff.2 ⟨hn, hl⟩
    refine ⟨by rw [frame, hunfit], spelled_body hn hl, fun limit hlimit => ?_⟩
    rw [decode_encode hunfit, if_pos hlimit]
  · have hall : (m.numbers.all fun n => n < wordSize) = true :=
      List.all_eq_true.2 fun n hm => decide_eq_true (hn n hm)
    have hlong : ¬ m.body.length < halfWordSize := Nat.not_lt.2 hl
    rw [frame, unfit?, if_pos hall, if_neg hlong]
  · obtain ⟨hunfit, rfl⟩ := hfits hm
    obtain ⟨hunfit', heq⟩ := hfits hm'
    exact encode_inj hunfit hunfit' heq.symm

theorem frame_faithful_nan :
    (∀ limit, (∀ l ∈ limit, 28 ≤ l) →
      decode limit (deviation 3 0x7ff8000000000001).encode =
        .ok (deviation 3 0x7ff8000000000001)) ∧
    (∀ m', m'.frame = .ok (deviation 3 0x7ff8000000000001).encode →
      deviation 3 0x7ff8000000000001 = m') ∧
    ∃ cause, (query 0 (List.replicate (2 ^ 29) 0)).frame = .error cause := by
  have hnan := frame_faithful (deviation 3 0x7ff8000000000001) (by decide)
  have hlong := frame_faithful (query 0 (List.replicate (2 ^ 29) 0)) fun n hm => by
    rcases List.mem_cons.1 hm with rfl | hm
    · decide
    · rw [List.eq_of_mem_replicate hm]
      decide
  obtain ⟨hframe, -, hread⟩ := hnan.1 (by decide)
  refine ⟨hread, fun m' hm' => hnan.2.2 m' _ hframe hm', _, hlong.2.1 ?_⟩
  rw [length_body, fields, List.length_append, length_words, List.length_replicate]
  omega

end Message
end MeshNumbering
