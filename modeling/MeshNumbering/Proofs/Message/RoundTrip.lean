import MeshNumbering.Message.Frame
import MeshNumbering.Proofs.Message.Text
import MeshNumbering.Proofs.Ordered.Counting

/-! A message that fits into a frame is read back from it. The body is read field by field; each
reader takes just what its writer wrote and leaves the rest. -/

namespace MeshNumbering

namespace Bytes
variable {α : Type}

def Inverts (read : Read α) (write : α → List UInt8) (a : α) : Prop :=
  ∀ rest, read (write a ++ rest) = .ok (a, rest)

theorem ofLittleEndian_littleEndian (width n : Nat) :
    ofLittleEndian (littleEndian width n) = n % 256 ^ width := by
  induction width generalizing n with
  | zero => simp [littleEndian, ofLittleEndian, Nat.mod_one]
  | succ width ih =>
    have hb : (UInt8.ofNat n).toNat = n % 256 := UInt8.toNat_ofNat'
    have hp : 256 ^ (width + 1) = 256 * 256 ^ width := Nat.pow_succ'
    rw [littleEndian, ofLittleEndian, ih, hb, hp, Nat.mod_mul]

theorem readNumber_littleEndian {width n : Nat} (h : n < 256 ^ width) (rest : List UInt8) :
    readNumber width (littleEndian width n ++ rest) = .ok (n, rest) := by
  rw [readNumber, split?_append (length_littleEndian ..)]
  simp [ofLittleEndian_littleEndian, Nat.mod_eq_of_lt h]

theorem inverts_word {n : Nat} (h : n < 2 ^ 64) : Inverts readWord word n :=
  fun rest => readNumber_littleEndian h rest

theorem length_word (n : Nat) : (word n).length = 8 := length_littleEndian 8 n

theorem readMany_flatMap {read : Read α} {write : α → List UInt8} {l : List α}
    (h : ∀ a ∈ l, Inverts read write a) (rest : List UInt8) :
    readMany read l.length (l.flatMap write ++ rest) = .ok (l, rest) := by
  induction l with
  | nil => rfl
  | cons a l ih =>
    have ha := h a (List.mem_cons_self ..) (l.flatMap write ++ rest)
    have hl := ih fun b hb => h b (List.mem_cons_of_mem _ hb)
    rw [List.flatMap_cons, List.append_assoc, List.length_cons, readMany, ha]
    simp only [bind, Except.bind, hl]
    rfl

theorem inverts_sequence {read : Read α} {write : α → List UInt8} {l : List α}
    (hl : l.length < 2 ^ 64) (h : ∀ a ∈ l, Inverts read write a) :
    Inverts (readSequence read) (sequence write) l := by
  intro rest
  rw [readSequence, sequence, List.append_assoc, inverts_word hl]
  exact readMany_flatMap h rest

theorem length_le_flatMap (write : α → List UInt8) {l : List α} {a : α} (h : a ∈ l) :
    (write a).length ≤ (l.flatMap write).length := by
  obtain ⟨s, t, rfl⟩ := List.append_of_mem h
  simp only [List.flatMap_append, List.flatMap_cons, List.length_append]
  omega

theorem length_le_sequence (write : α → List UInt8) (h : ∀ a, 0 < (write a).length) (l : List α) :
    l.length ≤ (sequence write l).length := by
  rw [sequence, List.length_append]
  suffices hs : l.length ≤ (l.flatMap write).length by omega
  induction l with
  | nil => simp
  | cons a l ih =>
    have := h a
    rw [List.flatMap_cons, List.length_append, List.length_cons]
    omega

theorem mem_length_le_sequence (write : α → List UInt8) {l : List α} {a : α} (h : a ∈ l) :
    (write a).length ≤ (sequence write l).length := by
  have := length_le_flatMap write h
  rw [sequence, List.length_append]
  omega

theorem split?_self_append (front rest : List UInt8) :
    split? front.length (front ++ rest) = some (front, rest) := split?_append rfl

end Bytes

namespace Message
open Bytes

theorem length_writeEntry {β : Type} {write : β → List UInt8} (e : Nat × β) :
    (writeEntry write e).length = 8 + (write e.2).length := by
  rw [writeEntry, List.length_append, length_word]

theorem inverts_entry {β : Type} {read : Read β} {write : β → List UInt8} {e : Nat × β}
    (hk : e.1 < 2 ^ 64) (hb : Inverts read write e.2) :
    Inverts (readEntry read) (writeEntry write) e := by
  intro rest
  rw [readEntry, writeEntry, List.append_assoc, inverts_word hk]
  simp only [bind, Except.bind, hb rest]
  rfl

theorem inverts_map {β : Type} {read : Read β} {write : β → List UInt8} {m : NatMap β}
    (hl : m.entries.length < 2 ^ 64) (hk : ∀ e ∈ m.entries, e.1 < 2 ^ 64)
    (hb : ∀ e ∈ m.entries, Inverts read write e.2) :
    Inverts (readMap read) (fun m => sequence (writeEntry write) m.entries) m := by
  intro rest
  have h := inverts_sequence hl fun e he => inverts_entry (hk e he) (hb e he)
  rw [readMap, h rest]
  simp only [bind, Except.bind, pure, Except.pure, NatMap.ofList_entries]

theorem inverts_bits (bits : UInt64) :
    Inverts readBits (fun bits => word bits.toNat) bits := by
  intro rest
  rw [readBits, inverts_word bits.toNat_lt]
  simp only [bind, Except.bind, pure, Except.pure, UInt64.ofNat_toNat]

theorem inverts_text {s : String} (h : (Utf8.encode s.toList).length < 2 ^ 64) :
    Inverts readText
      (fun s => word (Utf8.encode s.toList).length ++ Utf8.encode s.toList) s := by
  intro rest
  rw [readText, List.append_assoc, inverts_word h]
  simp only [bind, Except.bind, split?_self_append, Utf8.decode_encode, pure, Except.pure,
    String.ofList_toList]

theorem readPair_append {α : Type} (make : Nat → α → Message) {read : Read α}
    (write : α → List UInt8) {pe : Nat} {a : α} (hp : pe < 2 ^ 64) (ha : Inverts read write a)
    (rest : List UInt8) :
    readPair make read (word pe ++ write a ++ rest) = .ok (make pe a, rest) := by
  rw [readPair, List.append_assoc, inverts_word hp]
  simp only [bind, Except.bind, ha rest]
  rfl

theorem readAlone_append {make : Nat → Message} {pe : Nat} (hp : pe < 2 ^ 64)
    (rest : List UInt8) : readAlone make (word pe ++ rest) = .ok (make pe, rest) := by
  rw [readAlone, inverts_word hp]
  rfl

theorem unfit?_eq_none_iff {m : Message} :
    m.unfit? = none ↔ (∀ n ∈ m.numbers, n < 2 ^ 64) ∧ m.body.length < 2 ^ 32 := by
  have hall : (m.numbers.all fun n => n < wordSize) = true ↔ ∀ n ∈ m.numbers, n < 2 ^ 64 := by
    simp only [List.all_eq_true, decide_eq_true_eq]
    rfl
  rw [unfit?, ← hall]
  split
  · next hn =>
    split
    · next hl => exact ⟨fun _ => ⟨hn, hl⟩, fun _ => rfl⟩
    · next hl => exact ⟨fun hc => by simp at hc, fun hc => absurd hc.2 hl⟩
  · next hn => exact ⟨fun hc => by simp at hc, fun hc => absurd hc.1 hn⟩

theorem length_body (m : Message) : m.body.length = 4 + m.fields.length := by
  rw [body, List.length_append, length_littleEndian]

theorem unfit?_cost {pe : Nat} (h : pe < 2 ^ 64) (bits : UInt64) :
    (cost pe bits).unfit? = none := by
  refine unfit?_eq_none_iff.2 ⟨by simpa [numbers] using h, ?_⟩
  rw [length_body, fields, List.length_append, length_word, length_word]
  decide

theorem unfit?_deviation {pe : Nat} (h : pe < 2 ^ 64) (bits : UInt64) :
    (deviation pe bits).unfit? = none := by
  refine unfit?_eq_none_iff.2 ⟨by simpa [numbers] using h, ?_⟩
  rw [length_body, fields, List.length_append, length_word, length_word]
  decide

theorem readFields_fields {m : Message} (hn : ∀ n ∈ m.numbers, n < 2 ^ 64)
    (hl : m.body.length < 2 ^ 32) (rest : List UInt8) :
    readFields m.kind (m.fields ++ rest) = .ok (m, rest) := by
  rw [length_body] at hl
  have numbers_of_list {nodes : List Nat} (h : ∀ n ∈ nodes, n < 2 ^ 64)
      (hs : (sequence word nodes).length < 2 ^ 32) :
      Inverts (readSequence readWord) (sequence word) nodes := by
    have := length_le_sequence word (fun n => by rw [length_word]; decide) nodes
    exact inverts_sequence (by omega) fun n hm => inverts_word (h n hm)
  have lists_of_map {lists : NatMap (List Nat)}
      (h : ∀ n ∈ lists.entries.flatMap fun e => e.1 :: e.2, n < 2 ^ 64)
      (hs : (sequence (writeEntry (sequence word)) lists.entries).length < 2 ^ 32) :
      Inverts (readMap (readSequence readWord))
        (fun lists => sequence (writeEntry (sequence word)) lists.entries) lists := by
    have := length_le_sequence (writeEntry (sequence word))
      (fun e => by rw [length_writeEntry]; omega) lists.entries
    have hmem : ∀ e ∈ lists.entries, ∀ n ∈ e.1 :: e.2, n < 2 ^ 64 := fun e he n hn =>
      h n (List.mem_flatMap.2 ⟨e, he, hn⟩)
    apply inverts_map (by omega) (fun e he => hmem e he _ (List.mem_cons_self ..))
    intro e he
    have hlen := mem_length_le_sequence (writeEntry (sequence word)) he
    rw [length_writeEntry] at hlen
    exact numbers_of_list (fun n hn => hmem e he n (List.mem_cons_of_mem _ hn)) (by omega)
  cases m with
  | load pe n | offset pe n | lower pe n =>
    exact readPair_append _ word (hn pe (by simp [numbers]))
      (inverts_word (hn n (by simp [numbers]))) rest
  | receipt pe | delivered pe => exact readAlone_append (hn pe (by simp [numbers])) rest
  | query pe nodes | request pe nodes =>
    simp only [fields, List.length_append] at hl
    exact readPair_append _ (sequence word) (hn pe (by simp [numbers]))
      (numbers_of_list (fun n hm => hn n (by simp [numbers, hm])) (by omega)) rest
  | batch pe lists | mask pe lists =>
    simp only [fields, List.length_append] at hl
    refine readPair_append _ (fun lists : NatMap (List Nat) =>
      sequence (writeEntry (sequence word)) lists.entries) (hn pe (by simp [numbers])) ?_ rest
    exact lists_of_map (fun n hm => hn n (List.mem_cons_of_mem _ hm)) (by omega)
  | assigned pe ids =>
    simp only [fields, List.length_append] at hl
    have hlen := length_le_sequence (writeEntry word)
      (fun e => by rw [length_writeEntry]; omega) ids.entries
    have hmem : ∀ e ∈ ids.entries, ∀ n ∈ [e.1, e.2], n < 2 ^ 64 := fun e he n hm =>
      hn n (List.mem_cons_of_mem _ (List.mem_flatMap.2 ⟨e, he, hm⟩))
    refine readPair_append _ (fun ids : NatMap Nat => sequence (writeEntry word) ids.entries)
      (hn pe (by simp [numbers])) ?_ rest
    exact inverts_map (by omega) (fun e he => hmem e he _ (by simp)) fun e he =>
      inverts_word (hmem e he _ (by simp))
  | cost pe bits | deviation pe bits =>
    exact readPair_append _ (fun bits : UInt64 => word bits.toNat)
      (hn pe (by simp [numbers])) (inverts_bits bits) rest
  | abort pe reason =>
    simp only [fields, List.length_append] at hl
    have h := inverts_text (s := reason) (by omega)
    have hr := readPair_append abort _ (hn pe (by simp [numbers])) h rest
    simpa only [fields, kind, readFields, List.append_assoc] using hr

theorem readBody_body {m : Message} (hn : ∀ n ∈ m.numbers, n < 2 ^ 64)
    (hl : m.body.length < 2 ^ 32) : readBody m.body = .ok (m, []) := by
  have hindex : m.kind.index < 256 ^ 4 := Nat.lt_trans m.kind.index_lt (by decide)
  have h := readFields_fields hn hl []
  rw [List.append_nil] at h
  rw [readBody, body, readNumber_littleEndian hindex]
  simp only [bind, Except.bind, MessageKind.ofIndex?_index, h]

theorem length_encode (m : Message) : m.encode.length = 8 + m.body.length := by
  simp only [encode, header, List.length_append, length_littleEndian]

theorem code_encode (m : Message) : ofLittleEndian ((m.encode.drop 2).take 2) = m.kind.code := by
  have hcode : m.kind.code < 256 ^ 2 := by
    have := m.kind.index_lt
    simp only [MessageKind.code]
    omega
  rw [encode, header, List.append_assoc, List.append_assoc,
    List.drop_left' (length_littleEndian ..), List.take_left' (length_littleEndian ..),
    ofLittleEndian_littleEndian, Nat.mod_eq_of_lt hcode]

theorem kind_eq_of_encode_eq {m m' : Message} (h : m.encode = m'.encode) : m.kind = m'.kind := by
  have hcode : m.kind.index + 1 = m'.kind.index + 1 := by
    have := code_encode m
    rw [h, code_encode] at this
    exact this.symm
  have hof := MessageKind.ofIndex?_index m.kind
  rw [Nat.succ.inj hcode, MessageKind.ofIndex?_index] at hof
  exact (Option.some.inj hof).symm

theorem decode_encode {m : Message} (h : m.unfit? = none) (limit : Option Nat) :
    decode limit m.encode =
      if ∀ l ∈ limit, m.encode.length ≤ l then .ok m
      else .error (.overLimit m.encode.length (limit.getD 0)) := by
  obtain ⟨hn, hl⟩ := unfit?_eq_none_iff.1 h
  have hversion : ofLittleEndian (m.encode.take 2) = version := by
    rw [encode, header, List.append_assoc, List.append_assoc,
      List.take_left' (length_littleEndian ..), ofLittleEndian_littleEndian]
    rfl
  have hkind := code_encode m
  have hlength : ofLittleEndian ((m.encode.drop 4).take 4) = m.body.length := by
    rw [encode, header, List.append_assoc, List.drop_left' (by simp [length_littleEndian]),
      List.take_left' (length_littleEndian ..), ofLittleEndian_littleEndian,
      Nat.mod_eq_of_lt (show m.body.length < 256 ^ 4 from hl)]
  have hbody : m.encode.drop 8 = m.body := by
    rw [encode, List.drop_left' (by simp [header, length_littleEndian])]
  have hlen := length_encode m
  have hrest : decode none m.encode = .ok m := by
    simp only [decode, bind, Except.bind, pure, Except.pure, hversion, hkind, hlength, hbody,
      readBody_body hn hl]
    rw [if_neg (by omega), if_neg (by simp), if_neg (by simp), if_neg (by simp)]
  cases limit with
  | none => simpa using hrest
  | some limit =>
    by_cases hlimit : limit < m.encode.length
    · rw [if_neg (by simpa using hlimit)]
      simp only [decode, bind, Except.bind, hlimit, if_true]
      rfl
    · rw [if_pos (by simpa using hlimit), ← hrest]
      simp only [decode, bind, Except.bind, hlimit, if_false]

theorem encode_inj {m m' : Message} (hm : m.unfit? = none) (hm' : m'.unfit? = none)
    (h : m.encode = m'.encode) : m = m' := by
  have hread := decode_encode hm none
  rw [h, decode_encode hm' none] at hread
  exact (Except.ok.inj hread).symm

end Message
end MeshNumbering
