import Mathlib.Tactic.IntervalCases
import MeshNumbering.Message.Utf8
import MeshNumbering.Proofs.Steps

/-! Text comes back from its UTF-8 form: every character has a first byte that announces the others,
and each of the others gives back six bits. -/

namespace MeshNumbering.Utf8

theorem toNat_tail (n : Nat) : (tail n).toNat = 0x80 + n % 64 := by
  have : n % 64 < 64 := Nat.mod_lt _ (by decide)
  rw [tail, UInt8.toNat_ofNat', Nat.mod_eq_of_lt (by omega)]

theorem follow_tail {code taken n k : Nat} {least most : UInt8} {rest : List UInt8}
    (hl : least.toNat ≤ 0x80 + k % 64) (hm : 0x80 + k % 64 ≤ most.toNat) :
    follow code taken (n + 1) least most (tail k :: rest) =
      follow (code * 64 + k % 64) (taken + 1) n 0x80 0xbf rest := by
  have hk : k % 64 < 64 := Nat.mod_lt _ (by decide)
  have hle : least ≤ tail k ∧ tail k ≤ most := by
    rw [UInt8.le_iff_toNat_le, UInt8.le_iff_toNat_le, toNat_tail]
    exact ⟨hl, hm⟩
  have hmod : (0x80 + k % 64) % 64 = k % 64 := by omega
  rw [follow, if_pos hle, toNat_tail, hmod]

theorem follow_any {code taken n k : Nat} {rest : List UInt8} :
    follow code taken (n + 1) 0x80 0xbf (tail k :: rest) =
      follow (code * 64 + k % 64) (taken + 1) n 0x80 0xbf rest := by
  refine follow_tail ?_ ?_
  · show 0x80 ≤ _
    omega
  · show _ ≤ 0xbf
    omega

theorem lead?_two {k : Nat} (h : 2 ≤ k) (h' : k < 32) :
    lead? (UInt8.ofNat (0xc0 + k)) = some ⟨k, 1, 0x80, 0xbf⟩ := by
  interval_cases k <;> rfl

theorem lead?_three {n : Nat} (h : 0x800 ≤ n) (h' : n < 0x10000) (hs : n < 0xd800 ∨ 0xdfff < n) :
    ∃ least most, lead? (UInt8.ofNat (0xe0 + n / 4096)) = some ⟨n / 4096, 2, least, most⟩ ∧
      least.toNat ≤ 0x80 + n / 64 % 64 ∧ 0x80 + n / 64 % 64 ≤ most.toNat := by
  -- The second byte of a longer sequence keeps clear of shorter ones and of surrogates.
  obtain ⟨k, hk⟩ : ∃ k, n / 4096 = k := ⟨_, rfl⟩
  have hlt : k < 16 := by omega
  rw [hk]
  interval_cases k
  · exact ⟨0xa0, 0xbf, rfl, by show 0xa0 ≤ _; omega, by show _ ≤ 0xbf; omega⟩
  case «13» => exact ⟨0x80, 0x9f, rfl, by show 0x80 ≤ _; omega, by show _ ≤ 0x9f; omega⟩
  all_goals exact ⟨0x80, 0xbf, rfl, by show 0x80 ≤ _; omega, by show _ ≤ 0xbf; omega⟩

theorem lead?_four {n : Nat} (h : 0x10000 ≤ n) (h' : n < 0x110000) :
    ∃ least most, lead? (UInt8.ofNat (0xf0 + n / 262144)) = some ⟨n / 262144, 3, least, most⟩ ∧
      least.toNat ≤ 0x80 + n / 4096 % 64 ∧ 0x80 + n / 4096 % 64 ≤ most.toNat := by
  obtain ⟨k, hk⟩ : ∃ k, n / 262144 = k := ⟨_, rfl⟩
  have hlt : k < 5 := by omega
  rw [hk]
  interval_cases k
  · exact ⟨0x90, 0xbf, rfl, by show 0x90 ≤ _; omega, by show _ ≤ 0xbf; omega⟩
  case «4» => exact ⟨0x80, 0x8f, rfl, by show 0x80 ≤ _; omega, by show _ ≤ 0x8f; omega⟩
  all_goals exact ⟨0x80, 0xbf, rfl, by show 0x80 ≤ _; omega, by show _ ≤ 0xbf; omega⟩

theorem lead?_range {b : UInt8} {lead : Lead} (h : lead? b = some lead) : ¬ b < 0x80 := by
  intro hb
  have hlow : b < 0xc2 := by
    rw [UInt8.lt_iff_toNat_lt] at hb ⊢
    exact Nat.lt_trans hb (by decide)
  simp [lead?, hlow] at h

theorem decodeFrom_lead {position : Nat} {b : UInt8} {l rest : List UInt8} {lead : Lead} {c : Char}
    (hlead : lead? b = some lead)
    (hfollow : follow lead.share 1 lead.follow lead.least lead.most l = .complete c.toNat rest) :
    decodeFrom position (b :: l) =
      (decodeFrom (position + 1 + lead.follow) rest).map (c :: ·) := by
  rw [decodeFrom, if_neg (lead?_range hlead)]
  split
  · next h => simp [hlead] at h
  · next lead' h =>
    obtain rfl : lead = lead' := Option.some.inj (hlead.symm.trans h)
    split
    · next h => simp [hfollow] at h
    · next h => simp [hfollow] at h
    · next code rest' h =>
      rw [hfollow, Tail.complete.injEq] at h
      obtain ⟨rfl, rfl⟩ := h
      rw [Char.ofNat_toNat]
      cases decodeFrom (position + 1 + lead.follow) rest <;> rfl

theorem toNat_range (c : Char) : c.toNat < 0xd800 ∨ 0xdfff < c.toNat ∧ c.toNat < 0x110000 := c.valid

theorem decodeFrom_encodeChar (position : Nat) (c : Char) (rest : List UInt8) :
    ∃ next, decodeFrom position (encodeChar c ++ rest) =
      (decodeFrom next rest).map (c :: ·) := by
  have hc := toNat_range c
  simp only [encodeChar]
  split
  · next h =>
    have hb : (UInt8.ofNat c.toNat).toNat = c.toNat := by
      rw [UInt8.toNat_ofNat', Nat.mod_eq_of_lt (by omega)]
    have hlt : UInt8.ofNat c.toNat < 0x80 := by
      rw [UInt8.lt_iff_toNat_lt, hb]
      exact h
    refine ⟨position + 1, ?_⟩
    rw [List.singleton_append, decodeFrom, if_pos hlt, hb, Char.ofNat_toNat]
    cases decodeFrom (position + 1) rest <;> rfl
  · split
    · have hlead := lead?_two (k := c.toNat / 64) (by omega) (by omega)
      refine ⟨_, decodeFrom_lead hlead ?_⟩
      show follow (c.toNat / 64) 1 1 0x80 0xbf (tail c.toNat :: rest) = _
      rw [follow_any, follow]
      congr 1
      omega
    · split
      · next hlt =>
        obtain ⟨least, most, hlead, hl, hm⟩ := lead?_three (by omega) hlt (by omega)
        refine ⟨_, decodeFrom_lead hlead ?_⟩
        show follow (c.toNat / 4096) 1 2 least most
          (tail (c.toNat / 64) :: tail c.toNat :: rest) = _
        rw [follow_tail hl hm, follow_any, follow]
        congr 1
        omega
      · obtain ⟨least, most, hlead, hl, hm⟩ := lead?_four (n := c.toNat) (by omega) (by omega)
        refine ⟨_, decodeFrom_lead hlead ?_⟩
        show follow (c.toNat / 262144) 1 3 least most
          (tail (c.toNat / 4096) :: tail (c.toNat / 64) :: tail c.toNat :: rest) = _
        rw [follow_tail hl hm, follow_any, follow_any, follow]
        congr 1
        omega

theorem decodeFrom_encode (position : Nat) (s : List Char) :
    decodeFrom position (encode s) = .ok s := by
  induction s generalizing position with
  | nil => simp [encode, decodeFrom]
  | cons c s ih =>
    obtain ⟨next, h⟩ := decodeFrom_encodeChar position c (encode s)
    rw [encode, List.flatMap_cons, ← encode, h, ih]
    rfl

theorem decode_encode (s : List Char) : decode (encode s) = .ok s := decodeFrom_encode 0 s

theorem encodeChar_eq (c : Char) : encodeChar c = String.utf8EncodeChar c := by
  have hc := toNat_range c
  have htail : ∀ n, tail n = UInt8.ofNat (n % 64 + 128) := fun n => by rw [tail, Nat.add_comm]
  show _ = if c.toNat ≤ 127 then [UInt8.ofNat c.toNat]
    else if c.toNat ≤ 2047 then
      [UInt8.ofNat (c.toNat / 64 % 32 + 192), UInt8.ofNat (c.toNat % 64 + 128)]
    else if c.toNat ≤ 65535 then
      [UInt8.ofNat (c.toNat / 4096 % 16 + 224), UInt8.ofNat (c.toNat / 64 % 64 + 128),
        UInt8.ofNat (c.toNat % 64 + 128)]
    else
      [UInt8.ofNat (c.toNat / 262144 % 8 + 240), UInt8.ofNat (c.toNat / 4096 % 64 + 128),
        UInt8.ofNat (c.toNat / 64 % 64 + 128), UInt8.ofNat (c.toNat % 64 + 128)]
  simp only [encodeChar, htail, ← Nat.lt_succ_iff, Nat.succ_eq_add_one, Nat.reduceAdd]
  split
  · rfl
  split
  · rw [Nat.mod_eq_of_lt (show c.toNat / 64 < 32 by omega), Nat.add_comm]
  split
  · rw [Nat.mod_eq_of_lt (show c.toNat / 4096 < 16 by omega), Nat.add_comm]
  · rw [Nat.mod_eq_of_lt (show c.toNat / 262144 < 8 by omega), Nat.add_comm]

theorem encode_toList (s : String) : encode s.toList = s.toByteArray.data.toList := by
  have hchar : encodeChar = String.utf8EncodeChar := funext encodeChar_eq
  rw [← String.utf8Encode_toList, List.utf8Encode, List.toList_data_toByteArray, encode, hchar]

/-! The way back: what can be decoded is the form of some text. -/

theorem of_lead? {b : UInt8} {lead : Lead} (h : lead? b = some lead) :
    0x80 ≤ lead.least.toNat ∧ lead.most.toNat ≤ 0xbf ∧
    (lead.follow = 1 ∧ b.toNat = 0xc0 + lead.share ∧ 2 ≤ lead.share ∧ lead.share < 32 ∨
      lead.follow = 2 ∧ b.toNat = 0xe0 + lead.share ∧ lead.share < 16 ∧
        (lead.share = 0 → 0xa0 ≤ lead.least.toNat) ∧ (lead.share = 0xd → lead.most.toNat ≤ 0x9f) ∨
      lead.follow = 3 ∧ b.toNat = 0xf0 + lead.share ∧ lead.share < 5 ∧
        (lead.share = 0 → 0x90 ≤ lead.least.toNat) ∧
        (lead.share = 4 → lead.most.toNat ≤ 0x8f)) := by
  -- A first byte carries the highest bits of a code point, and the range for the next byte keeps
  -- the code point to those that need as many bytes.
  simp only [lead?, UInt8.lt_iff_toNat_lt, ← UInt8.toNat_inj, UInt8.reduceToNat] at h
  split_ifs at h
  all_goals
    obtain rfl := Option.some.inj h
    simp
    omega

theorem follow_eq_complete {code taken n c : Nat} {least most : UInt8} {l rest : List UInt8}
    (hl : 0x80 ≤ least.toNat) (hm : most.toNat ≤ 0xbf)
    (h : follow code taken (n + 1) least most l = .complete c rest) :
    ∃ k < 64, ∃ l', l = tail k :: l' ∧ least.toNat ≤ 0x80 + k ∧ 0x80 + k ≤ most.toNat ∧
      follow (code * 64 + k) (taken + 1) n 0x80 0xbf l' = .complete c rest := by
  cases l with
  | nil => simp [follow] at h
  | cons b l =>
    rw [follow] at h
    split at h
    · next hb =>
      rw [UInt8.le_iff_toNat_le, UInt8.le_iff_toNat_le] at hb
      have hmod : b.toNat = 0x80 + b.toNat % 64 := by omega
      refine ⟨b.toNat % 64, Nat.mod_lt _ (by decide), l, ?_, by omega, by omega, h⟩
      congr 1
      rw [← UInt8.toNat_inj, toNat_tail, Nat.mod_mod]
      exact hmod
    · cases h

theorem exists_char {n : Nat} (h : n < 0xd800 ∨ 0xdfff < n ∧ n < 0x110000) :
    ∃ c : Char, c.toNat = n :=
  ⟨Char.ofNatAux n h, rfl⟩

theorem eq_encodeChar_of_lead {b : UInt8} {l rest : List UInt8} {lead : Lead} {code : Nat}
    (hlead : lead? b = some lead)
    (h : follow lead.share 1 lead.follow lead.least lead.most l = .complete code rest) :
    ∃ c : Char, c.toNat = code ∧ b :: l = encodeChar c ++ rest := by
  have hbyte : ∀ n, b.toNat = n → b = UInt8.ofNat n := fun n hn => by rw [← hn, UInt8.ofNat_toNat]
  have htail : ∀ {k n : Nat}, k < 64 → n % 64 = k → tail k = tail n := fun hk hn => by
    rw [tail, tail, hn, Nat.mod_eq_of_lt hk]
  obtain ⟨hl, hm, hrange⟩ := of_lead? hlead
  obtain ⟨share, n, least, most⟩ := lead
  dsimp only at h hl hm hrange
  rcases hrange with ⟨rfl, hb, hlow, hhigh⟩ | ⟨rfl, hb, hhigh, hshort, hsurrogate⟩ |
    ⟨rfl, hb, hhigh, hshort, hlarge⟩
  · obtain ⟨k, hk, l, rfl, -, -, h⟩ := follow_eq_complete hl hm h
    obtain ⟨rfl, rfl⟩ := Tail.complete.inj h
    obtain ⟨c, hc⟩ := exists_char (n := share * 64 + k) (by omega)
    refine ⟨c, hc, ?_⟩
    simp only [encodeChar, hc]
    rw [if_neg (by omega), if_pos (by omega), hbyte (0xc0 + (share * 64 + k) / 64) (by omega),
      htail hk (n := share * 64 + k) (by omega)]
    rfl
  · obtain ⟨k, hk, l, rfl, hleast, hmost, h⟩ := follow_eq_complete hl hm h
    obtain ⟨k', hk', l, rfl, -, -, h⟩ := follow_eq_complete (by decide) (by decide) h
    obtain ⟨rfl, rfl⟩ := Tail.complete.inj h
    obtain ⟨c, hc⟩ := exists_char (n := (share * 64 + k) * 64 + k') (by omega)
    refine ⟨c, hc, ?_⟩
    simp only [encodeChar, hc]
    rw [if_neg (by omega), if_neg (by omega), if_pos (by omega),
      hbyte (0xe0 + ((share * 64 + k) * 64 + k') / 4096) (by omega),
      htail hk (n := ((share * 64 + k) * 64 + k') / 64) (by omega),
      htail hk' (n := (share * 64 + k) * 64 + k') (by omega)]
    rfl
  · obtain ⟨k, hk, l, rfl, hleast, hmost, h⟩ := follow_eq_complete hl hm h
    obtain ⟨k', hk', l, rfl, -, -, h⟩ := follow_eq_complete (by decide) (by decide) h
    obtain ⟨k'', hk'', l, rfl, -, -, h⟩ := follow_eq_complete (by decide) (by decide) h
    obtain ⟨rfl, rfl⟩ := Tail.complete.inj h
    obtain ⟨c, hc⟩ := exists_char (n := ((share * 64 + k) * 64 + k') * 64 + k'') (by omega)
    refine ⟨c, hc, ?_⟩
    simp only [encodeChar, hc]
    rw [if_neg (by omega), if_neg (by omega), if_neg (by omega),
      hbyte (0xf0 + (((share * 64 + k) * 64 + k') * 64 + k'') / 262144) (by omega),
      htail hk (n := (((share * 64 + k) * 64 + k') * 64 + k'') / 4096) (by omega),
      htail hk' (n := (((share * 64 + k) * 64 + k') * 64 + k'') / 64) (by omega),
      htail hk'' (n := ((share * 64 + k) * 64 + k') * 64 + k'') (by omega)]
    rfl

theorem encodeChar_ofNat_of_lt {b : UInt8} (hb : b < 0x80) :
    encodeChar (Char.ofNat b.toNat) = [b] := by
  have hlt : b.toNat < 0x80 := UInt8.lt_iff_toNat_lt.1 hb
  obtain ⟨c, hc⟩ := exists_char (n := b.toNat) (by omega)
  rw [← hc, Char.ofNat_toNat, encodeChar, hc, if_pos hlt, UInt8.ofNat_toNat]

theorem encode_of_decodeFrom {position : Nat} {l : List UInt8} {s : List Char}
    (h : decodeFrom position l = .ok s) : encode s = l := by
  fun_induction decodeFrom position l generalizing s with
  | case1 position =>
    obtain rfl := Except.ok.inj h
    rfl
  | case2 position b l hb ih =>
    obtain ⟨s, hs, hcons⟩ := bind_eq_ok_iff.1 h
    obtain rfl := Except.ok.inj hcons
    rw [encode, List.flatMap_cons, encodeChar_ofNat_of_lt hb, ← encode, ih hs]
    rfl
  | case3 | case4 | case5 => cases h
  | case6 position b l hb lead hlead code rest hfollow hlt ih =>
    obtain ⟨s, hs, hcons⟩ := bind_eq_ok_iff.1 h
    obtain rfl := Except.ok.inj hcons
    obtain ⟨c, rfl, hchar⟩ := eq_encodeChar_of_lead hlead hfollow
    rw [encode, List.flatMap_cons, Char.ofNat_toNat, ← encode, ih hs, hchar]

theorem decode_eq_ok_iff {l : List UInt8} {s : List Char} : decode l = .ok s ↔ l = encode s :=
  ⟨fun h => (encode_of_decodeFrom h).symm, fun h => h ▸ decode_encode s⟩

end MeshNumbering.Utf8
