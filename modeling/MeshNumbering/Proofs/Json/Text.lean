import Mathlib.Tactic.SplitIfs
import MeshNumbering.Json.Token

/-! Written JSON read back token by token: quoted text of any characters, naturals, words and
marks. -/

namespace MeshNumbering.Json

namespace Quoted

theorem scan_char {c : Char} (hquote : c ≠ '"') (hslash : c ≠ '\\') (hcontrol : isControl c = false)
    (l : List Char) : scan (c :: l) = (scan l).map fun r => (.char c :: r.1, r.2) := by
  rw [scan.eq_def]
  split
  · next h => cases h
  · next h => exact absurd (List.head_eq_of_cons_eq h) hquote
  · next h => exact absurd (List.head_eq_of_cons_eq h) hslash
  · next h => exact absurd (List.head_eq_of_cons_eq h) hslash
  · next h =>
    obtain ⟨rfl, rfl⟩ := List.cons.inj h
    rw [if_neg (by simp [hcontrol, hslash])]
    cases scan l <;> rfl

theorem scan_short {c e : Char} (hc : c ≠ 'u') (he : unescape? c = some e) (l : List Char) :
    scan ('\\' :: c :: l) = (scan l).map fun r => (.char e :: r.1, r.2) := by
  rw [scan.eq_def]
  split
  · next h => cases h
  · next h => cases List.head_eq_of_cons_eq h
  · next h => exact absurd (List.cons.inj (List.cons.inj h).2).1 hc
  · next h =>
    obtain ⟨rfl, rfl⟩ := List.cons.inj (List.cons.inj h).2
    rw [he]
    cases scan l <;> rfl
  · next hno h =>
    obtain ⟨hc, hl⟩ := List.cons.inj h
    exact (hno _ _ hc.symm hl.symm).elim

theorem scan_unit {a b c d : Char} {n : Nat} (h : hexUnit? a b c d = some n) (l : List Char) :
    scan ('\\' :: 'u' :: a :: b :: c :: d :: l) = (scan l).map fun r => (.unit n :: r.1, r.2) := by
  rw [scan]
  rw [h]
  cases scan l <;> rfl

/-- How a character comes back from its written form: of a control character without a letter of
its own just the number comes back. -/
def piece (c : Char) : Piece :=
  if isControl c ∧ c ∉ [Char.ofNat 8, Char.ofNat 12, '\n', '\r', '\t'] then .unit c.toNat
  else .char c

theorem hexUnit?_control : ∀ n < 32,
    hexUnit? '0' '0' (hexDigit (n / 16)) (hexDigit (n % 16)) = some n := by decide

theorem scan_escape (c : Char) (l : List Char) :
    scan (escape c ++ l) = (scan l).map fun r => (piece c :: r.1, r.2) := by
  have hplain : ∀ e ∈ ['"', '\\', Char.ofNat 8, Char.ofNat 12, '\n', '\r', '\t'],
      piece e = .char e := by
    simp only [List.forall_mem_cons]
    exact ⟨rfl, rfl, rfl, rfl, rfl, rfl, rfl, nofun⟩
  unfold escape
  split_ifs with hquote h8 h12 hn hr ht hcontrol
  · rw [hplain c (by rcases hquote with rfl | rfl <;> decide)]
    refine scan_short ?_ ?_ l
    · rcases hquote with rfl | rfl <;> decide
    · rcases hquote with rfl | rfl <;> rfl
  · subst h8
    exact scan_short (by decide) rfl l
  · subst h12
    exact scan_short (by decide) rfl l
  · subst hn
    exact scan_short (by decide) rfl l
  · subst hr
    exact scan_short (by decide) rfl l
  · subst ht
    exact scan_short (by decide) rfl l
  · have hpiece : piece c = .unit c.toNat := by
      unfold piece
      rw [if_pos]
      simp [hcontrol, h8, h12, hn, hr, ht]
    have hlt : c.toNat < 32 := of_decide_eq_true hcontrol
    rw [hpiece]
    exact scan_unit (hexUnit?_control c.toNat hlt) l
  · rw [not_or] at hquote
    have hpiece : piece c = .char c := by
      unfold piece
      rw [if_neg (fun h => hcontrol h.1)]
    rw [hpiece]
    exact scan_char hquote.1 hquote.2 (by simpa using hcontrol) l

theorem scan_flatMap_escape (s l : List Char) :
    scan (s.flatMap escape ++ '"' :: l) = some (s.map piece, l) := by
  induction s with
  | nil => rfl
  | cons c s ih =>
    rw [List.flatMap_cons, List.append_assoc, scan_escape, ih]
    rfl

theorem decode?_piece_cons (c : Char) (l : List Piece) :
    decode? (piece c :: l) = (decode? l).map (c :: ·) := by
  unfold piece
  split_ifs with hcontrol
  · have hlt : c.toNat < 32 := of_decide_eq_true hcontrol.1
    have hhigh : isHigh c.toNat = false := decide_eq_false (by omega)
    have hlow : isLow c.toNat = false := decide_eq_false (by omega)
    have hchar : Char.ofNat c.toNat = c := Char.ofNat_toNat c
    match l with
    | [] => simp [decode?, hhigh, hlow, hchar]
    | .unit m :: l => simp [decode?, hhigh, hlow, hchar]
    | .char c' :: l => simp [decode?, hhigh, hlow, hchar]
  · rfl

theorem decode?_map_piece (s : List Char) : decode? (s.map piece) = some s := by
  induction s with
  | nil => rfl
  | cons c s ih =>
    rw [List.map_cons, decode?_piece_cons, ih]
    rfl

end Quoted

def Ends (l : List Char) : Prop := ∀ c ∈ l.head?, c = ',' ∨ c = '\x7d'

namespace Numeral
open Decimal

def ofNat (n : Nat) : Numeral := ⟨false, digits n, [], none⟩

theorem nat?_ofNat {n : Nat} (h : n < wordSize) : (ofNat n).nat? = some n := by
  unfold nat? ofNat
  dsimp only
  rw [if_neg (by simp), ofDigits_digits, if_pos h]

variable {l : List Char}

theorem exists_digits_eq_cons (n : Nat) : ∃ c ds, digits n = c :: ds ∧ isDigit c = true := by
  obtain ⟨c, ds, hcons⟩ := List.exists_cons_of_ne_nil (digits_ne_nil n)
  exact ⟨c, ds, hcons, isDigit_of_mem_digits (hcons ▸ List.mem_cons_self)⟩

theorem scanDigits_digits (n : Nat) (hl : ∀ c ∈ l.head?, isDigit c = false) :
    scanDigits (digits n ++ l) = some (digits n, l) := by
  have hall : ∀ c ∈ digits n, isDigit c = true := fun c => isDigit_of_mem_digits
  have htake : l.takeWhile isDigit = [] ∧ l.dropWhile isDigit = l := by
    cases l with
    | nil => exact ⟨rfl, rfl⟩
    | cons c l =>
      have hc : ¬ isDigit c = true := Bool.eq_false_iff.1 (hl c rfl)
      exact ⟨List.takeWhile_cons_of_neg hc, List.dropWhile_cons_of_neg hc⟩
  unfold scanDigits
  rw [List.takeWhile_append_of_pos hall, List.dropWhile_append_of_pos hall, htake.1, htake.2,
    List.append_nil]
  split
  · next h => exact absurd h (digits_ne_nil n)
  · rfl

theorem scanWhole_digits (n : Nat) (hl : ∀ c ∈ l.head?, isDigit c = false) :
    scanWhole (digits n ++ l) = some (digits n, l) := by
  unfold scanWhole
  rw [scanDigits_digits n hl]
  split
  · next h =>
    -- A leading zero is alone.
    have hdigits := (Prod.mk.inj (Option.some.inj h)).1
    rcases Nat.eq_zero_or_pos n with rfl | hpos
    · rw [digits, if_pos (by decide)] at hdigits
      cases hdigits
    · exact absurd (by rw [hdigits]; rfl) (head?_digits_ne_zero hpos)
  · rfl

theorem scan_digits (n : Nat) (hl : Ends l) : scan (digits n ++ l) = some (ofNat n, l) := by
  have hmarks : ∀ c, c = ',' ∨ c = '\x7d' →
      isDigit c = false ∧ c ≠ '.' ∧ ¬ (c = 'e' ∨ c = 'E') := by
    rintro c (rfl | rfl) <;> decide
  have hwhole := scanWhole_digits n fun c hc => (hmarks c (hl c hc)).1
  have hfraction : scanFraction l = some ([], l) := by
    unfold scanFraction
    split
    · next h => exact absurd rfl (hmarks '.' (hl '.' rfl)).2.1
    · rfl
  have hexponent : scanExponent l = some (none, l) := by
    unfold scanExponent
    split
    · next c l => rw [if_neg (hmarks c (hl c rfl)).2.2]
    · rfl
  have hunsigned : scanUnsigned false (digits n ++ l) = some (ofNat n, l) := by
    unfold scanUnsigned
    rw [hwhole]
    show (scanFraction l).bind _ = _
    rw [hfraction]
    show (scanExponent l).bind _ = _
    rw [hexponent]
    rfl
  obtain ⟨c, ds, hcons, hc⟩ := exists_digits_eq_cons n
  unfold scan
  split
  · next h =>
    rw [hcons] at h
    rw [List.head_eq_of_cons_eq h] at hc
    cases hc
  · exact hunsigned

end Numeral

namespace Token
open Quoted

theorem scan_cons {c : Char} {l rest : List Char} {t : Token} (hspace : isSpace c = false)
    (h : next? (c :: l) = some (t, rest)) : scan (c :: l) = (scan rest).map (t :: ·) := by
  rw [scan]
  rw [if_neg (Bool.eq_false_iff.1 hspace)]
  split
  · next hnone => rw [h] at hnone; cases hnone
  · next t' rest' hsome =>
    obtain ⟨rfl, rfl⟩ := Prod.mk.inj (Option.some.inj (h.symm.trans hsome))
    rfl

theorem scan_mark {c : Char} {t : Token} (hspace : isSpace c = false) (h : mark? c = some t)
    (l : List Char) : scan (c :: l) = (scan l).map (t :: ·) := by
  apply scan_cons hspace
  unfold next?
  dsimp only
  rw [h]

def Spells (w : List Char) (tokens : List Token) : Prop :=
  ∀ l, Ends l → scan (w ++ l) = (scan l).map (tokens ++ ·)

theorem scan_write (s l : List Char) :
    scan (write s ++ l) = (scan l).map (.text (s.map piece) :: ·) := by
  have hwrite : write s ++ l = '"' :: (s.flatMap escape ++ '"' :: l) := by simp [write]
  rw [hwrite]
  apply scan_cons rfl
  show (Quoted.scan _).map _ = _
  rw [scan_flatMap_escape]
  rfl

theorem spells_write (s : List Char) : Spells (write s) [.text (s.map piece)] :=
  fun l _ => scan_write s l

theorem next?_digit {c : Char} (hc : Decimal.isDigit c = true) (l : List Char) :
    isSpace c = false ∧
      next? (c :: l) = (Numeral.scan (c :: l)).map fun r => (.number r.1, r.2) := by
  have hall : ∀ d < 10, isSpace (Decimal.digitChar d) = false ∧
      mark? (Decimal.digitChar d) = none ∧ Decimal.digitChar d ≠ '"' ∧
      Decimal.digitChar d ≠ 'n' ∧ Decimal.digitChar d ≠ 't' ∧ Decimal.digitChar d ≠ 'f' := by
    decide
  obtain ⟨d, hd, rfl⟩ : ∃ d < 10, c = Decimal.digitChar d := by
    unfold Decimal.isDigit at hc
    rw [Bool.and_eq_true, decide_eq_true_eq, decide_eq_true_eq] at hc
    refine ⟨c.toNat - 48, by omega, ?_⟩
    unfold Decimal.digitChar
    rw [Nat.add_sub_cancel' hc.1, Char.ofNat_toNat]
  obtain ⟨hspace, hmark, hquote, hn, ht, hf⟩ := hall d hd
  have hword : word? (Decimal.digitChar d :: l) = none := by
    unfold word?
    split
    · next h => exact absurd (List.head_eq_of_cons_eq h) hn
    · next h => exact absurd (List.head_eq_of_cons_eq h) ht
    · next h => exact absurd (List.head_eq_of_cons_eq h) hf
    · rfl
  refine ⟨hspace, ?_⟩
  unfold next?
  dsimp only
  rw [hmark, hword]
  exact if_neg hquote

theorem spells_digits (n : Nat) : Spells (Decimal.digits n) [.number (.ofNat n)] := by
  intro l hl
  obtain ⟨c, ds, hcons, hc⟩ := Numeral.exists_digits_eq_cons n
  have hscan := Numeral.scan_digits n hl
  rw [hcons] at hscan ⊢
  obtain ⟨hspace, hnext⟩ := next?_digit hc (ds ++ l)
  rw [← List.cons_append] at hnext
  rw [hscan] at hnext
  exact scan_cons hspace hnext

theorem spells_null : Spells "null".toList [.null] := fun _ _ => scan_cons rfl rfl

theorem spells_bool (b : Bool) : Spells (if b then "true" else "false").toList [.bool b] := by
  cases b with
  | true => exact fun _ _ => scan_cons rfl rfl
  | false => exact fun _ _ => scan_cons rfl rfl

end Token
end MeshNumbering.Json
