import MeshNumbering.Json.Numeral
import MeshNumbering.Json.Quoted

/-! The tokens of a JSON text: brackets and separators, the three words, numerals, and quoted text.
-/

namespace MeshNumbering.Json

inductive Token where
  | beginArray
  | endArray
  | beginObject
  | endObject
  | comma
  | colon
  | null
  | bool (b : Bool)
  | number (n : Numeral)
  | text (s : List Piece)
deriving DecidableEq

namespace Token

def isSpace (c : Char) : Bool := c = ' ' ∨ c = '\t' ∨ c = '\n' ∨ c = '\r'

def mark? (c : Char) : Option Token :=
  if c = '[' then some .beginArray
  else if c = ']' then some .endArray
  else if c = '\x7b' then some .beginObject
  else if c = '\x7d' then some .endObject
  else if c = ',' then some .comma
  else if c = ':' then some .colon
  else none

def word? : List Char → Option (Token × List Char)
  | 'n' :: 'u' :: 'l' :: 'l' :: l => some (.null, l)
  | 't' :: 'r' :: 'u' :: 'e' :: l => some (.bool true, l)
  | 'f' :: 'a' :: 'l' :: 's' :: 'e' :: l => some (.bool false, l)
  | _ => none

def next? : List Char → Option (Token × List Char)
  | [] => none
  | c :: l =>
    match mark? c with
    | some t => some (t, l)
    | none =>
      if c = '"' then (Quoted.scan l).map fun (s, rest) => (.text s, rest)
      else
        match word? (c :: l) with
        | some r => some r
        | none => (Numeral.scan (c :: l)).map fun (n, rest) => (.number n, rest)

theorem length_of_word? {l rest : List Char} {t : Token} (h : word? l = some (t, rest)) :
    rest.length < l.length := by
  simp only [word?] at h
  split at h <;> simp only [Option.some.injEq, Prod.mk.injEq, reduceCtorEq] at h <;>
    · obtain ⟨-, rfl⟩ := h
      simp only [List.length_cons]
      omega

theorem length_of_next? {l rest : List Char} {t : Token} (h : next? l = some (t, rest)) :
    rest.length < l.length := by
  cases l with
  | nil => simp [next?] at h
  | cons c l =>
    simp only [next?] at h
    split at h
    · obtain ⟨-, rfl⟩ := Prod.mk.inj (Option.some.inj h)
      simp
    · split at h
      · obtain ⟨⟨s, r⟩, hs, he⟩ := Option.map_eq_some_iff.1 h
        obtain ⟨-, rfl⟩ := Prod.mk.inj he
        exact Nat.lt_succ_of_lt (Quoted.length_of_scan hs)
      · split at h
        · next r hr =>
          obtain rfl := Option.some.inj h
          exact length_of_word? hr
        · obtain ⟨⟨n, r⟩, hs, he⟩ := Option.map_eq_some_iff.1 h
          obtain ⟨-, rfl⟩ := Prod.mk.inj he
          exact Numeral.length_of_scan hs

def scan : List Char → Option (List Token)
  | [] => some []
  | c :: l =>
    if isSpace c then scan l
    else
      match h : next? (c :: l) with
      | none => none
      | some (t, rest) =>
        have := length_of_next? h
        (scan rest).map (t :: ·)
termination_by l => l.length
decreasing_by
  · exact Nat.lt_succ_self _
  · exact this

end Token
end MeshNumbering.Json
