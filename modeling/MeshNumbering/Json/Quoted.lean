import MeshNumbering.Decimal.Digits

/-! Quoted text. An escape may stand for half a character, so what is between the quotes is kept as
pieces until somebody asks for the characters. -/

namespace MeshNumbering.Json

inductive Piece where
  | char (c : Char)
  -- Sixteen bits spelled with four hexadecimal digits.
  | unit (n : Nat)
deriving DecidableEq

namespace Quoted

def hexValue? (c : Char) : Option Nat :=
  let n := c.toNat
  if 48 ≤ n ∧ n ≤ 57 then some (n - 48)
  else if 97 ≤ n ∧ n ≤ 102 then some (n - 87)
  else if 65 ≤ n ∧ n ≤ 70 then some (n - 55)
  else none

def hexUnit? (a b c d : Char) : Option Nat := do
  return (((← hexValue? a) * 16 + (← hexValue? b)) * 16 + (← hexValue? c)) * 16 + (← hexValue? d)

def unescape? (c : Char) : Option Char :=
  if c = '"' ∨ c = '\\' ∨ c = '/' then some c
  else if c = 'b' then some (Char.ofNat 8)
  else if c = 'f' then some (Char.ofNat 12)
  else if c = 'n' then some '\n'
  else if c = 'r' then some '\r'
  else if c = 't' then some '\t'
  else none

def isControl (c : Char) : Bool := c.toNat < 0x20

def scan : List Char → Option (List Piece × List Char)
  | [] => none
  | '"' :: l => some ([], l)
  | '\\' :: 'u' :: a :: b :: c :: d :: l => do
    let n ← hexUnit? a b c d
    let (s, l) ← scan l
    return (.unit n :: s, l)
  | '\\' :: c :: l => do
    let e ← unescape? c
    let (s, l) ← scan l
    return (.char e :: s, l)
  | c :: l =>
    if isControl c ∨ c = '\\' then none
    else do
      let (s, l) ← scan l
      return (.char c :: s, l)

def isHigh (n : Nat) : Bool := 0xd800 ≤ n ∧ n < 0xdc00

def isLow (n : Nat) : Bool := 0xdc00 ≤ n ∧ n < 0xe000

def decode? : List Piece → Option (List Char)
  | [] => some []
  | .char c :: l => (decode? l).map (c :: ·)
  | .unit n :: .unit m :: l =>
    if isHigh n then
      if isLow m then
        (decode? l).map (Char.ofNat (0x10000 + (n - 0xd800) * 0x400 + (m - 0xdc00)) :: ·)
      else none
    else if isLow n then none
    else (decode? (.unit m :: l)).map (Char.ofNat n :: ·)
  | .unit n :: l =>
    if isHigh n ∨ isLow n then none else (decode? l).map (Char.ofNat n :: ·)

def hexDigit (n : Nat) : Char := if n < 10 then Char.ofNat (48 + n) else Char.ofNat (87 + n)

def escape (c : Char) : List Char :=
  if c = '"' ∨ c = '\\' then ['\\', c]
  else if c = Char.ofNat 8 then ['\\', 'b']
  else if c = Char.ofNat 12 then ['\\', 'f']
  else if c = '\n' then ['\\', 'n']
  else if c = '\r' then ['\\', 'r']
  else if c = '\t' then ['\\', 't']
  else if isControl c then
    ['\\', 'u', '0', '0', hexDigit (c.toNat / 16), hexDigit (c.toNat % 16)]
  else [c]

def write (s : List Char) : List Char := '"' :: s.flatMap escape ++ ['"']

theorem length_of_scan {l rest : List Char} {s : List Piece} (h : scan l = some (s, rest)) :
    rest.length < l.length := by
  fun_induction scan l generalizing s with
  | case1 => simp at h
  | case2 l =>
    obtain ⟨-, rfl⟩ := Prod.mk.inj (Option.some.inj h)
    simp
  | case3 a b c d l ih =>
    simp only [Option.bind_eq_bind, Option.bind_eq_some_iff] at h
    obtain ⟨n, -, ⟨s', l'⟩, hs, he⟩ := h
    obtain ⟨-, rfl⟩ := Prod.mk.inj (Option.some.inj he)
    have := ih hs
    simp only [List.length_cons] at *
    omega
  | case4 c l _ ih =>
    simp only [Option.bind_eq_bind, Option.bind_eq_some_iff] at h
    obtain ⟨n, -, ⟨s', l'⟩, hs, he⟩ := h
    obtain ⟨-, rfl⟩ := Prod.mk.inj (Option.some.inj he)
    have := ih hs
    simp only [List.length_cons] at *
    omega
  | case5 => simp at h
  | case6 c l _ _ _ _ ih =>
    simp only [Option.bind_eq_bind, Option.bind_eq_some_iff] at h
    obtain ⟨⟨s', l'⟩, hs, he⟩ := h
    obtain ⟨-, rfl⟩ := Prod.mk.inj (Option.some.inj he)
    exact Nat.lt_succ_of_lt (ih hs)

end Quoted
end MeshNumbering.Json
