import MeshNumbering.Decimal.Digits
import MeshNumbering.Word

/-! Numbers as JSON spells them, and what they stand for. A numeral is kept as it was written,
because what it may be depends on its place: a count is a natural of 64 bits without point or
exponent, a measure is a double. -/

namespace MeshNumbering.Json
open Decimal

structure Numeral where
  negative : Bool
  whole : List Char
  -- Digits after the point; empty when there is no point.
  fraction : List Char
  -- Whether the exponent is negative, and its digits.
  exponent : Option (Bool × List Char)
deriving DecidableEq

namespace Numeral

def scanDigits (l : List Char) : Option (List Char × List Char) :=
  match l.takeWhile isDigit with
  | [] => none
  | ds => some (ds, l.dropWhile isDigit)

def scanWhole (l : List Char) : Option (List Char × List Char) :=
  match scanDigits l with
  | some ('0' :: _ :: _, _) => none
  | r => r

def scanFraction : List Char → Option (List Char × List Char)
  | '.' :: l => scanDigits l
  | l => some ([], l)

def scanSign : List Char → Bool × List Char
  | '-' :: l => (true, l)
  | '+' :: l => (false, l)
  | l => (false, l)

def scanExponent : List Char → Option (Option (Bool × List Char) × List Char)
  | c :: l =>
    if c = 'e' ∨ c = 'E' then
      let (negative, l) := scanSign l
      (scanDigits l).map fun (ds, l) => (some (negative, ds), l)
    else some (none, c :: l)
  | [] => some (none, [])

def scanUnsigned (negative : Bool) (l : List Char) : Option (Numeral × List Char) := do
  let (whole, l) ← scanWhole l
  let (fraction, l) ← scanFraction l
  let (exponent, l) ← scanExponent l
  return (⟨negative, whole, fraction, exponent⟩, l)

def scan : List Char → Option (Numeral × List Char)
  | '-' :: l => scanUnsigned true l
  | l => scanUnsigned false l

def nat? (n : Numeral) : Option Nat :=
  if n.negative ∨ n.fraction ≠ [] ∨ n.exponent.isSome then none
  else if ofDigits n.whole < wordSize then some (ofDigits n.whole)
  else none

def accumulate : Nat → List Char → Nat × List Char
  | n, [] => (n, [])
  | n, d :: ds =>
    let m := 10 * n + digitValue d
    if m < wordSize then accumulate m ds else (n, d :: ds)

def powerOfTen (e : Nat) : Float := Float.ofScientific 1 false e

def scaleDown (f : Float) (e : Nat) : Float :=
  if e ≤ 308 then f / powerOfTen e
  else if f == 0.0 then f
  else scaleDown (f / powerOfTen 308) (e - 308)
termination_by e
decreasing_by omega

def scaleUp (f : Float) (e : Nat) : Option Float :=
  if e ≤ 308 then
    let g := f * powerOfTen e
    if g.isInf then none else some g
  else if f == 0.0 then some f
  else none

def scaleBy (f : Float) : Int → Option Float
  | .ofNat e => scaleUp f e
  | .negSucc e => some (scaleDown f (e + 1))

/-- Exponents beyond this leave only zero or nothing at all. -/
def exponentLimit : Nat := 0x7fffffff

/-- The magnitude as a double. Digits that do not fit a significand of 64 bits are dropped, and the
result of one multiplication or division is rounded once more, so it may be off by a unit in the
last place. -/
def magnitude? (n : Numeral) : Option Float :=
  let (significand, dropped) := accumulate 0 n.whole
  let (significand, unread) := accumulate significand n.fraction
  let shift : Int := (dropped.length : Int) - (n.fraction.length - unread.length : Nat)
  let f := Float.ofNat significand
  match n.exponent with
  | none => scaleBy f shift
  | some (negative, ds) =>
    let e := ofDigits ds
    if e ≤ exponentLimit then scaleBy f (if negative then shift - e else shift + e)
    else if significand ≠ 0 ∧ !negative then none
    else some 0.0

def float? (n : Numeral) : Option Float :=
  n.magnitude?.map fun f => if n.negative then -f else f

theorem length_of_scanDigits {l ds rest : List Char} (h : scanDigits l = some (ds, rest)) :
    rest.length < l.length := by
  simp only [scanDigits] at h
  split at h
  · simp at h
  · next hne =>
    obtain ⟨-, rfl⟩ := Prod.mk.inj (Option.some.inj h)
    have hlen := congrArg List.length (List.takeWhile_append_dropWhile (p := isDigit) (l := l))
    have hpos := List.length_pos_iff.2 hne
    rw [List.length_append] at hlen
    omega

theorem length_of_scanWhole {l ds rest : List Char} (h : scanWhole l = some (ds, rest)) :
    rest.length < l.length := by
  simp only [scanWhole] at h
  split at h
  · simp at h
  · exact length_of_scanDigits h

theorem length_of_scanFraction {l ds rest : List Char} (h : scanFraction l = some (ds, rest)) :
    rest.length ≤ l.length := by
  simp only [scanFraction] at h
  split at h
  · exact Nat.le_succ_of_le (Nat.le_of_lt (length_of_scanDigits h))
  · obtain ⟨-, rfl⟩ := Prod.mk.inj (Option.some.inj h)
    exact Nat.le_refl _

theorem length_scanSign (l : List Char) : (scanSign l).2.length ≤ l.length := by
  simp only [scanSign]
  split <;> simp

theorem length_of_scanExponent {l rest : List Char} {e : Option (Bool × List Char)}
    (h : scanExponent l = some (e, rest)) : rest.length ≤ l.length := by
  simp only [scanExponent] at h
  split at h
  · next c l =>
    split at h
    · obtain ⟨⟨ds, r⟩, hs, he⟩ := Option.map_eq_some_iff.1 h
      obtain ⟨-, rfl⟩ := Prod.mk.inj he
      have := length_of_scanDigits hs
      have := length_scanSign l
      simp only [List.length_cons]
      omega
    · obtain ⟨-, rfl⟩ := Prod.mk.inj (Option.some.inj h)
      exact Nat.le_refl _
  · obtain ⟨-, rfl⟩ := Prod.mk.inj (Option.some.inj h)
    exact Nat.le_refl _

theorem length_of_scanUnsigned {b : Bool} {l rest : List Char} {n : Numeral}
    (h : scanUnsigned b l = some (n, rest)) : rest.length < l.length := by
  simp only [scanUnsigned, Option.bind_eq_bind, Option.bind_eq_some_iff] at h
  obtain ⟨⟨whole, r₁⟩, h₁, ⟨fraction, r₂⟩, h₂, ⟨exponent, r₃⟩, h₃, he⟩ := h
  dsimp only at h₂ h₃ he
  obtain ⟨-, rfl⟩ := Prod.mk.inj (Option.some.inj he)
  have := length_of_scanWhole h₁
  have := length_of_scanFraction h₂
  have := length_of_scanExponent h₃
  omega

theorem length_of_scan {l rest : List Char} {n : Numeral} (h : scan l = some (n, rest)) :
    rest.length < l.length := by
  simp only [scan] at h
  split at h
  · exact Nat.lt_succ_of_lt (length_of_scanUnsigned h)
  · exact length_of_scanUnsigned h

end Numeral
end MeshNumbering.Json
