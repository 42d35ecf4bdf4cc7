import MeshNumbering.Decimal.Digits
import MeshNumbering.Decimal.Shortest

/-! Written forms of doubles: the shortest digits in a chosen notation, or a fixed number of
places. -/

namespace MeshNumbering.Decimal

/-- How the shortest digits of a double are written. With `positional = some (a, b)` a number is
written out when its decimal point stands more than `a` and at most `b` digits from the first one,
and with a signed exponent otherwise; with `none` it is always written out. -/
structure Style where
  tie : Tie
  positional : Option (Int × Int)
  pointInWhole : Bool
  infinite : String
  undefined : String

def signBit (x : Float) : Bool := x.toBits >>> 63 = 1

def zeros (n : Nat) : List Char := List.replicate n '0'

def writeOut (pointInWhole : Bool) (ds : List Char) (point : Int) : List Char :=
  if (ds.length : Int) ≤ point then
    ds ++ zeros (point.toNat - ds.length) ++ if pointInWhole then ['.', '0'] else []
  else if 0 < point then ds.take point.toNat ++ '.' :: ds.drop point.toNat
  else '0' :: '.' :: zeros (-point).toNat ++ ds

def writeExponent (ds : List Char) (point : Int) : List Char :=
  let e := point - 1
  let power := (if e < 0 then '-' else '+') :: digits e.natAbs
  match ds with
  | d :: f :: fs => d :: '.' :: f :: fs ++ 'e' :: power
  | _ => ds ++ 'e' :: power

def Style.magnitude (s : Style) (x : Float) : List Char :=
  let b := Binary.ofBits x.toBits
  if b.significand = 0 then writeOut s.pointInWhole ['0'] 1
  else
    let d := b.shortest s.tie
    let ds := digits d.coefficient
    let point := ds.length + d.exponent
    match s.positional with
    | none => writeOut s.pointInWhole ds point
    | some (a, b) =>
      if a < point ∧ point ≤ b then writeOut s.pointInWhole ds point else writeExponent ds point

def Style.write (s : Style) (x : Float) : String :=
  if x.isNaN then s.undefined
  else
    (if signBit x then "-" else "") ++
      if x.isInf then s.infinite else String.ofList (s.magnitude x)

def roundDiv (num den : Nat) : Nat :=
  let q := num / den
  let r := num % den
  if den < 2 * r ∨ (2 * r = den ∧ q % 2 = 1) then q + 1 else q

def fixed (places : Nat) (x : Float) : String :=
  if x.isNaN then "NaN"
  else
    (if signBit x then "-" else "") ++
      if x.isInf then "inf"
      else
        let b := Binary.ofBits x.toBits
        let (num, den) := scale b.exponent (-(places : Int))
        let ds := digits (roundDiv (b.significand * num) den)
        let ds := zeros (places + 1 - ds.length) ++ ds
        let whole := ds.length - places
        String.ofList (ds.take whole ++ if places = 0 then [] else '.' :: ds.drop whole)

end MeshNumbering.Decimal
