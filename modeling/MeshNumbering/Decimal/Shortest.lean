/-! The shortest decimal that reads back as a given binary number. The reals that round to the
number form an interval; the coarsest decimal grid with a point inside it gives the fewest digits,
and of the points on that grid the nearest one is taken. All of it is exact arithmetic on naturals.
-/

namespace MeshNumbering.Decimal

structure Binary where
  significand : Nat
  exponent : Int
  narrow : Bool
deriving DecidableEq

structure Scaled where
  coefficient : Nat
  exponent : Int
deriving DecidableEq

inductive Tie where
  | up
  | even
deriving DecidableEq

def Binary.ofBits (bits : UInt64) : Binary :=
  let fraction := (bits &&& 0xfffffffffffff).toNat
  let biased := ((bits >>> 52) &&& 0x7ff).toNat
  if biased = 0 then ⟨fraction, -1074, false⟩
  else ⟨fraction + 0x10000000000000, (biased : Int) - 1075, fraction = 0 ∧ 1 < biased⟩

def scale (binary decimal : Int) : Nat × Nat :=
  (Nat.pow 2 binary.toNat * Nat.pow 10 (-decimal).toNat,
    Nat.pow 2 (-binary).toNat * Nat.pow 10 decimal.toNat)

/-- The point of the grid `10 ^ exponent` nearest to the number, if one reads back as it. The
interval is closed exactly when the significand is even, and is measured in quarters of a unit. -/
def Binary.onGrid? (x : Binary) (tie : Tie) (exponent : Int) : Option Scaled :=
  let (num, den) := scale (x.exponent - 2) exponent
  let value := 4 * x.significand * num
  let least := (4 * x.significand - if x.narrow then 1 else 2) * num
  let most := (4 * x.significand + 2) * num
  let reads (c : Nat) : Bool :=
    if x.significand % 2 = 0 then least ≤ c * den ∧ c * den ≤ most
    else least < c * den ∧ c * den < most
  let c := value / den
  let down := value - c * den
  let up := (c + 1) * den - value
  let upward := up < down ∨ (up = down ∧ (tie = .up ∨ c % 2 = 1))
  match reads c, reads (c + 1) with
  | true, true => some ⟨if upward then c + 1 else c, exponent⟩
  | true, false => some ⟨c, exponent⟩
  | false, true => some ⟨c + 1, exponent⟩
  | false, false => none

/-- Every double has a point of the finest grid in its interval, so the default is never used. -/
def Binary.shortest (x : Binary) (tie : Tie) : Scaled :=
  ((List.range 634).findSome? fun (i : Nat) => x.onGrid? tie (309 - i)).getD ⟨0, 0⟩

end MeshNumbering.Decimal
