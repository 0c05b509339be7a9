import SchemaMigration.Decimal.Double

/-!
This module contains the shortest decimal text that reads back as a given floating-point number.

All comparisons are exact. A place `k` stands for the reals between the midpoints to its neighbours,
ends included if `k` is even. Twice that interval is taken in units of `2 ^ (-1074)`, and decimal
exponents are counted from `10 ^ (-400)`, so that everything is a natural number.
-/

namespace SchemaMigration.Double

structure Decimal where
  digits : Nat
  exponent : Int
  deriving DecidableEq

def lowestExponent : Int := -400

def gridStep (exponent : Nat) : Nat := Nat.pow 10 exponent * Nat.pow 2 1075

def onGrid (twiceUnits : Nat) : Nat := twiceUnits * Nat.pow 10 400

/--
The given multiple of the step of a grid is closer to the number at the place than to any other, or
a midpoint that rounds to it.
-/
def readsBackAs (place : Nat) (point : Nat) : Bool :=
  let low := onGrid (units (place - 1) + units place)
  let high := onGrid (units place + units (place + 1))
  if place % 2 = 0 then low ≤ point && point ≤ high else low < point && point < high

def gridPoint? (place exponent : Nat) : Option Nat :=
  let step := gridStep exponent
  let value := onGrid (2 * units place)
  let below := value / step
  let above := below + 1
  match readsBackAs place (below * step), readsBackAs place (above * step) with
  | false, false => none
  | true, false => some below
  | false, true => some above
  | true, true =>
    let twice := 2 * (value % step)
    if twice < step ∨ (twice = step ∧ below % 2 = 0) then some below else some above

def Decimal.trim (d : Decimal) : Decimal :=
  go 20 d
where
  go : Nat → Decimal → Decimal
    | 0, d => d
    | rounds + 1, d =>
      if d.digits ≠ 0 ∧ d.digits % 10 = 0 then
        go rounds ⟨d.digits / 10, d.exponent + 1⟩
      else
        d

/--
The decimal number with the fewest digits that reads back as the number at the place. The grids are
tried from the coarsest on; seventeen digits always suffice.
-/
def shortest (place : Nat) : Decimal :=
  let value := onGrid (2 * units place)
  go 17 ((Nat.toDigits 10 (value / gridStep 0)).length - 1)
where
  go : Nat → Nat → Decimal
    | 0, exponent =>
      ⟨onGrid (2 * units place) / gridStep exponent, lowestExponent + exponent⟩
    | rounds + 1, exponent =>
      match gridPoint? place exponent with
      | some digits => Decimal.trim ⟨digits, lowestExponent + exponent⟩
      | none => go rounds (exponent - 1)

end SchemaMigration.Double
