/-!
This module contains the finite binary floating-point numbers of 64 bits, rounding to the nearest of
them, and the number that a decimal significand with an exponent comes to.

Every such number is a multiple of `2 ^ (-1074)`. The non-negative ones are listed in ascending
order by `Double.units`: the number at place `k` is `units k` times that unit. Up to place `2 ^ 53`
the step between neighbours is one unit, and from there on it doubles every `2 ^ 52` places.
-/

namespace SchemaMigration

namespace Double

def doublingLength : Nat := 0x10000000000000

def placeCount : Nat := 0x7FF * doublingLength

def doublings (place : Nat) : Nat := place / doublingLength - 1

def units (place : Nat) : Nat :=
  (place - doublings place * doublingLength) * Nat.pow 2 (doublings place)

end Double

structure Double where
  negative : Bool
  place : Nat
  place_lt : place < Double.placeCount
  deriving DecidableEq

namespace Double

instance : BEq Double where
  beq x y := x.place == y.place && (x.negative == y.negative || x.place == 0)

/--
The place of the number nearest to `num / den` units. Of two nearest numbers the one at the even
place wins.
-/
def nearestPlace (num den : Nat) : Nat :=
  let shift := (num / den).log2 - 52
  let step := den * Nat.pow 2 shift
  let quotient := num / step
  let twice := 2 * (num % step)
  let up := step < twice ∨ (step = twice ∧ quotient % 2 = 1)
  shift * doublingLength + quotient + (if up then 1 else 0)

def placeOfNat (n : Nat) : Nat := nearestPlace (n * Nat.pow 2 1074) 1

def placeOfPower (exponent : Nat) : Nat := placeOfNat (Nat.pow 10 exponent)

def placeOfProduct (x y : Nat) : Nat := nearestPlace (units x * units y) (Nat.pow 2 1074)

def placeOfQuotient (x y : Nat) : Nat := nearestPlace (units x * Nat.pow 2 1074) (units y)

/--
The place of `significand * 10 ^ exponent`, where the significand, the power of ten and the outcome
are each rounded. Below the least power two divisions are made one after the other.
-/
def placeOfScaled (significand : Nat) (exponent : Int) : Nat :=
  let start := placeOfNat significand
  if significand = 0 then
    0
  else if 308 < exponent then
    placeCount
  else if 0 ≤ exponent then
    placeOfProduct start (placeOfPower exponent.toNat)
  else if -308 ≤ exponent then
    placeOfQuotient start (placeOfPower (-exponent).toNat)
  else if -616 ≤ exponent then
    placeOfQuotient (placeOfQuotient start (placeOfPower 308))
      (placeOfPower (-308 - exponent).toNat)
  else
    -- A significand of 64 bits has come to nothing by the second division.
    0

def ofScaled? (negative : Bool) (significand : Nat) (exponent : Int) : Option Double :=
  let place := placeOfScaled significand exponent
  if h : place < placeCount then some ⟨negative, place, h⟩ else none

end Double

end SchemaMigration
