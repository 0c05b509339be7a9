import SchemaMigration.Decimal.Shortest

/-!
This module contains the text of floating-point numbers: the shortest digits that read back, written
plainly with at least one decimal for moderate sizes, and with an exponent otherwise.
-/

namespace SchemaMigration.Double

def isPlain (exponent : Int) : Bool := -5 ≤ exponent && exponent ≤ 15

def plain (digits : List Char) (exponent : Int) : List Char :=
  if exponent < 0 then
    ['0', '.'] ++ List.replicate ((-exponent).toNat - 1) '0' ++ digits
  else
    let whole := exponent.toNat + 1
    if digits.length ≤ whole then
      digits ++ List.replicate (whole - digits.length) '0' ++ ['.', '0']
    else
      digits.take whole ++ ['.'] ++ digits.drop whole

def scientific (digits : List Char) (exponent : Int) : List Char :=
  let sign := if exponent < 0 then '-' else '+'
  let fraction :=
    match digits.drop 1 with
    | [] => []
    | rest => '.' :: rest
  digits.take 1 ++ fraction ++ ['e', sign] ++ Nat.toDigits 10 exponent.natAbs

def magnitudeText (place : Nat) : List Char :=
  if place = 0 then
    ['0', '.', '0']
  else
    let d := shortest place
    let digits := Nat.toDigits 10 d.digits
    let exponent := d.exponent + (digits.length - 1 : Nat)
    if isPlain exponent then plain digits exponent else scientific digits exponent

def text (x : Double) : List Char :=
  if x.negative then '-' :: magnitudeText x.place else magnitudeText x.place

end SchemaMigration.Double
