import TypeCatalog.Number.Shortest
set_option autoImplicit false

/-!
How numbers are written. The plain form never has an exponent; the brief form always has a point or an
exponent, and keeps to positions only from 10 ^ -5 to below 10 ^ 16. Of two decimals that are equally
near the plain form takes the upper, the brief form the even one.
-/

namespace TypeCatalog

def natDigits (n : Nat) : List Char := Nat.toDigits 10 n

namespace Decimal

def positional (d : Decimal) : List Char :=
  let digits := natDigits d.digits
  let point := digits.length + d.exponent
  if 0 ≤ d.exponent then digits ++ List.replicate d.exponent.toNat '0'
  else if 0 < point then digits.take point.toNat ++ '.' :: digits.drop point.toNat
  else ['0', '.'] ++ List.replicate (-point).toNat '0' ++ digits

def scientific (d : Decimal) : List Char :=
  let digits := natDigits d.digits
  let e := digits.length - 1 + d.exponent
  let fraction := if digits.length ≤ 1 then [] else '.' :: digits.drop 1
  digits.take 1 ++ fraction ++ ['e', if e < 0 then '-' else '+'] ++ natDigits e.natAbs

def brief (d : Decimal) : List Char :=
  let e := (natDigits d.digits).length - 1 + d.exponent
  if -5 ≤ e ∧ e ≤ 15 then
    if 0 ≤ d.exponent then d.positional ++ ['.', '0'] else d.positional
  else d.scientific

end Decimal

namespace Binary64

def signed (x : Binary64) (magnitude : List Char) : String :=
  String.ofList (if x.isNegative then '-' :: magnitude else magnitude)

def plain (x : Binary64) : String :=
  if x.isNaN then "NaN"
  else if x.isInfinite then x.signed ['i', 'n', 'f']
  else x.signed (Decimal.shortest .up x).positional

def brief (x : Binary64) : String :=
  if x.isNaN then "NaN"
  else if x.isInfinite then x.signed ['i', 'n', 'f']
  else x.signed (Decimal.shortest .even x).brief

end Binary64

end TypeCatalog
