set_option autoImplicit false

/-!
Binary floating-point numbers of 64 bits, held as their bits. A finite number is m · 2 ^ q for naturals m
below 2 ^ 53; all arithmetic is on such pairs, exactly, with one rounding at the end: to the nearest
number, and to the one with even m where two are equally near.
-/

namespace TypeCatalog

/-- The power of two; below zero it is one. -/
def twoPower (e : Int) : Nat := Nat.pow 2 e.toNat

/-- The power of ten; below zero it is one. -/
def tenPower (e : Int) : Nat := Nat.pow 10 e.toNat

structure Binary64 where
  bits : UInt64
  deriving DecidableEq, Repr

namespace Binary64

def fractions : Nat := 0x10000000000000

def infinityBits : Nat := 2047 * fractions

def signBit : Nat := 2048 * fractions

def isNegative (x : Binary64) : Bool := signBit ≤ x.bits.toNat

def magnitude (x : Binary64) : Nat := x.bits.toNat % signBit

def isNaN (x : Binary64) : Bool := infinityBits < x.magnitude

def isInfinite (x : Binary64) : Bool := x.magnitude == infinityBits

def isFinite (x : Binary64) : Bool := x.magnitude < infinityBits

def isZero (x : Binary64) : Bool := x.magnitude == 0

def ofMagnitude (negative : Bool) (magnitude : Nat) : Binary64 :=
  ⟨UInt64.ofNat (magnitude + if negative then signBit else 0)⟩

/-- Equality of numbers: the zeros are equal, and no NaN equals anything. -/
def same (x y : Binary64) : Bool :=
  !x.isNaN && !y.isNaN && (x.bits == y.bits || x.isZero && y.isZero)

def exponentField (x : Binary64) : Nat := x.magnitude / fractions

def fractionField (x : Binary64) : Nat := x.magnitude % fractions

/-- The m of a finite number. -/
def significand (x : Binary64) : Nat :=
  if x.exponentField = 0 then x.fractionField else fractions + x.fractionField

/-- The q of a finite number. -/
def exponent (x : Binary64) : Int :=
  if x.exponentField = 0 then -1074 else (x.exponentField : Int) - 1075

/-- The next number below is only half as far as the next above. -/
def narrowBelow (x : Binary64) : Bool := x.fractionField == 0 && 1 < x.exponentField

def numerator (x : Binary64) : Nat := x.significand * twoPower x.exponent

def denominator (x : Binary64) : Nat := twoPower (-x.exponent)

/-- A quotient rounded to the nearest natural, a half to the even one. -/
def roundDiv (num den : Nat) : Nat :=
  let k := num / den
  let r := num % den
  if 2 * r < den then k else if den < 2 * r then k + 1 else k + k % 2

/-- The largest e with 2 ^ e at most the quotient, for positive naturals. -/
def floorLog (num den : Nat) : Int :=
  let e : Int := (num.log2 : Int) - den.log2
  if num * twoPower (-e) < den * twoPower e then e - 1 else e

/-- The bits of the number nearest to a quotient; too large a quotient gives infinity. -/
def nearestBits (num den : Nat) : Nat :=
  if num = 0 then 0
  else
    let q := max (floorLog num den - 52) (-1074)
    let m := roundDiv (num * twoPower (-q)) (den * twoPower q)
    min ((q + 1074).toNat * fractions + m) infinityBits

def ofRatio (negative : Bool) (num den : Nat) : Binary64 :=
  ofMagnitude negative (nearestBits num den)

def ofNat (n : Nat) : Binary64 := ofRatio false n 1

def ofInt (i : Int) : Binary64 := ofRatio (i < 0) i.natAbs 1

def neg (x : Binary64) : Binary64 := ofMagnitude (!x.isNegative) x.magnitude

/-- The product with a rounded power of ten, rounded again. -/
def timesTenPower (x : Binary64) (k : Nat) : Binary64 :=
  let p := ofNat (tenPower k)
  ofRatio x.isNegative (x.numerator * p.numerator) (x.denominator * p.denominator)

def overTenPower (x : Binary64) (k : Nat) : Binary64 :=
  let p := ofNat (tenPower k)
  ofRatio x.isNegative (x.numerator * p.denominator) (x.denominator * p.numerator)

def maxTenPower : Nat := 308

/-- Division by a power of ten beyond the largest goes in steps, until nothing is left. -/
def scaledDown (x : Binary64) (k : Nat) : Binary64 :=
  if k ≤ maxTenPower then x.overTenPower k
  else if x.isZero then x
  else scaledDown (x.overTenPower maxTenPower) (k - maxTenPower)
  termination_by k
  decreasing_by simp only [maxTenPower] at *; omega

/-- A natural times a power of ten, rounded at every step; nothing where the product is too large. -/
def scaled? (n : Nat) (e : Int) : Option Binary64 :=
  let x := ofNat n
  if e < 0 then some (x.scaledDown (-e).toNat)
  else if e.toNat ≤ maxTenPower then
    let y := x.timesTenPower e.toNat
    if y.isFinite then some y else none
  else if x.isZero then some x
  else none

end Binary64

end TypeCatalog
