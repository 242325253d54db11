import TypeCatalog.Number.Binary64
set_option autoImplicit false

/-!
The shortest decimal of a number: among all decimals that round to the number those with the fewest
digits, and of these the nearest. A decimal rounds to a number when it lies between the halfway points
to its neighbours, which count exactly when the number's own m is even. Two decimals can be equally near.
-/

namespace TypeCatalog

structure Decimal where
  digits : Nat
  exponent : Int
  deriving DecidableEq, Repr

/-- Which of two neighbouring decimals stands for a number halfway between them. -/
inductive Tie where
  | up
  | even
  deriving DecidableEq, Repr

def Tie.takesLow (tie : Tie) (low : Nat) (middle : Ordering) : Bool :=
  match middle, tie with
  | .gt, _ => true
  | .lt, _ | .eq, .up => false
  | .eq, .even => low % 2 == 0

namespace Decimal

/-- The order of a · 10 ^ i and n · 2 ^ j. -/
def compareScaled (a : Nat) (i : Int) (n : Nat) (j : Int) : Ordering :=
  compare (a * tenPower i * twoPower (-j)) (n * twoPower j * tenPower (-i))

def readsBack (x : Binary64) (d : Decimal) : Bool :=
  let m := x.significand
  let low := if x.narrowBelow then 4 * m - 1 else 4 * m - 2
  let high := 4 * m + 2
  let closed := m % 2 == 0
  let atLow := compareScaled d.digits d.exponent low (x.exponent - 2)
  let atHigh := compareScaled d.digits d.exponent high (x.exponent - 2)
  (atLow == .gt || closed && atLow == .eq) && (atHigh == .lt || closed && atHigh == .eq)

/-- The least k with the positive number below 10 ^ k. -/
def scale (x : Binary64) : Int :=
  let guess := ((x.significand.log2 + x.exponent) * 30103).fdiv 100000
  let below (k : Int) : Bool := compareScaled 1 k x.significand x.exponent == .gt
  if below guess then guess else if below (guess + 1) then guess + 1 else guess + 2

def floorAt (x : Binary64) (e : Int) : Nat :=
  x.numerator * tenPower (-e) / (x.denominator * tenPower e)

def onGrid? (tie : Tie) (x : Binary64) (e : Int) : Option Decimal :=
  let n := floorAt x e
  let low : Decimal := ⟨n, e⟩
  let high : Decimal := ⟨n + 1, e⟩
  match readsBack x low, readsBack x high with
  | true, true =>
    if tie.takesLow n (compareScaled (2 * n + 1) e (2 * x.significand) x.exponent) then some low
    else some high
  | true, false => some low
  | false, true => some high
  | false, false => none

def strip : Nat → Decimal → Decimal
  | 0, d => d
  | n + 1, d => if d.digits % 10 = 0 ∧ d.digits ≠ 0 then strip n ⟨d.digits / 10, d.exponent + 1⟩ else d

def exact (x : Binary64) : Decimal :=
  ⟨x.numerator * tenPower (-x.exponent) / x.denominator, min x.exponent 0⟩

/-- Seventeen digits are enough for every number. -/
def shortest (tie : Tie) (x : Binary64) : Decimal :=
  if x.isZero then ⟨0, 0⟩
  else
    let k := scale x
    match (List.range 17).findSome? fun (n : Nat) => onGrid? tie x (k - (n + 1)) with
    | some d => strip 17 d
    | none => exact x

end Decimal

end TypeCatalog
