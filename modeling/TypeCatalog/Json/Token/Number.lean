import TypeCatalog.Json.Token
import TypeCatalog.Number.Literal
set_option autoImplicit false

/-!
Numbers at the front of a text. A significand keeps as many digits as fit 64 bits, and the rest of the
number is a power of ten, so a long number may be read a little beside the nearest one.
-/

namespace TypeCatalog.Json

/-- Digits are added to a significand as long as it fits 64 bits; the rest is given back. -/
def significand : Nat → List Char → Nat × List Char
  | n, [] => (n, [])
  | n, c :: cs =>
    if n * 10 + Number.digit c < UInt64.size then significand (n * 10 + Number.digit c) cs else (n, c :: cs)

/-- A number by its parts: a point or an exponent makes it real, and so does an integer too long. -/
def numeral? (negative : Bool) (whole : List Char) (fraction : Option (List Char))
    (exponent : Option Int) : Option Numeral :=
  let (n, dropped) := significand 0 whole
  let (n', dropped') := significand n (fraction.getD [])
  let used := (fraction.getD []).length - dropped'.length
  let real := (Binary64.scaled? n' (dropped.length - used + exponent.getD 0)).map fun x =>
    Numeral.real (if negative then x.neg else x)
  if fraction.isNone && exponent.isNone && dropped.isEmpty then
    if !negative then some (.integer n)
    else if 0 < n && 2 * n ≤ UInt64.size then some (.integer (-n))
    else real
  else real

def numberToken (n : Option Numeral) : Token :=
  match n with
  | some n => .number n
  | none => .outOfRange

def digitMissing (cs : List Char) : Scan :=
  Scan.halt false (if cs.isEmpty then .truncated else .malformed) .malformed

def scanExponent (finish : Option Int → Option Numeral) : List Char → Scan
  | [] => (numberToken (finish none), [])
  | c :: cs =>
    if c = 'e' ∨ c = 'E' then
      let negative := cs.head? = some '-'
      let ds := if cs.head? = some '-' ∨ cs.head? = some '+' then cs.drop 1 else cs
      let power := Number.ofDigits (ds.takeWhile Char.isDigit)
      if (ds.takeWhile Char.isDigit).isEmpty then digitMissing ds
      else
        (numberToken (finish (some (if negative then -power else power))), ds.dropWhile Char.isDigit)
    else (numberToken (finish none), c :: cs)

def scanFraction (finish : Option (List Char) → Option Int → Option Numeral) : List Char → Scan
  | '.' :: cs =>
    if (cs.takeWhile Char.isDigit).isEmpty then digitMissing cs
    else scanExponent (finish (some (cs.takeWhile Char.isDigit))) (cs.dropWhile Char.isDigit)
  | cs => scanExponent (finish none) cs

/-- A number without its sign; a leading zero stands alone. -/
def scanNumber (negative : Bool) (cs : List Char) : Scan :=
  let whole := cs.takeWhile Char.isDigit
  if whole.isEmpty then digitMissing cs
  else if whole.head? = some '0' ∧ 1 < whole.length then Scan.stray
  else scanFraction (numeral? negative whole) (cs.dropWhile Char.isDigit)

theorem length_dropWhile_le (p : Char → Bool) (cs : List Char) :
    (cs.dropWhile p).length ≤ cs.length := (List.dropWhile_suffix p).length_le

theorem length_scanExponent_le (finish : Option Int → Option Numeral) (cs : List Char) :
    (scanExponent finish cs).2.length ≤ cs.length := by
  cases cs with
  | nil => simp [scanExponent]
  | cons c cs =>
    simp only [scanExponent]
    split
    · generalize hds : (if cs.head? = some '-' ∨ cs.head? = some '+' then cs.drop 1 else cs) = ds
      have hl : ds.length ≤ cs.length := by
        rw [← hds]
        split <;> simp
      split
      · simp [digitMissing, Scan.halt]
      · have := length_dropWhile_le Char.isDigit ds
        simp only [List.length_cons]
        omega
    · simp

theorem length_scanFraction_le (finish : Option (List Char) → Option Int → Option Numeral)
    (cs : List Char) : (scanFraction finish cs).2.length ≤ cs.length := by
  unfold scanFraction
  split
  · next cs =>
    split
    · simp [digitMissing, Scan.halt]
    · have h₁ := length_scanExponent_le (finish (some (cs.takeWhile Char.isDigit)))
        (cs.dropWhile Char.isDigit)
      have h₂ := length_dropWhile_le Char.isDigit cs
      simp only [List.length_cons]
      omega
  · exact length_scanExponent_le _ _

theorem length_scanNumber_le (negative : Bool) (cs : List Char) :
    (scanNumber negative cs).2.length ≤ (cs.dropWhile Char.isDigit).length := by
  unfold scanNumber
  simp only
  split
  · simp [digitMissing, Scan.halt]
  · split
    · simp [Scan.stray, Scan.halt]
    · exact length_scanFraction_le _ _

end TypeCatalog.Json
