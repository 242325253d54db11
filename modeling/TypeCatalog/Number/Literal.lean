import TypeCatalog.Number.Binary64
set_option autoImplicit false

namespace TypeCatalog.Number

def digit (c : Char) : Nat := c.toNat - '0'.toNat

def hexDigit? (c : Char) : Option Nat :=
  if c.isDigit then some (digit c)
  else if 'a' ≤ c ∧ c ≤ 'f' then some (c.toNat - 'a'.toNat + 10)
  else if 'A' ≤ c ∧ c ≤ 'F' then some (c.toNat - 'A'.toNat + 10)
  else none

def ofDigits (cs : List Char) : Nat := cs.foldl (fun n c => n * 10 + digit c) 0

def dropSign (cs : List Char) : List Char :=
  match cs with
  | '-' :: ds | '+' :: ds => ds
  | cs => cs

def areDigits (cs : List Char) : Bool := !cs.isEmpty && cs.all Char.isDigit

def isInteger (s : String) : Bool := areDigits (dropSign s.toList)

def below? (limit : Nat) (s : String) : Option Nat :=
  let ds := match s.toList with
    | '+' :: ds => ds
    | ds => ds
  if areDigits ds ∧ ofDigits ds < limit then some (ofDigits ds) else none

def power? : List Char → Option Int
  | [] => some 0
  | c :: cs =>
    if (c = 'e' ∨ c = 'E') ∧ areDigits (dropSign cs) then
      some (if cs.head? = some '-' then -(ofDigits (dropSign cs) : Int) else ofDigits (dropSign cs))
    else none

def real? (cs : List Char) : Option (List Char × Int) :=
  let whole := cs.takeWhile Char.isDigit
  let rest := cs.dropWhile Char.isDigit
  let (fraction, rest) := match rest with
    | '.' :: ds => (ds.takeWhile Char.isDigit, ds.dropWhile Char.isDigit)
    | rest => ([], rest)
  if (whole ++ fraction).isEmpty then none
  else (power? rest).map fun e => (whole ++ fraction, e - fraction.length)

def isFiniteScaled (digits : List Char) (e : Int) : Bool :=
  let ds := digits.dropWhile (· == '0')
  if ds.isEmpty then true
  else if 400 < ds.length + e then false
  else if ds.length + e < 300 then true
  else (Binary64.ofRatio false (ofDigits ds * tenPower e) (tenPower (-e))).isFinite

def isFiniteReal (s : String) : Bool :=
  match real? (dropSign s.toList) with
  | some (digits, e) => isFiniteScaled digits e
  | none => false

end TypeCatalog.Number
