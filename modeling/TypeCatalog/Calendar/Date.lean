import TypeCatalog.Text.Blank
import TypeCatalog.Number.Literal
set_option autoImplicit false

namespace TypeCatalog.Calendar

def isLeap (year : Int) : Bool := year % 4 = 0 && (year % 100 ≠ 0 || year % 400 = 0)

def daysIn (year : Int) (month : Nat) : Nat :=
  match month with
  | 2 => if isLeap year then 29 else 28
  | 4 | 6 | 9 | 11 => 30
  | _ => 31

def isYear (year : Int) : Bool := -262143 ≤ year && year ≤ 262142

def isDay (year : Int) (month day : Nat) : Bool :=
  isYear year && 1 ≤ month && month ≤ 12 && 1 ≤ day && day ≤ daysIn year month

def fixed? (width : Nat) (cs : List Char) : Option (Nat × List Char) :=
  let ds := cs.take width
  if ds.length = width ∧ ds.all Char.isDigit then some (Number.ofDigits ds, cs.drop width) else none

def upTo? (width : Nat) (cs : List Char) : Option (Nat × List Char) :=
  let ds := (cs.take width).takeWhile Char.isDigit
  if ds.isEmpty then none else some (Number.ofDigits ds, cs.drop ds.length)

def char? (allowed : List Char) (cs : List Char) : Option (List Char) :=
  match cs with
  | c :: cs => if c ∈ allowed then some cs else none
  | [] => none

def fraction? (cs : List Char) : Option (List Char) :=
  match cs with
  | '.' :: ds => if (ds.takeWhile Char.isDigit).isEmpty then none else some (ds.dropWhile Char.isDigit)
  | cs => some cs

def isOffset (cs : List Char) : Bool :=
  match cs with
  | ['Z'] | ['z'] => true
  | cs =>
    (do
      let cs ← char? ['+', '-', '\u2212'] cs
      let (hours, cs) ← fixed? 2 cs
      let cs ← char? [':'] cs
      let (minutes, cs) ← fixed? 2 cs
      pure (hours ≤ 23 && minutes ≤ 59 && cs.isEmpty)).getD false

/-- A leap second may stand in any minute. -/
def isMoment (cs : List Char) : Bool :=
  (do
    let (year, cs) ← fixed? 4 cs
    let cs ← char? ['-'] cs
    let (month, cs) ← fixed? 2 cs
    let cs ← char? ['-'] cs
    let (day, cs) ← fixed? 2 cs
    let cs ← char? ['T', 't', ' '] cs
    let (hour, cs) ← fixed? 2 cs
    let cs ← char? [':'] cs
    let (minute, cs) ← fixed? 2 cs
    let cs ← char? [':'] cs
    let (second, cs) ← fixed? 2 cs
    let cs ← fraction? cs
    pure (isDay year month day && hour ≤ 23 && minute ≤ 59 && second ≤ 60 && isOffset cs)).getD false

/-- A year has up to four digits, or a sign and any number of them. -/
def year? (cs : List Char) : Option (Int × List Char) :=
  match cs with
  | '-' :: ds => (upTo? ds.length ds).map fun p => (-(p.1 : Int), p.2)
  | '+' :: ds => (upTo? ds.length ds).map fun p => ((p.1 : Int), p.2)
  | cs => (upTo? 4 cs).map fun p => ((p.1 : Int), p.2)

/-- White space may stand before each number. -/
def isDate (cs : List Char) : Bool :=
  (do
    let (year, cs) ← year? (Text.trimLeft cs)
    let cs ← char? ['-'] cs
    let (month, cs) ← upTo? 2 (Text.trimLeft cs)
    let cs ← char? ['-'] cs
    let (day, cs) ← upTo? 2 (Text.trimLeft cs)
    pure (isDay year month day && cs.isEmpty)).getD false

def isTime (s : String) : Bool := isMoment s.toList || isDate s.toList

end TypeCatalog.Calendar
