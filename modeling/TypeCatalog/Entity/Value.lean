import TypeCatalog.SortedMap
import TypeCatalog.Json.Basic
import TypeCatalog.Text.Blank
set_option autoImplicit false

namespace TypeCatalog

inductive Value where
  | null
  | bool (b : Bool)
  | int (i : Int64)
  | float (x : Binary64)
  | string (s : String)
  | array (items : List Value)
  | struct (fields : List (String × Value))
  /-- Another entity, by its identifier. -/
  | reference (id : String)

inductive Shape where
  | null
  | bool
  | int
  | float
  | string
  | array
  | struct
  | reference
  deriving DecidableEq, Repr

def Shape.name : Shape → String
  | .null => "null"
  | .bool => "bool"
  | .int => "int"
  | .float => "float"
  | .string => "string"
  | .array => "array"
  | .struct => "struct"
  | .reference => "reference"

namespace Value

def shape : Value → Shape
  | .null => .null
  | .bool _ => .bool
  | .int _ => .int
  | .float _ => .float
  | .string _ => .string
  | .array _ => .array
  | .struct _ => .struct
  | .reference _ => .reference

def isNull : Value → Bool
  | .null => true
  | _ => false

def isBlank : Value → Bool
  | .null => true
  | .string s | .reference s => Text.isBlank s
  | _ => false

def text? : Value → Option String
  | .string s => some s
  | _ => none

def ofFields (fields : NameMap Value) : Value := .struct fields.entries

def ofOption {α : Type} (f : α → Value) : Option α → Value
  | none => .null
  | some a => f a

def ofList {α : Type} (f : α → Value) (as : List α) : Value := .array (as.map f)

mutual

/-- Equality of values; floating-point numbers are compared as numbers. -/
def same : Value → Value → Bool
  | .null, .null => true
  | .bool a, .bool b => a == b
  | .int a, .int b => a == b
  | .float a, .float b => a.same b
  | .string a, .string b => a == b
  | .array as, .array bs => sameItems as bs
  | .struct fs, .struct gs => sameFields fs gs
  | .reference a, .reference b => a == b
  | _, _ => false

def sameItems : List Value → List Value → Bool
  | [], [] => true
  | a :: as, b :: bs => same a b && sameItems as bs
  | _, _ => false

def sameFields : List (String × Value) → List (String × Value) → Bool
  | [], [] => true
  | (n, a) :: fs, (m, b) :: gs => n == m && same a b && sameFields fs gs
  | _, _ => false

end

mutual

def render : Value → String
  | .null => "null"
  | .bool b => if b then "true" else "false"
  | .int i => toString i.toInt
  | .float x => x.plain
  | .string s => "\"" ++ s ++ "\""
  | .array items => "[" ++ ", ".intercalate (renderItems items) ++ "]"
  | .struct fields => "\x7b" ++ ", ".intercalate (renderFields fields) ++ "\x7d"
  | .reference id => "@" ++ id

def renderItems : List Value → List String
  | [] => []
  | v :: vs => render v :: renderItems vs

def renderFields : List (String × Value) → List String
  | [] => []
  | (name, v) :: fields => (name ++ ": " ++ render v) :: renderFields fields

end

/-- Integers beyond 64 bits with a sign become floating-point numbers. -/
def ofNumeral : Numeral → Value
  | .integer i =>
    if Int64.minValue.toInt ≤ i ∧ i ≤ Int64.maxValue.toInt then .int (Int64.ofInt i)
    else .float (Binary64.ofInt i)
  | .real x => .float x

mutual

/-- Of several members with one name the last one counts. -/
def ofJson : Json → Value
  | .null => .null
  | .bool b => .bool b
  | .number n => ofNumeral n
  | .string s => .string s
  | .array items => .array (ofItems items)
  | .object members => ofFields (SortedMap.ofList (ofMembers members))

def ofItems : List Json → List Value
  | [] => []
  | j :: js => ofJson j :: ofItems js

def ofMembers : List (String × Json) → List (String × Value)
  | [] => []
  | (name, j) :: members => (name, ofJson j) :: ofMembers members

end

end Value

abbrev Entity := NameMap Value

def Entity.ofMembers (members : List (String × Json)) : Entity :=
  SortedMap.ofList (Value.ofMembers members)

end TypeCatalog
