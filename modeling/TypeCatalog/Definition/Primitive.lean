set_option autoImplicit false

namespace TypeCatalog

inductive Primitive where
  | boolean
  | byte
  | short
  | int
  | long
  | float
  | double
  | bigInteger
  | bigDecimal
  | date
  | string
  deriving DecidableEq, Repr

namespace Primitive

def all : List Primitive :=
  [.boolean, .byte, .short, .int, .long, .float, .double, .bigInteger, .bigDecimal, .date, .string]

def name : Primitive → String
  | .boolean => "boolean"
  | .byte => "byte"
  | .short => "short"
  | .int => "int"
  | .long => "long"
  | .float => "float"
  | .double => "double"
  | .bigInteger => "biginteger"
  | .bigDecimal => "bigdecimal"
  | .date => "date"
  | .string => "string"

def ofName? (s : String) : Option Primitive := all.find? fun p => p.name == s

def isIntegral : Primitive → Bool
  | .byte | .short | .int | .long | .bigInteger => true
  | _ => false

def isNumeric : Primitive → Bool
  | .float | .double | .bigDecimal => true
  | p => p.isIntegral

theorem mem_all (p : Primitive) : p ∈ all := by cases p <;> decide

@[simp] theorem ofName?_name (p : Primitive) : ofName? p.name = some p := by
  cases p <;> decide

theorem name_of_ofName? {s : String} {p : Primitive} (h : ofName? s = some p) : p.name = s := by
  have := List.find?_some h
  simpa using this

end Primitive

end TypeCatalog
