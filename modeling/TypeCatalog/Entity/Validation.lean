import TypeCatalog.Catalog
import TypeCatalog.Definition.Primitive
import TypeCatalog.Calendar.Date
import TypeCatalog.Entity.Violation
set_option autoImplicit false

/-!
Validation of entities against the classes of a catalog. All violations are told: for each attribute in
the order of names, then for each field that is no attribute. Structs inside an entity are checked in the
same way against their own type.
-/

namespace TypeCatalog

def isBetween (low high : Int) (i : Int64) : Bool := low ≤ i.toInt && i.toInt ≤ high

/-- Numbers of any size and times may be given as texts. -/
def Primitive.accepts : Primitive → Value → Bool
  | .boolean, .bool _ => true
  | .byte, .int i => isBetween (-128) 127 i
  | .short, .int i => isBetween (-32768) 32767 i
  | .int, .int i => isBetween (-2147483648) 2147483647 i
  | .long, .int _ | .bigInteger, .int _ => true
  | .bigInteger, .string s => Number.isInteger s
  | .float, .int _ | .double, .int _ | .bigDecimal, .int _ => true
  | .float, .float _ | .double, .float _ => true
  | .bigDecimal, .float x => x.isFinite
  | .bigDecimal, .string s => Number.isFiniteReal s
  | .date, .int _ => true
  | .date, .string s => Calendar.isTime s
  | .string, .string _ => true
  | _, _ => false

def Enumeration.accepts (e : Enumeration) : Value → Bool
  | .string s => e.contains s
  | .int i =>
    0 ≤ i.toInt && i.toInt.toNat < UInt32.size && (e.findOrdinal? (UInt32.ofNat i.toInt.toNat)).isSome
  | _ => false

/-- Keys are checked only where they name values of an enumeration. -/
def Catalog.acceptsKey (c : Catalog) (keyType : DataType) (key : String) : Bool :=
  match keyType with
  | .named name =>
    match c.enum? name with
    | some e => e.contains key
    | none => true
  | _ => true

def hasDuplicates : List Value → Bool
  | [] => false
  | v :: vs => vs.any (v.same ·) || hasDuplicates vs

namespace Attribute

/-- The elements of a value where several are allowed: a value that is no array is its only element. -/
def elements (v : Value) : List Value :=
  match v with
  | .array items => items
  | v => [v]

def report (a : Attribute) (owner : String) (flaw : Flaw) : Violation := .flaw owner a.name flaw

def absent (a : Attribute) (owner : String) : List Violation :=
  if a.isRequired then [a.report owner .missing] else []

def emptyUnique (a : Attribute) (owner : String) (vs : List Value) : List Violation :=
  if a.unique && vs.any Value.isBlank then [a.report owner .emptyUnique] else []

/-- What is wrong with the value of an attribute, given what is wrong with it as a value of a data type.
The items of an array are checked as those of an array of the element type. -/
def violations (a : Attribute) (owner : String) (v : Value) (asType : DataType → List Violation) :
    List Violation :=
  match v with
  | .null => a.absent owner
  | v =>
    let t := a.dataType
    if a.multiplicity.isMany then
      let vs := elements v
      (if a.multiplicity.Admits vs.length then []
        else [a.report owner (.count vs.length a.multiplicity)]) ++
      (if a.multiplicity.unique && hasDuplicates vs then [a.report owner .duplicates] else []) ++
      (match v with
        | .array _ => asType (.array t.element)
        | _ => asType t.element) ++
      a.emptyUnique owner vs
    else
      match v with
      | .array _ =>
        if t.isCollection then asType t ++ a.emptyUnique owner [v]
        else [a.report owner (.mismatch t v.shape)]
      | v => asType t ++ a.emptyUnique owner [v]

end Attribute

def Resolved.unknownFields (r : Resolved) (fields : List (String × Value)) : List Violation :=
  (fields.filter fun f => (r.attribute? f.1).isNone).map fun f => .flaw r.name f.1 .unknown

namespace Value

mutual

def violations (c : Catalog) (owner attr : String) : Value → DataType → List Violation
  | v, t =>
    let mismatch := [Violation.flaw owner attr (.mismatch t v.shape)]
    match t with
    | .primitive p => if v.isNull || p.accepts v then [] else mismatch
    | .array t =>
      match v with
      | .array items => itemViolations c owner attr items t
      | _ => mismatch
    | .map keyType t =>
      match v with
      | .struct fields => entryViolations c owner attr fields keyType t
      | _ => mismatch
    | .named name =>
      match c.enum? name with
      | some e => if e.accepts v then [] else mismatch
      | none =>
        match c.type? name with
        | none => mismatch
        | some r =>
          match v with
          | .reference id | .string id => if Text.isBlank id then mismatch else []
          | .struct fields =>
            r.attributes.values.flatMap (fun a => fieldViolations c r.name a fields) ++
              r.unknownFields fields
          | _ => mismatch

def itemViolations (c : Catalog) (owner attr : String) : List Value → DataType → List Violation
  | [], _ => []
  | v :: vs, t => violations c owner attr v t ++ itemViolations c owner attr vs t

def entryViolations (c : Catalog) (owner attr : String) :
    List (String × Value) → DataType → DataType → List Violation
  | [], _, _ => []
  | (key, v) :: fields, keyType, t =>
    (if c.acceptsKey keyType key then []
      else [.flaw owner attr (.mismatch keyType .string)]) ++
    violations c owner attr v t ++ entryViolations c owner attr fields keyType t

def fieldViolations (c : Catalog) (owner : String) (a : Attribute) :
    List (String × Value) → List Violation
  | [] => a.absent owner
  | (name, v) :: fields =>
    if name = a.name then a.violations owner v (fun t => violations c owner a.name v t)
    else fieldViolations c owner a fields

end

end Value

namespace Catalog

def fieldsViolations (c : Catalog) (r : Resolved) (fields : List (String × Value)) : List Violation :=
  r.attributes.values.flatMap (fun a => Value.fieldViolations c r.name a fields) ++
    r.unknownFields fields

/-- All that is wrong with an entity; only classes have entities. -/
def validate (c : Catalog) (type : String) (entity : Entity) : List Violation :=
  match c.type? type with
  | some r =>
    match r.kind with
    | .classType => c.fieldsViolations r entity.entries
    | .traitType => [.notInstantiable type .traitType]
  | none =>
    match c.enum? type with
    | some _ => [.notInstantiable type .enumeration]
    | none => [.unknownType type]

end Catalog

end TypeCatalog
