set_option autoImplicit false

namespace TypeCatalog

inductive BoundsFault where
  | noRoom
  | crossed
  | singletonSet
  deriving DecidableEq, Repr

def BoundsFault.message : BoundsFault → String
  | .noRoom => "upper bound must be at least 1"
  | .crossed => "lower bound exceeds upper bound"
  | .singletonSet => "uniqueness requires a multi-valued upper bound"

def BoundsFault.of? (lower : UInt32) (upper : Option UInt32) (unique : Bool) : Option BoundsFault :=
  match upper with
  | none => none
  | some u =>
    if u = 0 then some .noRoom
    else if u < lower then some .crossed
    else if u = 1 ∧ unique = true then some .singletonSet
    else none

structure Multiplicity where
  lower : UInt32
  upper : Option UInt32
  unique : Bool
  sound : BoundsFault.of? lower upper unique = none
  deriving DecidableEq

namespace Multiplicity

def make (lower : UInt32) (upper : Option UInt32) (unique : Bool) : Except BoundsFault Multiplicity :=
  match h : BoundsFault.of? lower upper unique with
  | none => .ok ⟨lower, upper, unique, h⟩
  | some fault => .error fault

@[simp] theorem make_self (m : Multiplicity) : make m.lower m.upper m.unique = .ok m := by
  have h := m.sound
  unfold make
  split <;> simp_all

def required : Multiplicity := ⟨1, some 1, false, by decide⟩

def optional : Multiplicity := ⟨0, some 1, false, by decide⟩

def collection : Multiplicity := ⟨0, none, false, by decide⟩

def set : Multiplicity := ⟨0, none, true, by decide⟩

instance : Inhabited Multiplicity := ⟨optional⟩

def isRequired (m : Multiplicity) : Bool := 0 < m.lower

def isMany (m : Multiplicity) : Bool :=
  match m.upper with
  | none => true
  | some u => 1 < u

def Admits (m : Multiplicity) (count : Nat) : Prop :=
  m.lower.toNat ≤ count ∧ ∀ u ∈ m.upper, count ≤ u.toNat

instance (m : Multiplicity) (count : Nat) : Decidable (m.Admits count) := by
  unfold Admits
  cases m.upper with
  | none => exact decidable_of_iff (m.lower.toNat ≤ count) (by simp)
  | some u => exact decidable_of_iff (m.lower.toNat ≤ count ∧ count ≤ u.toNat) (by simp)

def render (m : Multiplicity) : String :=
  let upper := match m.upper with
    | none => "*"
    | some u => toString u.toNat
  "[" ++ toString m.lower.toNat ++ ".." ++ upper ++ "]" ++ (if m.unique then " unique" else "")

end Multiplicity

end TypeCatalog
