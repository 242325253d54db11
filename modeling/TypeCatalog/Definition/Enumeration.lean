import TypeCatalog.Definition.Defect
set_option autoImplicit false

namespace TypeCatalog

structure EnumValue where
  name : String
  ordinal : UInt32
  deriving DecidableEq, Repr

@[ext] structure Enumeration where
  name : String
  values : List EnumValue
  name_nonblank : Text.isBlank name = false
  values_nonblank : ∀ v ∈ values, Text.isBlank v.name = false
  names_nodup : (values.map EnumValue.name).Nodup
  ordinals_nodup : (values.map EnumValue.ordinal).Nodup

instance : DecidableEq Enumeration := fun _ _ => decidable_of_iff _ Enumeration.ext_iff.symm

namespace Enumeration

/-- The first value that is blank or repeats the name or the ordinal of an earlier one. -/
def defect? (enum : String) : List EnumValue → List EnumValue → Option Defect
  | _, [] => none
  | seen, v :: vs =>
    if Text.isBlank v.name then some (.emptyName .enumValueName)
    else if v.name ∈ seen.map EnumValue.name ∨ v.ordinal ∈ seen.map EnumValue.ordinal then
      some (.duplicateEnumValue enum v.name v.ordinal)
    else defect? enum (v :: seen) vs

theorem sound_of_defect?_eq_none {enum : String} {seen vs : List EnumValue}
    (h : defect? enum seen vs = none) :
    (∀ v ∈ vs, Text.isBlank v.name = false) ∧ (vs.map EnumValue.name).Nodup ∧
      (vs.map EnumValue.ordinal).Nodup ∧
      ∀ v ∈ vs, v.name ∉ seen.map EnumValue.name ∧ v.ordinal ∉ seen.map EnumValue.ordinal := by
  induction vs generalizing seen with
  | nil => simp
  | cons v vs ih =>
    rw [defect?] at h
    split at h
    · simp at h
    · next hblank =>
      split at h
      · simp at h
      · next hseen =>
        obtain ⟨hb, hn, ho, hs⟩ := ih h
        simp only [not_or] at hseen
        refine ⟨?_, ?_, ?_, ?_⟩
        · simpa using ⟨by simpa using hblank, hb⟩
        · refine List.nodup_cons.2 ⟨fun hm => ?_, hn⟩
          obtain ⟨w, hw, he⟩ := List.mem_map.1 hm
          exact (hs w hw).1 (by simp [he])
        · refine List.nodup_cons.2 ⟨fun hm => ?_, ho⟩
          obtain ⟨w, hw, he⟩ := List.mem_map.1 hm
          exact (hs w hw).2 (by simp [he])
        · intro w hw
          rcases List.mem_cons.1 hw with rfl | hw
          · exact hseen
          · have := hs w hw
            simp only [List.map_cons, List.mem_cons, not_or] at this
            exact ⟨this.1.2, this.2.2⟩

def make (name : String) (values : List EnumValue) : Except Defect Enumeration :=
  if hn : Text.isBlank name = false then
    match h : defect? name [] values with
    | none =>
      have hs := sound_of_defect?_eq_none h
      .ok ⟨name, values, hn, hs.1, hs.2.1, hs.2.2.1⟩
    | some d => .error d
  else .error (.emptyName (.typeName .enumeration))

def find? (e : Enumeration) (name : String) : Option EnumValue := e.values.find? (·.name == name)

def findOrdinal? (e : Enumeration) (ordinal : UInt32) : Option EnumValue :=
  e.values.find? (·.ordinal == ordinal)

def contains (e : Enumeration) (name : String) : Bool := e.values.any (·.name == name)

def value (e : Enumeration) (name : String) : Except Defect EnumValue :=
  match e.find? name with
  | some v => .ok v
  | none => .error (.unknownEnumValue e.name name)

def valueOfOrdinal (e : Enumeration) (ordinal : UInt32) : Except Defect EnumValue :=
  match e.findOrdinal? ordinal with
  | some v => .ok v
  | none => .error (.unknownEnumValue e.name (toString ordinal.toNat))

end Enumeration

end TypeCatalog
