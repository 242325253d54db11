import TypeCatalog.Text.Blank
import TypeCatalog.Definition.Primitive
set_option autoImplicit false

/-!
Data types of attributes and the names that are written for them. A collection is written `array<T>` or
`map<K,V>`; any other name that is no primitive stands for a type of its own, and so does a collection
that is written wrongly.
-/

namespace TypeCatalog

inductive DataType where
  | primitive (p : Primitive)
  | array (element : DataType)
  | map (key value : DataType)
  | named (name : String)
  deriving DecidableEq, Repr

namespace DataType

def behind? : List Char → List Char → Option (List Char)
  | [], cs => some cs
  | _ :: _, [] => none
  | w :: ws, c :: cs => if w = c then behind? ws cs else none

def before? (word cs : List Char) : Option (List Char) :=
  (behind? word.reverse cs.reverse).map List.reverse

def inside? (keyword cs : List Char) : Option (List Char) :=
  (behind? keyword cs).bind fun rest =>
    (behind? ['<'] (Text.trimLeft rest)).bind (before? ['>'])

/-- The two sides of the first comma outside all angle brackets, at a nesting depth. -/
def splitComma? : Nat → List Char → Option (List Char × List Char)
  | _, [] => none
  | 0, '>' :: _ => none
  | 0, ',' :: cs => some ([], cs)
  | depth + 1, '>' :: cs => (splitComma? depth cs).map fun s => ('>' :: s.1, s.2)
  | depth, '<' :: cs => (splitComma? (depth + 1) cs).map fun s => ('<' :: s.1, s.2)
  | depth, c :: cs => (splitComma? depth cs).map fun s => (c :: s.1, s.2)

theorem eq_append_of_behind? {word cs rest : List Char} (h : behind? word cs = some rest) :
    cs = word ++ rest := by
  fun_induction behind? word cs with
  | case1 => simpa using h
  | case2 => simp at h
  | case3 w ws cs ih => rw [ih h]; rfl
  | case4 => simp at h

theorem eq_append_of_before? {word cs rest : List Char} (h : before? word cs = some rest) :
    cs = rest ++ word := by
  obtain ⟨r, hr, rfl⟩ := Option.map_eq_some_iff.1 h
  simpa using congrArg List.reverse (eq_append_of_behind? hr)

theorem length_lt_of_inside? {keyword cs inner : List Char} (h : inside? keyword cs = some inner) :
    inner.length < cs.length := by
  obtain ⟨r₁, h₁, h⟩ := Option.bind_eq_some_iff.1 h
  obtain ⟨r₂, h₂, h₃⟩ := Option.bind_eq_some_iff.1 h
  have l₁ := congrArg List.length (eq_append_of_behind? h₁)
  have l₂ := congrArg List.length (eq_append_of_behind? h₂)
  have l₃ := congrArg List.length (eq_append_of_before? h₃)
  have l := Text.length_trimLeft_le r₁
  simp at l₁ l₂ l₃
  omega

theorem eq_append_of_splitComma? {depth : Nat} {cs k v : List Char}
    (h : splitComma? depth cs = some (k, v)) : cs = k ++ ',' :: v := by
  fun_induction splitComma? depth cs generalizing k v with
  | case1 => simp at h
  | case2 => simp at h
  | case3 cs => simp at h; obtain ⟨rfl, rfl⟩ := h; rfl
  | case4 depth cs ih | case5 depth cs ih | case6 depth c cs _ _ _ _ ih =>
    obtain ⟨⟨a, b⟩, hs, he⟩ := Option.map_eq_some_iff.1 h
    cases he
    rw [ih hs]
    rfl

def parse (cs : List Char) : DataType :=
  match Primitive.ofName? (String.ofList (Text.trim cs)) with
  | some p => .primitive p
  | none =>
    match _ha : inside? ['a', 'r', 'r', 'a', 'y'] (Text.trim cs) with
    | some inner => .array (parse inner)
    | none =>
      match _hm : (inside? ['m', 'a', 'p'] (Text.trim cs)).bind (splitComma? 0) with
      | some (k, v) => .map (parse k) (parse v)
      | none => .named (String.ofList (Text.trim cs))
  termination_by cs.length
  decreasing_by
    · have h₁ := length_lt_of_inside? _ha
      have h₂ := Text.length_trim_le cs
      omega
    all_goals
      obtain ⟨inner, hi, hs⟩ := Option.bind_eq_some_iff.1 _hm
      have h₁ := length_lt_of_inside? hi
      have h₂ := Text.length_trim_le cs
      have h₃ := congrArg List.length (eq_append_of_splitComma? hs)
      simp only [List.length_append, List.length_cons] at h₃
      omega

def ofName (name : String) : DataType := parse name.toList

def chars : DataType → List Char
  | .primitive p => p.name.toList
  | .array element => ['a', 'r', 'r', 'a', 'y', '<'] ++ element.chars ++ ['>']
  | .map key value => ['m', 'a', 'p', '<'] ++ key.chars ++ [','] ++ value.chars ++ ['>']
  | .named name => name.toList

def name (t : DataType) : String := String.ofList t.chars

def references : DataType → List String
  | .primitive _ => []
  | .array element => element.references
  | .map key value => key.references ++ value.references
  | .named name => [name]

def isCollection : DataType → Bool
  | .array _ | .map _ _ => true
  | _ => false

/-- The type of an array's elements; any other type is its own. -/
def element : DataType → DataType
  | .array element => element
  | t => t

end DataType

end TypeCatalog
