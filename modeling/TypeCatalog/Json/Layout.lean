import TypeCatalog.Json.Basic
set_option autoImplicit false

namespace TypeCatalog

def Numeral.chars : Numeral → List Char
  | .integer i => if i < 0 then '-' :: natDigits i.natAbs else natDigits i.natAbs
  | .real x => x.brief.toList

namespace Json

structure Style where
  /-- What stands before an item at a depth, and before a closing bracket. -/
  line : Nat → List Char
  colon : List Char

def Style.compact : Style := ⟨fun _ => [], [':']⟩

def Style.pretty : Style := ⟨fun depth => '\n' :: List.replicate (2 * depth) ' ', [':', ' ']⟩

def escape (c : Char) : List Char :=
  match c with
  | '"' => ['\\', '"']
  | '\\' => ['\\', '\\']
  | '\x08' => ['\\', 'b']
  | '\x0c' => ['\\', 'f']
  | '\n' => ['\\', 'n']
  | '\r' => ['\\', 'r']
  | '\t' => ['\\', 't']
  | c => if c < ' ' then ['\\', 'u', '0', '0', Nat.digitChar (c.toNat / 16), Nat.digitChar (c.toNat % 16)] else [c]

def quoted (s : String) : List Char := '"' :: s.toList.flatMap escape ++ ['"']

def enclose (style : Style) (depth : Nat) (first last : Char) (items : List (List Char)) : List Char :=
  match items with
  | [] => [first, last]
  | item :: items =>
    first :: style.line (depth + 1) ++ item ++
      items.flatMap (fun item => ',' :: style.line (depth + 1) ++ item) ++
      style.line depth ++ [last]

mutual

def render (style : Style) (depth : Nat) : Json → List Char
  | .null => ['n', 'u', 'l', 'l']
  | .bool true => ['t', 'r', 'u', 'e']
  | .bool false => ['f', 'a', 'l', 's', 'e']
  | .number n => n.chars
  | .string s => quoted s
  | .array items => enclose style depth '[' ']' (renderItems style (depth + 1) items)
  | .object members => enclose style depth '{' '}' (renderMembers style (depth + 1) members)

def renderItems (style : Style) (depth : Nat) : List Json → List (List Char)
  | [] => []
  | j :: js => render style depth j :: renderItems style depth js

def renderMembers (style : Style) (depth : Nat) : List (String × Json) → List (List Char)
  | [] => []
  | (key, j) :: members =>
    (quoted key ++ style.colon ++ render style depth j) :: renderMembers style depth members

end

def compact (j : Json) : String := String.ofList (render .compact 0 j)

def pretty (j : Json) : String := String.ofList (render .pretty 0 j)

end Json

end TypeCatalog
