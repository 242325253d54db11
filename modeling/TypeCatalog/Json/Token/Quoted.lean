import TypeCatalog.Json.Token
import TypeCatalog.Number.Literal
set_option autoImplicit false

/-!
Strings at the front of a text, behind their opening quote. Characters beyond 16 bits are escaped in two
halves. Half a character is a fault where the string is read, but a string that is skipped goes on.
-/

namespace TypeCatalog.Json

def hexUnit? (a b c d : Char) : Option Nat :=
  match Number.hexDigit? a, Number.hexDigit? b, Number.hexDigit? c, Number.hexDigit? d with
  | some a, some b, some c, some d => some (((a * 16 + b) * 16 + c) * 16 + d)
  | _, _, _, _ => none

/-- The fault of fewer than four characters where four digits are due: a text that ends less than four
bytes further breaks off. -/
def shortEscape (cs : List Char) : Fault :=
  if (String.ofList cs).utf8ByteSize < 4 then .truncated else .malformed

def isLead (u : Nat) : Bool := 0xD800 ≤ u && u ≤ 0xDBFF

def isTrail (u : Nat) : Bool := 0xDC00 ≤ u && u ≤ 0xDFFF

def escaped? : Char → Option Char
  | '"' => some '"'
  | '\\' => some '\\'
  | '/' => some '/'
  | 'b' => some '\x08'
  | 'f' => some '\x0c'
  | 'n' => some '\n'
  | 'r' => some '\r'
  | 't' => some '\t'
  | _ => none

/-- What has been read of a string, the last character first, or the fault that reading has met. -/
abbrev Draft := Except Fault (List Char)

def Draft.push (p : Draft) (c : Char) : Draft := p.map (c :: ·)

def Draft.fail (p : Draft) (fault : Fault) : Draft := p.bind fun _ => .error fault

def Draft.halt (p : Draft) (fault : Fault) : Scan :=
  match p with
  | .ok _ => Scan.halt true fault fault
  | .error earlier => Scan.halt true earlier fault

def Draft.close (p : Draft) (rest : List Char) : Scan :=
  match p with
  | .ok cs => (.string (String.ofList cs.reverse), rest)
  | .error _ => (.unpaired, rest)

def halfFault : List Char → Fault
  | [] => .truncated
  | ['\\'] => .truncated
  | '\\' :: 'u' :: cs =>
    match cs with
    | _ :: _ :: _ :: _ :: _ => .malformed
    | cs => shortEscape cs
  | _ => .malformed

def scanString : Draft → List Char → Scan
  | p, [] => p.halt .truncated
  | p, '"' :: cs => p.close cs
  | p, ['\\'] => p.halt .truncated
  | p, '\\' :: 'u' :: a :: b :: c :: d :: cs =>
    match hexUnit? a b c d with
    | none => p.halt .malformed
    | some u =>
      if isTrail u then scanString (p.fail .malformed) cs
      else if isLead u then
        match cs with
        | '\\' :: 'u' :: a' :: b' :: c' :: d' :: cs' =>
          match (hexUnit? a' b' c' d').filter isTrail with
          | some v =>
            scanString (p.push (Char.ofNat (0x10000 + (u - 0xD800) * 0x400 + (v - 0xDC00)))) cs'
          | none => scanString (p.fail .malformed) ('\\' :: 'u' :: a' :: b' :: c' :: d' :: cs')
        | cs => scanString (p.fail (halfFault cs)) cs
      else scanString (p.push (Char.ofNat u)) cs
  | p, '\\' :: 'u' :: cs => p.halt (shortEscape cs)
  | p, '\\' :: e :: cs =>
    match escaped? e with
    | some c => scanString (p.push c) cs
    | none => p.halt .malformed
  | p, c :: cs => if c < ' ' then p.halt .malformed else scanString (p.push c) cs

theorem Draft.length_halt (p : Draft) (fault : Fault) : (p.halt fault).2 = [] := by
  cases p <;> rfl

theorem Draft.length_close (p : Draft) (rest : List Char) : (p.close rest).2 = rest := by
  cases p <;> rfl

theorem length_scanString_le (p : Draft) (cs : List Char) :
    (scanString p cs).2.length ≤ cs.length := by
  fun_induction scanString p cs <;>
    simp_all only [Draft.length_halt, Draft.length_close, List.length_cons, List.length_nil] <;>
    omega

end TypeCatalog.Json
