import TypeCatalog.Json.Token.Number
import TypeCatalog.Json.Token.Quoted
set_option autoImplicit false

namespace TypeCatalog.Json

def scanWord (token : Token) : List Char → List Char → Scan
  | [], cs => (token, cs)
  | _ :: _, [] => Scan.halt false .truncated .truncated
  | w :: ws, c :: cs => if w = c then scanWord token ws cs else Scan.stray

theorem length_scanWord_le (token : Token) (ws cs : List Char) :
    (scanWord token ws cs).2.length ≤ cs.length := by
  fun_induction scanWord token ws cs with
  | case1 => simp
  | case2 => simp [Scan.halt]
  | case3 w ws cs ih => simp; omega
  | case4 => simp [Scan.stray, Scan.halt]

def isGap (c : Char) : Bool := c == ' ' || c == '\n' || c == '\t' || c == '\r'

def scanToken (c : Char) (cs : List Char) : Scan :=
  match c with
  | '{' => (.openBrace, cs)
  | '}' => (.closeBrace, cs)
  | '[' => (.openBracket, cs)
  | ']' => (.closeBracket, cs)
  | ':' => (.colon, cs)
  | ',' => (.comma, cs)
  | 'n' => scanWord .null ['u', 'l', 'l'] cs
  | 't' => scanWord (.bool true) ['r', 'u', 'e'] cs
  | 'f' => scanWord (.bool false) ['a', 'l', 's', 'e'] cs
  | '"' => scanString (.ok []) cs
  | '-' => scanNumber true cs
  | c => if c.isDigit then scanNumber false (c :: cs) else Scan.stray

theorem length_scanToken_le (c : Char) (cs : List Char) :
    (scanToken c cs).2.length ≤ cs.length := by
  have hd := length_dropWhile_le Char.isDigit cs
  unfold scanToken
  split <;> try exact Nat.le_refl _
  · exact length_scanWord_le _ _ _
  · exact length_scanWord_le _ _ _
  · exact length_scanWord_le _ _ _
  · exact length_scanString_le _ _
  · exact Nat.le_trans (length_scanNumber_le _ _) hd
  · split
    · next h =>
      have hn := length_scanNumber_le false (c :: cs)
      rw [List.dropWhile_cons_of_pos h] at hn
      exact Nat.le_trans hn hd
    · simp [Scan.stray, Scan.halt]

def scan : List Char → List Token
  | [] => []
  | c :: cs =>
    if isGap c then scan cs
    else (scanToken c cs).1 :: scan (scanToken c cs).2
  termination_by cs => cs.length
  decreasing_by
    · simp
    · exact Nat.lt_succ_of_le (length_scanToken_le c cs)

def tokens (text : String) : List Token := scan text.toList

end TypeCatalog.Json
