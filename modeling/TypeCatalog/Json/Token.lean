import TypeCatalog.Json.Basic
set_option autoImplicit false

/-!
The tokens of a JSON text. Scanning never fails: where the text cannot be read on, the last token says why.
A value that nobody asks for is only skipped, and skipping forgives more than reading does: a number may
be too large and an escape may leave half of a character. Such tokens have forms of their own.
-/

namespace TypeCatalog.Json

inductive Token where
  | openBrace
  | closeBrace
  | openBracket
  | closeBracket
  | colon
  | comma
  | null
  | bool (b : Bool)
  | number (n : Numeral)
  | outOfRange
  | string (s : String)
  /-- A string with an escape for one half of a character. -/
  | unpaired
  /-- The text cannot be read on, for one fault when read and another when skipped. -/
  | broken (quoted : Bool) (reading skipping : Fault)
  deriving DecidableEq

/-- A token and the text behind it, which ends the text or is shorter than what was scanned. -/
abbrev Scan := Token × List Char

namespace Scan

def halt (quoted : Bool) (reading skipping : Fault) : Scan := (.broken quoted reading skipping, [])

def stray : Scan := halt false .malformed .malformed

end Scan

end TypeCatalog.Json
