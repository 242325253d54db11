import TypeCatalog.Number.Notation
import TypeCatalog.Text.Quoted
set_option autoImplicit false

namespace TypeCatalog

/-- A JSON number; integers are kept exactly as long as they fit 64 bits. -/
inductive Numeral where
  | integer (i : Int)
  | real (x : Binary64)
  deriving DecidableEq, Repr

/-- The members of an object stand in the order of the text and may repeat a name. -/
inductive Json where
  | null
  | bool (b : Bool)
  | number (n : Numeral)
  | string (s : String)
  | array (items : List Json)
  | object (members : List (String × Json))
  deriving Inhabited

namespace Json

inductive Found where
  | null
  | bool (b : Bool)
  | number (n : Numeral)
  | string (s : String)
  | sequence
  | mapping
  deriving DecidableEq

inductive Mismatch where
  | invalidType (found : Found) (wanted : String)
  | invalidValue (found : Found) (wanted : String)
  | invalidLength (length : Nat) (wanted : String)
  | missingField (name : String)
  | duplicateField (name : String)
  | unknownVariant (name wanted : String)
  deriving DecidableEq

inductive Fault where
  | truncated
  | malformed
  | mismatch (m : Mismatch)
  deriving DecidableEq

def tick (s : String) : String := "`" ++ s ++ "`"

def Found.message : Found → String
  | .null => "null"
  | .bool b => "boolean " ++ tick (if b then "true" else "false")
  | .number (.integer i) => "integer " ++ tick (toString i)
  | .number (.real x) => "floating point " ++ tick x.brief
  | .string s => "string " ++ Text.quote s
  | .sequence => "sequence"
  | .mapping => "map"

def Mismatch.message : Mismatch → String
  | .invalidType found wanted => "invalid type: " ++ found.message ++ ", expected " ++ wanted
  | .invalidValue found wanted => "invalid value: " ++ found.message ++ ", expected " ++ wanted
  | .invalidLength length wanted =>
    "invalid length " ++ toString length ++ ", expected " ++ wanted
  | .missingField name => "missing field " ++ tick name
  | .duplicateField name => "duplicate field " ++ tick name
  | .unknownVariant name wanted => "unknown variant " ++ tick name ++ ", expected " ++ wanted

end Json

end TypeCatalog
