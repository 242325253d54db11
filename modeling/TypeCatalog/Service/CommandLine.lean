import TypeCatalog.Service.CommandLine.Arguments
set_option autoImplicit false

/-!
The command line. An option takes its value from behind an equals sign or from the next argument. A value
that is an argument of its own is looked at only when the next known option or the end is reached, so an
argument that is not known is told before it.
-/

namespace TypeCatalog.CommandLine

structure State where
  arguments : Arguments := {}
  given : List Switch := []
  pending : Option (Setting × Option String) := none
  /-- Behind two dashes nothing is an option. -/
  closed : Bool := false

/-- What is given twice is refused before its value is looked at. -/
def State.give (s : State) (setting : Setting) (value : Option String) : Except Fault State :=
  match value with
  | none => .error .missingValue
  | some v =>
    if .setting setting ∈ s.given ∧ setting.isRepeatable = false then .error .conflict
    else (s.arguments.set setting v).map fun a =>
      { s with arguments := a, given := .setting setting :: s.given }

def State.raise (s : State) (f : Flag) : Except Fault State :=
  if .flag f ∈ s.given then .error .conflict
  else (s.arguments.raise f).map fun a => { s with arguments := a, given := .flag f :: s.given }

def State.settle (s : State) : Except Fault State :=
  match s.pending with
  | none => .ok s
  | some (setting, value) => State.give { s with pending := none } setting value

def State.option (s : State) (switch : Switch) (attached : Option String) : Except Fault State :=
  match switch, attached with
  | .flag f, none => do
    let s ← s.settle
    s.raise f
  | .flag _, some _ => .error .tooManyValues
  | .setting t, none => do
    let s ← s.settle
    pure { s with pending := some (t, none) }
  | .setting t, some v => do
    let s ← s.settle
    s.give t (some v)

def State.long (s : State) (cs : List Char) : Except Fault State :=
  match longNames.lookup (String.ofList (cs.takeWhile (· != '='))) with
  | none => .error .unknownArgument
  | some switch =>
    match cs.dropWhile (· != '=') with
    | [] => s.option switch none
    | _ :: value => s.option switch (some (String.ofList value))

def State.short (s : State) (c : Char) (rest : List Char) : Except Fault State :=
  match shortNames.lookup c with
  | none => .error .unknownArgument
  | some (.flag f) => s.option (.flag f) none
  | some (.setting t) =>
    match rest with
    | [] => s.option (.setting t) none
    | '=' :: value => s.option (.setting t) (some (String.ofList value))
    | value => s.option (.setting t) (some (String.ofList value))

/-- An argument that is no option is the value of the option before it. -/
def State.plain (s : State) (value : String) : Except Fault State :=
  match s.pending with
  | some (setting, none) => .ok { s with pending := some (setting, some value) }
  | _ => .error .unknownArgument

def State.read (s : State) (argument : String) : Except Fault State :=
  if s.closed then .error .unknownArgument
  else
    match argument.toList with
    | ['-', '-'] => .ok { s with closed := true }
    | '-' :: '-' :: cs => s.long cs
    | ['-'] => s.plain argument
    | '-' :: c :: cs => s.short c cs
    | _ => s.plain argument

def readArguments (arguments : List String) : Except Fault Arguments := do
  let s ← arguments.foldlM State.read ({} : State)
  let s ← s.settle
  pure s.arguments

def parse (arguments : List String) : Except Fault Config :=
  (readArguments arguments).map Arguments.config

end TypeCatalog.CommandLine
