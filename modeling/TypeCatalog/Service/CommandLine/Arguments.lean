import TypeCatalog.Cluster.Identity
set_option autoImplicit false

namespace TypeCatalog

structure Config where
  dataPath : String := "./data"
  /-- Schema documents to load at the start, in this order. -/
  bootstrap : List String := []
  lineageTypes : Bool := true
  port : UInt16 := 21000
  cluster : Cluster := {}
  deriving DecidableEq

namespace CommandLine

inductive Flag where
  | noLineageTypes
  | clusterEnabled
  | secure
  | help
  | version
  deriving DecidableEq, Repr

inductive Setting where
  | dataPath
  | bootstrap
  | port
  | server
  | sharedConnect
  | ownConnect
  | retrySleep
  | retries
  | sessionTimeout
  deriving DecidableEq, Repr

inductive Switch where
  | flag (f : Flag)
  | setting (s : Setting)
  deriving DecidableEq, Repr

/-- Why arguments make no configuration: they are wrong, or ask for something else. -/
inductive Fault where
  | unknownArgument
  | missingValue
  | invalidValue
  | conflict
  | tooManyValues
  | help
  | version
  deriving DecidableEq, Repr

def longNames : List (String × Switch) :=
  [("data-path", .setting .dataPath), ("bootstrap", .setting .bootstrap),
    ("no-lineage-types", .flag .noLineageTypes), ("app-port", .setting .port),
    ("ha-enabled", .flag .clusterEnabled), ("server-id", .setting .server), ("tls", .flag .secure),
    ("zookeeper-connect", .setting .sharedConnect),
    ("ha-zookeeper-connect", .setting .ownConnect),
    ("zookeeper-retry-sleep-ms", .setting .retrySleep),
    ("zookeeper-num-retries", .setting .retries),
    ("zookeeper-session-timeout-ms", .setting .sessionTimeout), ("help", .flag .help),
    ("version", .flag .version)]

def shortNames : List (Char × Switch) :=
  [('d', .setting .dataPath), ('b', .setting .bootstrap), ('h', .flag .help), ('V', .flag .version)]

def usage : String :=
  String.join (longNames.map fun (name, switch) =>
    "  --" ++ name ++ (match switch with
      | .flag _ => "\n"
      | .setting _ => " VALUE\n"))

def Fault.message : Fault → String
  | .unknownArgument => "an argument is not known"
  | .missingValue => "an option has no value"
  | .invalidValue => "an option has a value that it does not take"
  | .conflict => "an option is given more than once"
  | .tooManyValues => "a flag takes no value"
  | .help => usage
  | .version => "1"

def Setting.isRepeatable : Setting → Bool
  | .bootstrap | .server => true
  | _ => false

structure Arguments where
  dataPath : String := "./data"
  bootstrap : List String := []
  noLineageTypes : Bool := false
  port : UInt16 := 21000
  clusterEnabled : Bool := false
  /-- Servers with their addresses, in order of priority. -/
  servers : List (String × String) := []
  secure : Bool := false
  sharedConnect : Option String := none
  ownConnect : Option String := none
  retrySleep : UInt32 := 1000
  retries : UInt32 := 3
  sessionTimeout : UInt32 := 20000

def number? (limit : Nat) (s : String) : Option Nat :=
  match s.toList with
  | '-' :: ds => if Number.areDigits ds ∧ Number.ofDigits ds = 0 then some 0 else none
  | _ => Number.below? limit s

def word? (s : String) : Option UInt32 := (number? UInt32.size s).map UInt32.ofNat

/-- A server and its address, around the first equals sign and without white space about them. -/
def server? (s : String) : Option (String × String) :=
  let id := s.toList.takeWhile (· != '=')
  match s.toList.dropWhile (· != '=') with
  | _ :: address =>
    if (Text.trim id).isEmpty || (Text.trim address).isEmpty then none
    else some (String.ofList (Text.trim id), String.ofList (Text.trim address))
  | [] => none

/-- A path is never empty. -/
def nonempty (s : String) : Except Fault String := if s.isEmpty then .error .missingValue else .ok s

def checked {α : Type} (value : Option α) : Except Fault α :=
  match value with
  | some a => .ok a
  | none => .error .invalidValue

namespace Arguments

def set (a : Arguments) (s : Setting) (value : String) : Except Fault Arguments :=
  match s with
  | .dataPath => do
    let path ← nonempty value
    pure { a with dataPath := path }
  | .bootstrap => do
    let path ← nonempty value
    pure { a with bootstrap := a.bootstrap ++ [path] }
  | .port => do
    let port ← checked (number? UInt16.size value)
    pure { a with port := UInt16.ofNat port }
  | .server => do
    let server ← checked (server? value)
    pure { a with servers := a.servers ++ [server] }
  | .sharedConnect => .ok { a with sharedConnect := some value }
  | .ownConnect => .ok { a with ownConnect := some value }
  | .retrySleep => do
    let n ← checked (word? value)
    pure { a with retrySleep := n }
  | .retries => do
    let n ← checked (word? value)
    pure { a with retries := n }
  | .sessionTimeout => do
    let n ← checked (word? value)
    pure { a with sessionTimeout := n }

def raise (a : Arguments) : Flag → Except Fault Arguments
  | .noLineageTypes => .ok { a with noLineageTypes := true }
  | .clusterEnabled => .ok { a with clusterEnabled := true }
  | .secure => .ok { a with secure := true }
  | .help => .error .help
  | .version => .error .version

def election (a : Arguments) : Cluster.Election :=
  { Cluster.Election.ofConnects a.sharedConnect a.ownConnect with
    retrySleep := a.retrySleep
    retries := a.retries
    sessionTimeout := a.sessionTimeout }

def cluster (a : Arguments) : Cluster :=
  { a.servers.foldl (fun (c : Cluster) server => c.addServer server.1 server.2) {} with
    enabled := a.clusterEnabled
    secure := a.secure
    election := a.election }

def config (a : Arguments) : Config where
  dataPath := a.dataPath
  bootstrap := a.bootstrap
  lineageTypes := !a.noLineageTypes
  port := a.port
  cluster := a.cluster

end Arguments

end CommandLine

end TypeCatalog
