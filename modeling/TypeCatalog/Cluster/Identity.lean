import TypeCatalog.SortedMap
import TypeCatalog.Text.Blank
import TypeCatalog.Cluster.Address
set_option autoImplicit false

namespace TypeCatalog

namespace Cluster

structure Election where
  connect : Option String := none
  retrySleep : UInt32 := 1000
  retries : UInt32 := 3
  sessionTimeout : UInt32 := 20000
  deriving DecidableEq

/-- A connection of the cluster's own goes before a shared one. -/
def Election.ofConnects (shared own : Option String) : Election := { connect := own.or shared }

end Cluster

structure Cluster where
  enabled : Bool := false
  /-- The servers in order of priority. -/
  ids : List String := []
  addresses : NameMap String := ∅
  secure : Bool := false
  election : Cluster.Election := {}
  deriving DecidableEq

namespace Cluster

def nameServer (c : Cluster) (id : String) : Cluster :=
  if id ∈ c.ids then c else { c with ids := c.ids ++ [id] }

/-- A server named again keeps its place and takes the new address. -/
def addServer (c : Cluster) (id address : String) : Cluster :=
  { c.nameServer id with addresses := c.addresses.insert id address }

structure Unidentified where
  port : Nat
  ids : List String
  deriving DecidableEq

def Unidentified.message (u : Unidentified) : String :=
  "configuration error: no server id matches a local host and port " ++ toString u.port ++
    " among [" ++ ",".intercalate u.ids ++ "]"

def isHere (c : Cluster) (resolve : String → Option SocketAddress) (isLocal : IpAddress → Bool)
    (port : Nat) (id : String) : Bool :=
  match c.addresses.get? id with
  | none => false
  | some address =>
    if Text.isBlank address then false
    else
      match resolve address with
      | none => false
      | some a => isLocal a.ip && a.port == port

def identity (c : Cluster) (resolve : String → Option SocketAddress) (isLocal : IpAddress → Bool)
    (port : Nat) : Except Unidentified String :=
  match c.ids.find? (c.isHere resolve isLocal port) with
  | some id => .ok id
  | none => .error ⟨port, c.ids⟩

def boundAddress? (c : Cluster) (id : String) : Option String :=
  (c.addresses.get? id).map fun address => (if c.secure then "https://" else "http://") ++ address

end Cluster

end TypeCatalog
