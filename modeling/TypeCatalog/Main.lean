import Std.Time.DateTime.Timestamp
import TypeCatalog.Journal.Text
import TypeCatalog.Service.Basic
import TypeCatalog.Service.CommandLine
set_option autoImplicit false

namespace TypeCatalog

/-- Microseconds since the epoch. -/
def currentTime : IO Nat := do
  let now ← Std.Time.Timestamp.now
  pure (now.toNanosecondsSinceUnixEpoch.val / 1000).toNat

def readContent? (path : String) : IO (Option ByteArray) :=
  try some <$> IO.FS.readBinFile path catch _ => pure none

def readFiles (paths : List String) : IO Files := do
  let contents ← paths.mapM fun path => do pure (path, ← readContent? path)
  pure fun path => (contents.lookup path).join

def readJournal (path : String) : IO (Except JournalFault Journal) := do
  match ← readContent? path with
  | none => pure (.ok ∅)
  | some content =>
    match String.fromUTF8? content with
    | some text => pure (Journal.ofText text)
    | none => pure (.error .unreadable)

def fail (code : UInt32) (message : String) : IO UInt32 := do
  IO.eprintln message
  pure code

def ServiceFault.text (f : ServiceFault) : String := f.message?.getD "the service cannot be started"

def reportIdentity (config : Config) : IO (Except Cluster.Unidentified Unit) := do
  if config.cluster.enabled then
    match config.cluster.identity Cluster.SocketAddress.ofText? Cluster.IpAddress.isLocal
        config.port.toNat with
    | .error fault => pure (.error fault)
    | .ok id =>
      IO.println ("server " ++ id ++ " at " ++ (config.cluster.boundAddress? id).getD "")
      pure (.ok ())
  else pure (.ok ())

def reportReady (s : Service) : IO Unit :=
  IO.println
    ("version " ++ toString s.catalog.version ++ ", " ++ toString s.catalog.types.size ++
      " types, " ++ toString s.catalog.enums.size ++ " enumerations")

def runService (config : Config) (path : String) (j : Journal) : IO UInt32 := do
  let files ← readFiles config.bootstrap
  let now ← currentTime
  let times ← config.bootstrap.mapM fun _ => currentTime
  let (j, result) := Service.start j files ⟨now, true⟩ config.bootstrap config.lineageTypes
    fun n => ⟨times.getD n now, true⟩
  match j.text with
  | .error _ => fail 1 "the journal cannot be written"
  | .ok text =>
    IO.FS.writeFile path text
    match result with
    | .error fault => fail 1 fault.text
    | .ok s =>
      reportReady s
      pure 0

def runProgram (config : Config) : IO UInt32 := do
  match ← reportIdentity config with
  | .error fault => fail 1 fault.message
  | .ok () =>
    IO.FS.createDirAll config.dataPath
    let path := config.dataPath ++ "/journal"
    match ← readJournal path with
    | .error fault => fail 1 (ServiceFault.catalog (.journal fault)).text
    | .ok j => runService config path j

end TypeCatalog

open TypeCatalog in
def main (arguments : List String) : IO UInt32 := do
  match CommandLine.parse arguments with
  | .ok config => runProgram config
  | .error fault =>
    if fault = .help ∨ fault = .version then do
      IO.println fault.message
      pure 0
    else fail 2 fault.message
