import Reexport.Files.Memory
import Reexport.Host
import Reexport.Log
import Reexport.Service.Address
import Reexport.Service.Request
import Reexport.Service.Response

/-!
# The service

The same work as that of the command, on request: a barrel is sent with the modules around it and
comes back transformed, or its entries do; and a directory on the disk of the service is looked
through without changing it. A request changes nothing that a later one can see.
-/

namespace Reexport.Service

/-- The version of the service. -/
def version : String := "0.1.0"

/-! ### Routes -/

/-- What the service can be asked for. -/
inductive Route where
  /-- The state of the service. -/
  | health
  /-- A sign of life. -/
  | live
  /-- The new text of a barrel. -/
  | transform
  /-- The entries of a barrel. -/
  | exports
  /-- What would change in a directory. -/
  | directory
  deriving DecidableEq, Repr

/-- The path of a route. -/
def Route.path : Route → String
  | health => "/health"
  | live => "/live"
  | transform => "/api/v1/barrels/transform"
  | exports => "/api/v1/barrels/exports"
  | directory => "/api/v1/barrels/directory"

/-- The method of a route. -/
def Route.method : Route → String
  | health | live => "GET"
  | transform | exports | directory => "POST"

/-- A request as it comes in. -/
structure Request where
  /-- The method, in small or capital letters. -/
  method : String
  /-- The address, whole or only its path. -/
  address : String
  /-- The body, if there is one. -/
  body : Option Json := none

/-- The route of a path. -/
def Route.ofPath? (path : String) : Option Route :=
  [health, live, transform, exports, directory].find? (·.path == path)

/-! ### Handlers -/

/-- What ends the service for good. -/
inductive Fault where
  /-- There are no settings. -/
  | settings (fault : SettingsFault)
  /-- The address of a request cannot be read. -/
  | address (fault : AddressFault)
  /-- An answer would have to repeat what is no number. -/
  | unspeakable
  /-- A directory cannot be processed. -/
  | batch (fault : BatchFault)
  /-- Transforming a barrel was interrupted. -/
  | interrupted (fault : TransformFault)
  deriving DecidableEq, Repr

/-- A response and the events reported on the way to it. -/
abbrev Handled := Except Fault (Response × List Event)

/-- The wording of a fault. -/
def Fault.message : Fault → String
  | settings fault => fault.message
  | address fault => fault.message
  | unspeakable => "Out of range float values are not JSON compliant"
  | batch fault => fault.message
  | interrupted fault => fault.message

/-- The handling of a body that has to fit. A complaint goes with the value that it is about, which
has to be one that can be written. -/
def withBody {α : Type} (check : Json → Checked α) (body : Option Json) (handle : α → Handled) :
    Handled :=
  match checkBody check body with
  | .ok request => handle request
  | .error complaints =>
    let around := Json.object [("body", body.getD .null)]
    if complaints.any fun c => (c.culprit? around).any (·.holdsNonNumber) then .error .unspeakable
    else .ok (.invalid complaints, [])

/-- The transformer for the modules of a request. -/
def transformer (s : Settings) (r : BarrelRequest) (files : MemoryFiles) : Transformer :=
  ⟨files.files, r.wishes.over s.options, s.barrelNames⟩

/-- The handling of a barrel, which has to be among the modules sent with it; `work` is done with
its text. -/
def withBarrel (s : Settings) (r : BarrelRequest)
    (work : Transformer → String → Transforming (Response × List Event)) : Handled :=
  let files := MemoryFiles.ofList r.files
  match files.read r.path with
  | .error _ => .ok (.notFound ("entry_path not found in files: " ++ r.path), [])
  | .ok source =>
    match (work (transformer s r files) source).run [] with
    | (.ok (response, last), log) => .ok (response, log ++ last)
    | (.error fault, _) => .error (.interrupted fault)

/-- Transforms a barrel. -/
def handleTransform (s : Settings) (r : BarrelRequest) : Handled :=
  withBarrel s r fun t source => do
    let (text, entries) ← t.transform source r.path
    return (.transformed ⟨source, text, entries⟩,
      [.transformRequested r.path r.files.length entries.length])

/-- Lists the entries of a barrel. -/
def handleExports (s : Settings) (r : BarrelRequest) : Handled :=
  withBarrel s r fun t source => do
    return (.listed (← t.collect source r.path), [])

/-- Looks through a directory. -/
def handleDirectory (h : Host) (s : Settings) (r : DirectoryRequest) : Handled :=
  if !h.disk.isDirectory r.path then .ok (.notFound ("Directory not found: " ++ r.path), [])
  else match h.batch s (r.wishes.over s.options) none r.path false with
    | .ok run => .ok (.processed run.results, run.log)
    | .error fault => .error (.batch fault)

/-- Handles a request on a route. -/
def Route.handle (h : Host) (s : Settings) (body : Option Json) : Route → Handled
  | health => .ok (.healthy version, [])
  | live => .ok (.alive, [])
  | transform => withBody BarrelRequest.check body (handleTransform s)
  | exports => withBody BarrelRequest.check body (handleExports s)
  | directory => withBody DirectoryRequest.check body (handleDirectory h s)

/-- Handles a request. -/
def handle (h : Host) (s : Settings) (r : Request) : Handled := do
  match Route.ofPath? (← (Address.target r.address).mapError .address) with
  | none => return (.notFound "Not Found", [])
  | some route =>
    if Text.upperAscii r.method = route.method then route.handle h s r.body
    else return (.wrongMethod, [])

/-! ### The life of the service -/

/-- Requests handled one after another, up to a fault. -/
def handleAll (h : Host) (s : Settings) (requests : List Request) :
    Except Fault (List Response × List Event) := do
  let handled ← requests.mapM (handle h s)
  return (handled.map (·.1), handled.flatMap (·.2))

/-- The service from its start to its end: the responses to all requests, and the events shown. -/
def run (h : Host) (requests : List Request) :
    Except Fault (LogSetup × List Response × List Event) := do
  let s ← h.settings.mapError .settings
  let setup := LogSetup.configured s none
  let (responses, log) ← handleAll h s requests
  let events := [.serviceConfigured s.debug s.workerCount, .serviceStarting version] ++ log ++
    [.serviceStopped]
  return (setup, responses, setup.shown events)

end Reexport.Service
