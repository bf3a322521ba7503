import Reexport.Json

/-!
# Log events

What the program reports about its work. Each event has a level, the part of the program that
reports it, a name and named values.
-/

namespace Reexport

/-- How important an event is. -/
inductive Level where
  | debug
  | info
  | warning
  | error
  | critical
  deriving DecidableEq, Repr

/-- All levels, the least important one first. -/
def Level.all : List Level :=
  [debug, info, warning, error, critical]

/-- The word for a level. -/
def Level.label : Level → String
  | debug => "debug"
  | info => "info"
  | warning => "warning"
  | error => "error"
  | critical => "critical"

/-- The rank of a level; an event is shown if its rank reaches a threshold. -/
def Level.rank : Level → Nat
  | debug => 10
  | info => 20
  | warning => 30
  | error => 40
  | critical => 50

/-- An event. -/
inductive Event where
  /-- A module is passed over that is still being resolved. -/
  | cycleSkipped (path : String)
  /-- The text of a module cannot be had. -/
  | sourceUnreadable (path reason : String)
  /-- The entries of a module are resolved. -/
  | moduleResolved (path : String) (parsed resolved : Nat)
  /-- A specifier leads to no module. -/
  | sourceUnresolved (source directory : String)
  /-- A namespace of types is written out. -/
  | typesRecovered (source path : String) (names : Nat)
  /-- A file is passed over because of its size. -/
  | tooLarge (path : String) (size : Nat) (limit : Int)
  /-- The entries of a barrel are collected. -/
  | collected (path : String) (total types namespaces : Nat)
  /-- Duplicates are dropped. -/
  | duplicatesRemoved (path : String) (removed : Nat)
  /-- Entries are sorted. -/
  | sorted (path : String)
  /-- A barrel is taken up. -/
  | started (path : String)
  /-- A barrel has no entries. -/
  | nothingFound (path : String)
  /-- A barrel has a new text. -/
  | transformed (path : String) (length : Nat)
  /-- The barrels of a directory are found. -/
  | discovered (root : String) (files : Nat)
  /-- A barrel could not be processed. -/
  | failed (path error : String)
  /-- All barrels of a directory are processed. -/
  | batchCompleted (root : String) (files changed failures : Nat)
  /-- A barrel is written back. -/
  | written (path : String)
  /-- The command line is understood. -/
  | commandStarted (path options : String)
  /-- The service is set up. -/
  | serviceConfigured (debug : Bool) (workers : Int)
  /-- The service starts. -/
  | serviceStarting (version : String)
  /-- The service has stopped. -/
  | serviceStopped
  /-- A barrel was transformed on request. -/
  | transformRequested (path : String) (files exports : Nat)
  deriving DecidableEq, Repr

namespace Event

/-- The level of an event. -/
def level : Event → Level
  | sourceUnreadable .. | failed .. => .warning
  | discovered .. | batchCompleted .. | serviceConfigured .. | serviceStarting .. | serviceStopped
  | transformRequested .. => .info
  | _ => .debug

/-- The name of an event. -/
def name : Event → String
  | cycleSkipped .. => "resolution_cycle_skipped"
  | sourceUnreadable .. => "source_unreadable"
  | moduleResolved .. => "module_resolved"
  | sourceUnresolved .. => "source_unresolved"
  | typesRecovered .. => "type_namespace_recovered"
  | tooLarge .. => "file_skipped_too_large"
  | collected .. => "exports_collected"
  | duplicatesRemoved .. => "duplicates_removed"
  | sorted .. => "exports_sorted"
  | started .. => "barrel_processing_started"
  | nothingFound .. => "no_exports_found"
  | transformed .. => "barrel_transformed"
  | discovered .. => "barrel_files_discovered"
  | failed .. => "barrel_processing_failed"
  | batchCompleted .. => "batch_completed"
  | written .. => "barrel_written"
  | commandStarted .. => "cli_started"
  | serviceConfigured .. => "application_configured"
  | serviceStarting .. => "application_starting"
  | serviceStopped => "application_stopped"
  | transformRequested .. => "barrel_transform_requested"

/-- The part of the program that reports an event. -/
def reporter : Event → String
  | cycleSkipped .. | sourceUnreadable .. | moduleResolved .. | sourceUnresolved ..
  | typesRecovered .. => "barrel_resolver.services.barrel_resolver"
  | tooLarge .. => "barrel_resolver.services.file_system"
  | collected .. | duplicatesRemoved .. | sorted .. | started .. | nothingFound ..
  | transformed .. => "barrel_resolver.services.loader"
  | discovered .. | failed .. | batchCompleted .. | written .. => "barrel_resolver.services.batch"
  | commandStarted .. => "barrel_resolver.cli"
  | serviceConfigured .. | serviceStarting .. | serviceStopped => "barrel_resolver.api.app"
  | transformRequested .. => "barrel_resolver.api.routes.barrels"

/-- The named values of an event. -/
def fields : Event → List (String × Json)
  | cycleSkipped path => [("path", .string path)]
  | sourceUnreadable path reason => [("path", .string path), ("reason", .string reason)]
  | moduleResolved path parsed resolved =>
    [("path", .string path), ("parsed", .ofNat parsed), ("resolved", .ofNat resolved)]
  | sourceUnresolved source directory =>
    [("source", .string source), ("directory", .string directory)]
  | typesRecovered source path names =>
    [("source", .string source), ("path", .string path), ("names", .ofNat names)]
  | tooLarge path size limit =>
    [("path", .string path), ("size", .ofNat size), ("max_size", .int limit)]
  | collected path total types namespaces =>
    [("path", .string path), ("total", .ofNat total), ("type_exports", .ofNat types),
      ("namespace_exports", .ofNat namespaces)]
  | duplicatesRemoved path removed => [("path", .string path), ("removed", .ofNat removed)]
  | sorted path => [("path", .string path)]
  | started path => [("path", .string path)]
  | nothingFound path => [("path", .string path)]
  | transformed path length => [("path", .string path), ("length", .ofNat length)]
  | discovered root files => [("root_path", .string root), ("file_count", .ofNat files)]
  | failed path error => [("path", .string path), ("error", .string error)]
  | batchCompleted root files changed failures =>
    [("root_path", .string root), ("files", .ofNat files), ("changed", .ofNat changed),
      ("failed", .ofNat failures)]
  | written path => [("path", .string path)]
  | commandStarted path options => [("path", .string path), ("options", .string options)]
  | serviceConfigured debug workers => [("debug", .bool debug), ("worker_count", .int workers)]
  | serviceStarting version => [("version", .string version)]
  | serviceStopped => []
  | transformRequested path files exports =>
    [("entry_path", .string path), ("files", .ofNat files), ("exports", .ofNat exports)]

end Event

end Reexport
