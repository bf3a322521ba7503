import Reexport.Settings

/-!
# Launching the service

The arguments with which the web server that carries the service is started.
-/

namespace Reexport.Service

/-- How the web server is started. -/
structure Launch where
  /-- Where the server finds the service. -/
  application : String := "barrel_resolver.api.app:create_app"
  /-- Whether the service has to be made before it is served. -/
  factory : Bool := true
  /-- The address to listen at. -/
  host : String := "0.0.0.0"
  /-- The number of the socket to listen at. -/
  socket : Nat := 8000
  /-- Whether the server starts anew when its code changes. -/
  reload : Bool
  /-- The level from which on the server shows its own events. -/
  logLevel : Level
  /-- Whether the server shows each request. -/
  accessLog : Bool
  deriving DecidableEq, Repr

/-- The arguments that follow from the settings. -/
def Launch.ofSettings (settings : Settings) : Launch where
  reload := settings.debug
  logLevel := settings.logLevel
  accessLog := settings.debug

end Reexport.Service
