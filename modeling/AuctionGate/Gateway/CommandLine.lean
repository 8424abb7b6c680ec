import AuctionGate.Config.Read
import AuctionGate.Gateway.Basic
import AuctionGate.Telemetry.Dsn
import AuctionGate.Telemetry.Filter
import AuctionGate.Text.Quoted

/-!
# The command line

The one option names the configuration file and is given exactly once. A run loads the file, starts
what it describes, and goes on until it is interrupted; whatever fails before that ends it with a
report.
-/

namespace AuctionGate

inductive Command where
  | serve (path : String)
  | help
  | refused
  deriving DecidableEq, Repr

namespace Command

def configOption : String := "--config"

/-- An argument that can stand after the option as its value. -/
def isValue (s : String) : Bool :=
  match s.toList with
  | [] => false
  | '-' :: rest => rest.isEmpty
  | _ => true

/-- What an argument holds after the option and an equals sign. -/
def attached? (s : String) : Option String :=
  let option := (configOption ++ "=").toList
  if option.isPrefixOf s.toList then some (String.ofList (s.toList.drop option.length)) else none

/-- A short option asks for help if its first letter does. -/
def asksHelp (s : String) : Bool :=
  s = "--help" || ['-', 'h'].isPrefixOf s.toList

/-- Reads the arguments that follow, after `path` was given or nothing. -/
def read (path : Option String) : List String → Command
  | [] | ["--"] => (path.map serve).getD refused
  | arg :: rest =>
    if asksHelp arg then help
    else if path.isSome then refused
    else if arg = configOption then
      match rest with
      | value :: rest => if isValue value then read (some value) rest else refused
      | [] => refused
    else
      match attached? arg with
      | some value => if value = "" then refused else read (some value) rest
      | none => refused

def ofArguments (args : List String) : Command := read none args

end Command

/-- Why a run does not start. -/
inductive StartFault where
  | load (f : GatewayConfig.LoadFault)
  | dsn
  | metrics (f : MetricsConfig.ReportFault)
  | pool (f : Pool.Fault)
  deriving DecidableEq, Repr

namespace StartFault

/-- A report in the form `Name(cause)`. -/
def around (name cause : String) : String := name ++ "(" ++ cause ++ ")"

def ofOpening (f : GatewayConfig.OpenFault) : String :=
  "Os \x7b code: " ++ toString f.code ++ ", kind: " ++ f.kind ++ ", message: " ++ Text.quote f.text
    ++ " \x7d"

def ofLoading : GatewayConfig.LoadFault → String
  | .unopened f => around "LoadError" (ofOpening f)
  | .unreadable => around "ParseError" ""
  | .invalid f => around "Invalid" (Text.quote f.message)

def ofPool : Pool.Fault → String
  | .empty => "Empty"
  | .unresolvable a cause =>
    around "Unresolvable" (Text.quote a ++ ", Error \x7b kind: InvalidInput, message: "
      ++ Text.quote cause.message ++ " \x7d")

/-- What is written of a fault; of an unsound address for error reports nothing is. -/
def report? : StartFault → Option String
  | load f => some ("Error: " ++ around "Config" (ofLoading f))
  | dsn => none
  | metrics f => some ("Error: " ++ around "Metrics" (Text.quote f.message))
  | pool f => some ("Error: " ++ around "Pool" (ofPool f))

def code : StartFault → Nat
  | dsn => 101
  | load _ | metrics _ | pool _ => 1

end StartFault

/-- How a run goes. -/
structure Run where
  code : Nat
  /-- What occurs, in order. -/
  history : List Occurrence := []
  fault : Option StartFault := none
  /-- It comes to wait for an interrupt. -/
  interrupted : Bool := false

namespace Run

def failed (f : StartFault) (history : List Occurrence) : Run :=
  { code := f.code, history, fault := some f }

/-- Runs by a configuration that was loaded. -/
def serve (c : GatewayConfig) (network : Network) (names : Net.NameService := .unknowing) :
    Run :=
  if c.sentryDsn.any (!Dsn.isSound ·) then failed .dsn []
  else
    match c.metrics.bind (·.reportFault?) with
    | some f => failed (.metrics f) []
    | none =>
      let reported := (c.metrics.map fun m => .metricsReported m.host m.port.toNat).toList
      match Gateway.build c network names with
      | .error f =>
        let dispatcher := Gateway.dispatcherOf c.calls network
        failed (.pool f) (reported ++ dispatcher.journal.history)
      | .ok g =>
        { code := 0
          history := reported ++ g.history
            ++ [.gatewayStarted g.geolocation.isSome, .gatewayStopping]
          interrupted := true }

def ofCommand (files : String → GatewayConfig.File) (network : Network) (command : Command)
    (names : Net.NameService := .unknowing) : Run :=
  match command with
  | .help => { code := 0 }
  | .refused => { code := 2 }
  | .serve path =>
    match GatewayConfig.load (files path) with
    | .error f => failed (.load f) []
    | .ok c => serve c network names

def lines (r : Run) (filter : Filter) : List Line :=
  (r.history.filterMap Occurrence.line?).filter filter.shows

end Run

end AuctionGate
