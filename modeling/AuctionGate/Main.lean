import AuctionGate.Gateway.CommandLine

/-!
The program: it takes its configuration from the file that the command line names, logs to standard
output, reports a fault to standard error, and runs until its standard input ends.
-/

open AuctionGate

def openFault : IO.Error → GatewayConfig.OpenFault
  | .noFileOrDirectory .. | .noSuchThing .. => .missing
  | .permissionDenied .. => .denied
  | .inappropriateType .. => .notDirectory
  | e => ⟨0, "Other", toString e⟩

def findFile (path : String) : IO GatewayConfig.File := do
  match ← (IO.FS.Handle.mk path .read).toBaseIO with
  | .error e => return .unopened (openFault e)
  | .ok handle =>
    match ← handle.readBinToEnd.toBaseIO with
    | .error _ => return .directory
    | .ok octets => return .octets octets.toList

def usage : String := "Usage: gateway --config <CONFIG>"

def main (args : List String) : IO UInt32 := do
  let command := Command.ofArguments args
  let file ← match command with
    | .serve path => findFile path
    | _ => pure (.unopened .missing)
  match command with
  | .help => IO.println usage
  | .refused => IO.eprintln usage
  | .serve _ => pure ()
  let run := Run.ofCommand (fun _ => file) Network.unreachable command
  let filter := Filter.ofText (← IO.getEnv "RUST_LOG")
  let lines := (run.lines filter).map Line.sourcedText
  if run.interrupted then
    lines.dropLast.forM IO.println
    let _ ← (← IO.getStdin).readToEnd
    lines.getLast?.toList.forM IO.println
  else
    lines.forM IO.println
  (run.fault.bind StartFault.report?).toList.forM IO.eprintln
  return run.code.toUInt32
