import Viable.CommandLine.Arguments
import Viable.CommandLine.Run

/-! The program: reads the file that is asked for, runs the command and prints its report. -/

namespace Viable.CommandLine

def readFile (path : String) : IO (Except ReadError String) := do
  match ← (IO.FS.readBinFile path).toBaseIO with
  | .ok bytes => return ReadError.decode bytes
  | .error (.noFileOrDirectory ..) => return .error .notFound
  | .error (.inappropriateType ..) => return .error .isDirectory
  | .error error => return .error (.other (toString error))

/-- The level named by the environment, or else by the arguments. -/
def readThreshold (invocation : Invocation) : IO (Option Level) := do
  match ← IO.getEnv "PREFIX_LUA_LOG" with
  | some word => return Level.ofWord? word
  | none => return some invocation.threshold

/-- Prints log lines and errors to the error stream and all else to the output. -/
def printReport (report : Report) (threshold : Option Level) : IO Unit := do
  for line in report.log do
    if let some text := line.render? threshold then IO.eprintln text
  for line in report.output do
    IO.println line
  for line in report.errors do
    IO.eprintln line

end Viable.CommandLine

def main (words : List String) : IO UInt32 := do
  match Viable.CommandLine.Invocation.ofWords words with
  | .ok invocation =>
    let content ← match invocation.command.path? with
      | some path => Viable.CommandLine.readFile path
      | none => pure (.error .notFound)
    let report := invocation.run (fun _ => content) (← IO.rand 0 ((1 <<< 64) - 1))
    Viable.CommandLine.printReport report (← Viable.CommandLine.readThreshold invocation)
    return if report.succeeded then 0 else 1
  | .error error =>
    if error.isAnswer then
      IO.println error.message
      return 0
    else
      IO.eprintln error.message
      return 2
