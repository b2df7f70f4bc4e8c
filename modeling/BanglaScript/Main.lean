import BanglaScript.Request.Outcome
import Std.Time.DateTime.Timestamp

/-!
# The program

Reads the command line, the source file and the clock, and writes what the
request asks for.
-/

namespace BanglaScript.Main

/-- The number of an error in the operating system.  It may come negated, in
two's complement. -/
def errorNumber (code : UInt32) : Nat :=
  if code.toNat < Nat.pow 2 31 then code.toNat else Nat.pow 2 32 - code.toNat

/-- Why an access to a file failed. -/
def fault (error : IO.Error) : AccessFault :=
  match error with
  | .noFileOrDirectory _ _ _ => .missing
  | .permissionDenied _ _ _ => .permissionDenied
  | .inappropriateType _ code _ =>
    if errorNumber code = 20 then .notDirectory
    else if errorNumber code = 21 then .isDirectory
    else .other (toString error)
  | .invalidArgument _ code _ =>
    if errorNumber code = 36 then .nameTooLong else .other (toString error)
  | _ => .other (toString error)

/-- Do something with a file and give the reason if it fails. -/
def attempt {α : Type} (action : IO α) : IO (Except AccessFault α) := do
  try
    return .ok (← action)
  catch error =>
    return .error (fault error)

/-- Two digits. -/
def twoDigits (value : Nat) : String :=
  if value < 10 then "0" ++ toString value else toString value

/-- The time of day, as records show it. -/
def timeOfDay (seconds : Nat) : String :=
  let second := seconds % 60
  let minute := seconds / 60 % 60
  let hour := seconds / 3600 % 24
  Text.join ":" [twoDigits hour, twoDigits minute, twoDigits second]

/-- Write a record to the standard error stream. -/
def writeRecord (record : LogRecord) : IO Unit := do
  let now ← Std.Time.Timestamp.now
  IO.eprintln (timeOfDay now.toSecondsSinceUnixEpoch.val.toNat ++ " " ++ record.render)

/-- Write an output to its file or to the standard output. -/
def writeOutput (output : Output) : IO (Except Failure Unit) := do
  match output.file with
  | none =>
    IO.print output.text
    return .ok ()
  | some file =>
    match ← attempt (IO.FS.writeFile file output.text) with
    | .ok () => return .ok ()
    | .error detail => return .error (.unwritable file detail)

/-- Carry a request out and give the exit code. -/
def carryOut (request : Request) : IO UInt32 := do
  let contents ←
    match request.demo, request.file with
    | none, some file => attempt (IO.FS.readFile file)
    | _, _ => pure (.ok "")
  let outcome := request.run fun _ => contents
  outcome.records.forM writeRecord
  let written ←
    match outcome.result with
    | .error failure => pure (.error failure)
    | .ok output => writeOutput output
  match written with
  | .ok () => return 0
  | .error failure =>
    IO.eprintln failure.message
    return 1

end BanglaScript.Main

/-- The command line program. -/
def main (arguments : List String) : IO UInt32 := do
  match BanglaScript.Request.ofArguments? arguments with
  | none =>
    IO.eprintln BanglaScript.Request.usage
    return 1
  | some request => BanglaScript.Main.carryOut request
