import Surd.Command

/-!
# The program

Reads the arguments, files and standard input, and prints the outcome. A dialogue is answered line
by line as it is typed; every other command is run at once.
-/

open Surd

/-- Prints a text on standard output. -/
def say (text : Text) : IO Unit := do
  let output ← IO.getStdout
  output.putStr (String.ofList text)
  output.flush

/-- Reads bytes up to the next line feed, which is left out; nothing at the end of the input. -/
partial def readLine (input : IO.FS.Stream) (line : Bytes) : IO (Option Bytes) := do
  match (← input.read 1).data[0]? with
  | none => return if line.isEmpty then none else some line.reverse
  | some byte => if byte = 10 then return some line.reverse else readLine input (byte :: line)

/-- Answers the lines of standard input one by one. -/
partial def converse (input : IO.FS.Stream) (session : Session) : IO UInt32 := do
  say (Dialogue.prompt session)
  match ← readLine input [] with
  | none => return 0
  | some bytes =>
    match bytes.decode? with
    | none => return Outcome.failed
    | some line =>
      match Dialogue.respond? session (.ofLine line) with
      | none => return 0
      | some (session, answer) =>
        say answer
        converse input session

/-- The content of a file, if it can be read. -/
def contentOf (file : Text) : IO (Option Bytes) := do
  try
    return some (← IO.FS.readBinFile (String.ofList file)).data.toList
  catch _ => return none

/-- Runs the command that the arguments ask for. -/
def main (arguments : List String) : IO UInt32 := do
  match Command.ofArguments? (arguments.map String.toList) with
  | none =>
    (← IO.getStderr).putStr (String.ofList Command.Topic.program.page)
    return Outcome.misused
  | some .dialogue => converse (← IO.getStdin) .initial
  | some command =>
    let content ← match command with
      | .batch file => contentOf file
      | _ => pure none
    let outcome := command.run (fun _ => content) []
    say outcome.output
    return outcome.exitCode
