import Surd.Command.Outcome
import Surd.Session
import Surd.Text.Line

/-!
# Batches

A batch evaluates each line of a text that is not blank, and prints the line with its result or its
notice. It fails if one of the lines does.
-/

namespace Surd.Batch

/-- The lines that a batch evaluates. -/
def entries (text : Text) : List Text :=
  ((Text.lines text).map Text.trim).filter fun line => !line.isEmpty

/-- What is printed for a line, and whether the line has a value. -/
def answer (line : Text) : Text × Bool :=
  match evaluate line with
  | .ok value => (Outcome.line (History.entry line (Number.result value)), true)
  | .error diagnostic =>
    (Outcome.line (line ++ [':', ' '] ++ (Notice.ofCause diagnostic.cause).message), false)

/-- The outcome of a batch over the lines of a text. -/
def ofText (text : Text) : Outcome where
  output := (entries text).flatMap fun line => (answer line).1
  exitCode := if (entries text).all fun line => (answer line).2 then 0 else Outcome.dataError

/-- The outcome of a batch over the content of a file. Nothing is printed where the content is
missing or is no text. -/
def ofFile (content : Option Bytes) : Outcome :=
  match content.bind Bytes.decode? with
  | some text => ofText text
  | none => ⟨[], Outcome.failed⟩

end Surd.Batch
