import Surd.Text

/-!
# Outcomes

The outcome of a command is what it prints and the exit code that it ends with.
-/

namespace Surd

/-- What a command prints on standard output, and its exit code. -/
structure Outcome where
  output : Text
  exitCode : UInt32
  deriving DecidableEq

namespace Outcome

/-- A text with a line feed after it. -/
def line (text : Text) : Text := text ++ ['\n']

/-- The exit code of a command that failed. -/
def failed : UInt32 := 1

/-- The exit code of a command that was called in the wrong way. -/
def misused : UInt32 := 2

/-- The exit code of a batch with a line that has no value. -/
def dataError : UInt32 := 65

/-- The outcome of a command that printed something before it began. -/
def after (output : Text) (outcome : Outcome) : Outcome :=
  { outcome with output := output ++ outcome.output }

end Outcome

end Surd
