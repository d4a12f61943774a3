import Surd.Command.Outcome
import Surd.Session
import Surd.Text.Line

/-!
# Dialogues

A dialogue reads lines and answers each of them before it reads the next. A line is a request to the
session or an expression to submit. Before each line the buffer is shown as a prompt.
-/

namespace Surd.Dialogue

/-- What a line asks for. -/
inductive Request
  | nothing
  | quit
  | clear
  | percent
  | history
  | submit (text : Text)
  deriving DecidableEq

/-- The request of a line, whose blank ends do not count. -/
def Request.ofLine (line : Text) : Request :=
  let line := Text.trim line
  if line = [] then nothing
  else if line = ":quit".toList ∨ line = ":q".toList then quit
  else if line = ":clear".toList then clear
  else if line = ":percent".toList then percent
  else if line = ":history".toList then history
  else submit line

/-- The buffer, shown before a line is read. -/
def prompt (session : Session) : Text := session.input.text ++ [' ', '>', ' ']

/-- The answer to a text that has characters which no key types. -/
def refusal : Text := "! characters outside [0-9.+-*/^%()sqrt] are not accepted".toList

/-- The session after an expression and the line that is printed. -/
def submit (session : Session) (text : Text) : Session × Text :=
  match session.input.setText text with
  | (false, _) => (session, refusal)
  | (true, input) =>
    match { session with input }.submit with
    | (.ok _, session) => (session, '=' :: ' ' :: session.input.text)
    | (.error notice, session) => (session, '!' :: ' ' :: notice.message)

/-- The session after a request and what is printed, or nothing if the dialogue ends. -/
def respond? (session : Session) : Request → Option (Session × Text)
  | .nothing => some (session, [])
  | .quit => none
  | .clear => some ({ session with input := .initial }, [])
  | .percent => some ({ session with input := session.input.percent }, [])
  | .history =>
    some (session, session.history.recentFirst.flatMap fun entry =>
      Outcome.line (' ' :: ' ' :: entry))
  | .submit text =>
    let (session, answer) := submit session text
    some (session, Outcome.line answer)

/-- The outcome of a dialogue over the lines that are still to be read. A line that is no text ends
it as a failure. -/
def run (session : Session) : List Bytes → Outcome
  | [] => ⟨prompt session, 0⟩
  | line :: lines =>
    .after (prompt session) <|
      match Bytes.decode? line with
      | none => ⟨[], Outcome.failed⟩
      | some line =>
        match respond? session (.ofLine line) with
        | none => ⟨[], 0⟩
        | some (session, output) => .after output (run session lines)

/-- The outcome of a dialogue over everything that standard input holds. -/
def ofInput (input : Bytes) : Outcome := run .initial (Bytes.lines input)

end Surd.Dialogue
