import Surd.Evaluation
import Surd.Notice
import Surd.Percent

/-!
# Sessions

A session is an input buffer that keys are typed into and the history of the results so far.
Submitting the buffer puts its result in its place and a line into the history; a failure changes
neither.
-/

namespace Surd

/-- The characters that a keyboard may put into the buffer: those of numbers, of operators and
parentheses, and the letters of `sqrt`, in any order. -/
def isKey (c : Char) : Bool :=
  c.isDigit || ['.', '+', '-', '*', '/', '^', '%', '(', ')', 's', 'q', 'r', 't'].contains c

/-- Whether a text has only characters that a keyboard may put into the buffer. -/
def accepts (text : Text) : Bool := text.all isKey

/-- The text that is being typed. -/
structure InputBuffer where
  text : Text
  deriving DecidableEq

namespace InputBuffer

/-- The buffer at rest. -/
def initial : InputBuffer := ⟨['0']⟩

/-- Whether the next key replaces the text: at rest, and after an error. -/
def isResting (buffer : InputBuffer) : Bool :=
  buffer.text = ['0'] || buffer.text = ['E', 'r', 'r', 'o', 'r']

/-- Types a key, whose text is not checked. -/
def append (buffer : InputBuffer) (key : Text) : InputBuffer :=
  if buffer.isResting then ⟨key⟩ else ⟨buffer.text ++ key⟩

/-- Removes the last character; a buffer left without any is at rest. -/
def backspace (buffer : InputBuffer) : InputBuffer :=
  if 1 < buffer.text.length then ⟨buffer.text.dropLast⟩ else initial

/-- Replaces the text and says so, unless the new one has characters that no key types. -/
def setText (buffer : InputBuffer) (text : Text) : Bool × InputBuffer :=
  if accepts text then (true, ⟨text⟩) else (false, buffer)

/-- Presses the percent key. -/
def percent (buffer : InputBuffer) : InputBuffer := ⟨Surd.percent buffer.text⟩

end InputBuffer

/-- The lines of a history, the first one first. -/
structure History where
  entries : List Text
  deriving DecidableEq

namespace History

/-- No line yet. -/
def empty : History := ⟨[]⟩

/-- The line of an expression and its result. -/
def entry (expression result : Text) : Text := expression ++ [' ', '=', ' '] ++ result

/-- Adds a line at the end. -/
def push (history : History) (expression result : Text) : History :=
  ⟨history.entries ++ [entry expression result]⟩

/-- The lines, the last one first. -/
def recentFirst (history : History) : List Text := history.entries.reverse

end History

/-- An input buffer and a history. -/
structure Session where
  input : InputBuffer
  history : History
  deriving DecidableEq

namespace Session

/-- A session in which nothing has happened. -/
def initial : Session := ⟨.initial, .empty⟩

/-- Evaluates the buffer. -/
def submit (session : Session) : Except Notice Float × Session :=
  match evaluate session.input.text with
  | .ok value =>
    let result := Number.result value
    (.ok value, ⟨⟨result⟩, session.history.push session.input.text result⟩)
  | .error diagnostic => (.error (.ofCause diagnostic.cause), session)

/-- What a user can do in a session. To clear the buffer is to put it at rest, as a new one is. -/
inductive Action
  | append (key : Text)
  | backspace
  | clear
  | setText (text : Text)
  | percent
  | submit
  deriving DecidableEq

/-- What a user learns from an action, apart from the buffer and the history. -/
inductive Answer
  | nothing
  | accepted (isAccepted : Bool)
  | value (value : Float)
  | notice (notice : Notice)
  deriving DecidableEq

/-- Performs an action. -/
def perform (session : Session) : Action → Answer × Session
  | .append key => (.nothing, { session with input := session.input.append key })
  | .backspace => (.nothing, { session with input := session.input.backspace })
  | .clear => (.nothing, { session with input := .initial })
  | .setText text =>
    let (isAccepted, input) := session.input.setText text
    (.accepted isAccepted, { session with input })
  | .percent => (.nothing, { session with input := session.input.percent })
  | .submit =>
    match session.submit with
    | (.ok value, session) => (.value value, session)
    | (.error notice, session) => (.notice notice, session)

end Session

end Surd
