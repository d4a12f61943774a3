import Surd.Command.Batch
import Surd.Command.Dialogue
import Surd.Command.Help

/-!
# Commands

A command is read from the arguments of the program, and its outcome depends on them, on the content
of files and on standard input only. Arguments that begin with a dash are options, up to `--`.
-/

namespace Surd

/-- What the program is asked to do. -/
inductive Command
  | tokenize (text : Text)
  | evaluate (text : Text)
  | percent (text : Text)
  | batch (file : Text)
  | dialogue
  | version
  | help (topic : Command.Topic)
  deriving DecidableEq

namespace Command

/-- What an argument is. -/
inductive Argument
  | value (text : Text)
  | verbose
  | version
  | help
  | separator
  | unknown
  deriving DecidableEq

/-- The option of letters after a single dash: `v` may be repeated, any other letter decides. -/
def Argument.ofLetters (letters : Text) : Argument :=
  match letters.dropWhile (· = 'v') with
  | [] => verbose
  | 'V' :: _ => version
  | 'h' :: _ => help
  | _ => unknown

/-- An argument before the separator; a dash alone is a value. -/
def Argument.ofText : Text → Argument
  | '-' :: '-' :: name =>
    if name = [] then separator
    else if name = "verbose".toList then verbose
    else if name = "version".toList then version
    else if name = "help".toList then help
    else unknown
  | '-' :: c :: letters => ofLetters (c :: letters)
  | text => value text

/-- A command that takes exactly one value; `found` is the command of the value that was given
already. A value that makes no command is refused as soon as it is met. -/
def single? (topic : Topic) (make : Text → Option Command) (found : Option Command) :
    List Text → Option Command
  | [] => found
  | argument :: arguments =>
    match Argument.ofText argument with
    | .value text =>
      if found.isSome then none
      else (make text).bind fun command => single? topic make (some command) arguments
    | .verbose => single? topic make found arguments
    | .help => some (help topic)
    | .separator =>
      match found, arguments with
      | some command, [] => some command
      | none, [text] => make text
      | _, _ => none
    | .version | .unknown => none

/-- A command that takes no value. -/
def bare? (topic : Topic) (command : Command) : List Text → Option Command
  | [] => some command
  | argument :: arguments =>
    match Argument.ofText argument with
    | .verbose => bare? topic command arguments
    | .help => some (help topic)
    | .separator => if arguments = [] then some command else none
    | .value _ | .version | .unknown => none

/-- Help on the whole program, or on the command that is named. Only a name may be given, not even
an option. -/
def helpOn? : List Text → Option Command
  | [] => some (help .program)
  | [name] => (Topic.ofName? name).map help
  | _ => none

/-- The command of a name and of the arguments after it. A batch needs a file name that is not
empty. -/
def named? (name : Text) (arguments : List Text) : Option Command :=
  match Topic.ofName? name with
  | some .tokenize => single? .tokenize (some ∘ tokenize) none arguments
  | some .evaluate => single? .evaluate (some ∘ evaluate) none arguments
  | some .percent => single? .percent (some ∘ percent) none arguments
  | some .batch =>
    single? .batch (fun file => if file = [] then none else some (batch file)) none arguments
  | some .dialogue => bare? .dialogue dialogue arguments
  | some .help => helpOn? arguments
  | some .program | none => none

/-- The command that the arguments of the program ask for. -/
def ofArguments? : List Text → Option Command
  | [] => none
  | argument :: arguments =>
    match Argument.ofText argument with
    | .value name => named? name arguments
    | .verbose => ofArguments? arguments
    | .version => some version
    | .help => some (help .program)
    | .separator | .unknown => none

/-- Prints the tokens of a text, each on a line, and after the last one that the text ends. -/
def printTokens (text : Text) : Outcome :=
  let scan := Scan.of 0 (normalize text)
  .after (scan.tokens.flatMap fun token => Outcome.line token.display) <|
    if scan.fault.isSome then ⟨[], Outcome.failed⟩ else ⟨Outcome.line "EOF".toList, 0⟩

/-- Prints the value of a text. -/
def printValue (text : Text) : Outcome :=
  match Surd.evaluate text with
  | .ok value => ⟨Outcome.line (Number.result value), 0⟩
  | .error _ => ⟨[], Outcome.failed⟩

/-- The outcome of a command, given the contents of files and of standard input. -/
def run (content? : Text → Option Bytes) (input : Bytes) : Command → Outcome
  | tokenize text => printTokens text
  | evaluate text => printValue text
  | percent text => ⟨Outcome.line (Surd.percent text), 0⟩
  | batch file => Batch.ofFile (content? file)
  | dialogue => Dialogue.ofInput input
  | version => ⟨Outcome.line "sqrtcalc 0.1.0".toList, 0⟩
  | help topic => ⟨topic.page, 0⟩

/-- The outcome of the program. -/
def outcome (arguments : List Text) (content? : Text → Option Bytes) (input : Bytes) : Outcome :=
  match ofArguments? arguments with
  | some command => command.run content? input
  | none => ⟨[], Outcome.misused⟩

end Command

end Surd
