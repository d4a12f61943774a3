import Surd.Command.Outcome

/-!
# Help

A page of help says what the program or one of its commands does, how it is called, and what may
stand in a call. Names in a list are padded, so that all descriptions begin in one column.
-/

namespace Surd.Command

/-- What help can be asked for: the program, or one of its commands. -/
inductive Topic
  | program
  | tokenize
  | evaluate
  | percent
  | batch
  | dialogue
  | help
  deriving DecidableEq

namespace Topic

/-- The commands, as they are listed. -/
def commands : List Topic := [tokenize, evaluate, percent, batch, dialogue, help]

/-- The name by which a topic is called. -/
def name : Topic → Text
  | program => "sqrtcalc".toList
  | tokenize => "tokenize".toList
  | evaluate => "eval".toList
  | percent => "percent".toList
  | batch => "batch".toList
  | dialogue => "repl".toList
  | help => "help".toList

/-- The command of a name. -/
def ofName? (name : Text) : Option Topic := commands.find? fun topic => topic.name = name

/-- What is done, in one line. -/
def about : Topic → Text
  | program => "Evaluate arithmetic expressions with + - * / ^ % and sqrt()".toList
  | tokenize => "Print the tokens of an expression".toList
  | evaluate => "Evaluate one expression".toList
  | percent => "Divide the last number of an expression by 100".toList
  | batch => "Evaluate every non-empty line of a file".toList
  | dialogue => "Interactive calculator session on stdin".toList
  | help => "Print this message or the help of the given subcommand(s)".toList

/-- What a command takes a value for, with a description if there is one. -/
def arguments : Topic → List (Text × Text)
  | tokenize | evaluate | percent => [("<EXPRESSION>".toList, [])]
  | batch => [("<FILENAME>".toList, [])]
  | help => [("[COMMAND]...".toList, "Print help for the subcommand(s)".toList)]
  | program | dialogue => []

/-- The options that a topic has. -/
def options (topic : Topic) : List (Text × Text) :=
  let verbose := ("-v, --verbose...".toList,
    "Log more (-v info, -vv debug, -vvv trace). Overrides RUST_LOG".toList)
  let help := ("-h, --help".toList, "Print help".toList)
  match topic with
  | program => [verbose, help, ("-V, --version".toList, "Print version".toList)]
  | .help => []
  | _ => [verbose, help]

/-- How a topic is called. -/
def usage (topic : Topic) : Text :=
  let call := if topic = program then topic.name else program.name ++ ' ' :: topic.name
  let optional := if topic.options = [] then [] else " [OPTIONS]".toList
  let values := if topic = program then ["<COMMAND>".toList] else topic.arguments.map Prod.fst
  call ++ optional ++ values.flatMap (' ' :: ·)

/-- Names and descriptions under a heading, if there are any. -/
def listing (heading : Text) (rows : List (Text × Text)) : Text :=
  let width := (rows.map fun row => row.1.length).foldl max 0
  if rows = [] then []
  else '\n' :: Outcome.line (heading ++ [':']) ++ rows.flatMap fun row =>
    Outcome.line (' ' :: ' ' :: row.1 ++ List.replicate (width - row.1.length + 2) ' ' ++ row.2)

/-- The page of help on a topic. -/
def page (topic : Topic) : Text :=
  let rows := if topic = program then commands.map fun command => (command.name, command.about)
    else []
  Outcome.line topic.about ++ '\n' :: Outcome.line ("Usage: ".toList ++ topic.usage) ++
    listing "Commands".toList rows ++ listing "Arguments".toList topic.arguments ++
    listing "Options".toList topic.options

end Topic

end Surd.Command
