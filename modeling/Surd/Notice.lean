import Surd.Fault

/-!
# Notices

A notice is what a calculator shows in place of a result. Most causes are shown by their message;
division by zero and the misuse of roots have a wording of their own.
-/

namespace Surd

/-- What is shown when there is no result. -/
inductive Notice
  | divisionByZero
  | invalidRoot
  | computation (message : Text)
  deriving DecidableEq

namespace Notice

/-- The notice that is shown for a cause. -/
def ofCause (cause : Cause) : Notice :=
  if cause.kind = .divisionByZero then divisionByZero
  else if cause.concernsRoot then invalidRoot
  else computation cause.message

/-- The wording of a notice. -/
def message : Notice → Text
  | divisionByZero => "division by zero is impossible".toList
  | invalidRoot => "invalid input for square root".toList
  | computation message => "computation error: ".toList ++ message

end Notice

end Surd
