import Surd.Token.Scanner

/-!
# The grammar of calculations

A sequence of tokens is a calculation if it is a number, a root whose argument is one, a calculation
in parentheses, or two with an operator between them.
-/

namespace Surd

/-- `IsCalculation tokens` says that the tokens can be derived in the grammar of calculations, the
arguments of roots included. -/
inductive IsCalculation : List Token → Prop
  | number {token : Token} {value : Float} (hkind : token.kind = .number value) :
      IsCalculation [token]
  | root {token : Token} {body : Text} {scan : Scan} (hkind : token.kind = .root body)
      (hscan : scan = .of (token.offset + Text.bytes Token.rootOpening) body)
      (hsound : scan.fault = none) (hargument : IsCalculation scan.tokens) : IsCalculation [token]
  | group {opening closing : Token} {tokens : List Token} (hopening : opening.kind = .leftParen)
      (hclosing : closing.kind = .rightParen) (hinner : IsCalculation tokens) :
      IsCalculation (opening :: tokens ++ [closing])
  | binary {left right : List Token} {token : Token} {op : Operator}
      (hkind : token.kind = .operator op) (hleft : IsCalculation left)
      (hright : IsCalculation right) : IsCalculation (left ++ token :: right)

end Surd
