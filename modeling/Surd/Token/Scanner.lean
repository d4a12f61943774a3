import Surd.Token.Front

/-!
# Scanning a text

A scanner walks over a text, or over a stretch of a longer one, and yields one token after another.
The first fault ends the scan. A scan lists the tokens and the fault, if there was one.
-/

namespace Surd

/-- A scanner: where the rest of the text stands, the character before it if the scanner read one,
and the rest itself. -/
structure Scanner where
  offset : Nat
  previous : Option Char
  rest : Text

namespace Scanner

/-- The scanner at the start of a text that stands at a byte offset. -/
def start (offset : Nat) (text : Text) : Scanner := ⟨offset, none, text⟩

/-- The scanner after a literal. -/
def advance (scanner : Scanner) (literal rest : Text) : Scanner :=
  ⟨scanner.offset + Text.bytes literal, literal.getLast?, rest⟩

/-- The next token or fault, and the scanner after it. Nothing is left to read after a fault. -/
def next (scanner : Scanner) : Option (Except Fault Token) × Scanner :=
  match scanner.rest with
  | [] => (none, scanner)
  | c :: text =>
    let front := Front.read scanner.previous c text
    match front.reading with
    | .ok kind =>
      (some (.ok ⟨kind, front.literal, scanner.offset⟩), scanner.advance front.literal front.rest)
    | .error cause =>
      (some (.error ⟨cause, .of scanner.offset front.literal⟩), scanner.advance front.literal [])

/-- A scanner that yields something has less to read afterwards. -/
theorem length_rest_next {scanner after : Scanner} {item : Except Fault Token}
    (h : scanner.next = (some item, after)) : after.rest.length < scanner.rest.length := by
  unfold next at h
  split at h
  · cases h
  next c text hrest =>
    rw [hrest]
    have hshorter := Front.length_rest_lt scanner.previous c text
    dsimp only at h
    split at h
    · cases h
      exact hshorter
    · cases h
      simp [advance]

/-- The scanner after so many steps. -/
def steps : Nat → Scanner → Scanner
  | 0, scanner => scanner
  | n + 1, scanner => steps n scanner.next.2

/-- Everything that a scanner yields, in order. -/
def items (scanner : Scanner) : List (Except Fault Token) :=
  match _h : scanner.next with
  | (none, _) => []
  | (some item, after) => item :: items after
termination_by scanner.rest.length
decreasing_by exact length_rest_next _h

/-- The argument of a root that a scanner yields is shorter than the text it yields the root
from. -/
theorem length_body_next {scanner after : Scanner} {token : Token} {body : Text}
    (h : scanner.next = (some (.ok token), after)) (hroot : token.kind = .root body) :
    body.length < scanner.rest.length := by
  unfold next at h
  split at h
  · cases h
  next c text hrest =>
    dsimp only at h
    split at h
    next kind hreading =>
      cases h
      dsimp only at hroot
      rw [hroot] at hreading
      have hparts := congrArg List.length (Front.literal_append_rest scanner.previous c text)
      rw [Front.literal_of_root hreading] at hparts
      simp only [Token.rootOpening, List.length_append, List.length_cons] at hparts
      rw [hrest, List.length_cons]
      omega
    next => cases h

end Scanner

/-- The tokens of a text up to its end, or up to the first fault. -/
structure Scan where
  tokens : List Token
  fault : Option Fault

namespace Scan

/-- The tokens before the first fault, and that fault. -/
def ofItems : List (Except Fault Token) → Scan
  | [] => ⟨[], none⟩
  | .error fault :: _ => ⟨[], some fault⟩
  | .ok token :: items =>
    let scan := ofItems items
    ⟨token :: scan.tokens, scan.fault⟩

/-- The scan of a text that stands at a byte offset. -/
def of (offset : Nat) (text : Text) : Scan := ofItems (Scanner.start offset text).items

/-- The argument of a root in a scan is shorter than the text that was scanned. -/
theorem length_body_lt (scanner : Scanner) {token : Token} {body : Text}
    (h : token ∈ (ofItems scanner.items).tokens) (hroot : token.kind = .root body) :
    body.length < scanner.rest.length := by
  fun_induction Scanner.items scanner with
  | case1 => cases h
  | case2 scanner item after hnext ih =>
    cases item with
    | error fault => cases h
    | ok first =>
      rcases List.mem_cons.1 h with rfl | h
      · exact Scanner.length_body_next hnext hroot
      · exact Nat.lt_trans (ih h) (Scanner.length_rest_next hnext)

end Scan

end Surd
