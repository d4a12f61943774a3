import Mathlib.Data.List.TakeWhile
import Surd.Token.Scanner
import Surd.Proofs.Token.Closing

/-!
# Cutting a text between two tokens

What is read at the front of a text does not change when more text is added behind it, unless the
token runs on into the addition. `Front.Cut` says that the characters on the two sides of a place
do not run together, and `Front.read_append` that only a root which is still open can reach over
such a place. From it, the scan of a concatenation is the scan of its parts (`Scan.from_append`).
-/

namespace Surd

namespace Front

/-- The characters of a number without its sign are digits and points. -/
theorem isNumeric_iff {c : Char} : isNumeric c = true ↔ c.isDigit = true ∨ c = '.' := by
  rw [isNumeric, Bool.or_eq_true, decide_eq_true_eq]

/-- A digit or a point is no other character. -/
theorem ne_of_isNumeric {c d : Char} (hc : isNumeric c = true) (hd : isNumeric d = false) :
    c ≠ d := by
  rintro rfl
  rw [hc] at hd
  cases hd

/-- A minus sign after a digit or a point is an operator. -/
theorem signAllowed_of_isNumeric {c : Char} (hc : isNumeric c = true) :
    signAllowed (some c) = false := by
  have hopen : c ≠ '(' := ne_of_isNumeric hc (by decide)
  have hsymbol : Operator.ofSymbol? c = none := by
    rw [Option.eq_none_iff_forall_ne_some]
    intro op hop
    rw [Operator.ofSymbol?_eq_some_iff] at hop
    exact ne_of_isNumeric hc (by cases op <;> decide) hop
  simp [signAllowed, hopen, hsymbol]

/-- Whether two characters can stand next to each other in a number, or at the front of a root. -/
def joins (c d : Char) : Bool :=
  (isNumeric c || c = '-') && isNumeric d || isNumeric c && d = '%' || c = '√' && d = '('

/-- No number and no root sign with its parenthesis reaches over the place between two texts. -/
def Cut (left right : Text) : Prop := ∀ c ∈ left.getLast?, ∀ d ∈ right.head?, joins c d = false

/-- What was read at the front of a text when more text is added at its end. -/
def append (front : Front) (right : Text) : Front := { front with rest := front.rest ++ right }

/-- The end of a text cuts nothing. -/
theorem cut_nil_right (left : Text) : Cut left [] := by
  intro c _ d hd
  cases hd

/-- No number and no root sign reaches over a character that is not part of either. -/
theorem cut_cons {left right : Text} {d : Char} (hnumeric : isNumeric d = false) (hopen : d ≠ '(')
    (hpercent : d ≠ '%') : Cut left (d :: right) := by
  intro c _ d' hd
  cases hd
  simp [joins, hnumeric, hopen, hpercent]

/-- Only the last characters of the left text matter for a cut. -/
theorem Cut.of_append {front left right : Text} (hcut : Cut (front ++ left) right) :
    Cut left right := by
  intro c hc d hd
  refine hcut c ?_ d hd
  rw [List.getLast?_append, hc]
  rfl

/-- A percent sign behind a number belongs to it. -/
theorem ofLiteral_percent {literal : Text} {value : Float}
    (hread : Number.read? literal = some value) (rest : Text) :
    ofLiteral literal ('%' :: rest) = ⟨.ok (.number (value / 100)), literal ++ ['%'], rest⟩ := by
  simp only [ofLiteral, hread]

/-- Without a percent sign behind it a number is as it is written. -/
theorem ofLiteral_plain {literal rest : Text} {value : Float}
    (hread : Number.read? literal = some value) (hrest : rest.head? ≠ some '%') :
    ofLiteral literal rest = ⟨.ok (.number value), literal, rest⟩ := by
  simp only [ofLiteral, hread]
  split
  · exact absurd rfl hrest
  · rfl

/-- More text behind a literal is left over, unless it begins with the percent sign of the literal.
-/
theorem ofLiteral_append {literal rest right : Text}
    (hpercent : (Number.read? literal).isSome → rest = [] → right.head? ≠ some '%') :
    ofLiteral literal (rest ++ right) = (ofLiteral literal rest).append right := by
  cases hread : Number.read? literal with
  | none => simp only [ofLiteral, hread, append]
  | some value =>
    cases rest with
    | cons d rest =>
      by_cases hd : d = '%'
      · rw [hd, List.cons_append, ofLiteral_percent hread, ofLiteral_percent hread]
        rfl
      · have hhead (rest : Text) : (d :: rest).head? ≠ some '%' := fun h => hd (Option.some.inj h)
        rw [List.cons_append, ofLiteral_plain hread (hhead _), ofLiteral_plain hread (hhead _)]
        rfl
    | nil =>
      have hhead := hpercent (by rw [hread]; rfl) rfl
      rw [List.nil_append, ofLiteral_plain hread hhead, ofLiteral_plain hread (by simp)]
      rfl

/-- A number ends where a character follows that cannot be part of it. -/
theorem number_append {sign text right : Text} (hsign : sign = [] ∨ sign = ['-'])
    (hsome : sign ++ text ≠ []) (hcut : Cut (sign ++ text) right) :
    number sign (text ++ right) = (number sign text).append right := by
  unfold number
  by_cases hall : text.dropWhile isNumeric = []
  · -- the number takes all of the text, so its last character is numeric or the sign
    have hnumeric : ∀ c ∈ text, isNumeric c = true := List.dropWhile_eq_nil_iff.mp hall
    have hlast : ∀ c ∈ (sign ++ text).getLast?, isNumeric c = true ∨ text = [] ∧ c = '-' := by
      intro c hc
      cases htext : text.getLast? with
      | some d =>
        rw [List.getLast?_append, htext, Option.some_or] at hc
        cases hc
        exact .inl (hnumeric c (List.mem_of_getLast? htext))
      | none =>
        have hempty : text = [] := List.getLast?_eq_none_iff.mp htext
        rcases hsign with rfl | rfl
        · simp [hempty] at hsome
        · right
          rw [hempty, List.append_nil, List.getLast?_singleton] at hc
          cases hc
          exact ⟨hempty, rfl⟩
    obtain ⟨last, hmem⟩ : ∃ c, (sign ++ text).getLast? = some c :=
      ⟨_, List.getLast?_eq_some_getLast hsome⟩
    have hhead : ∀ d ∈ right.head?, isNumeric d = false := by
      intro d hd
      have hjoins := hcut last hmem d hd
      rcases hlast last hmem with hn | ⟨-, hn⟩ <;> simp_all [joins]
    have htake : right.takeWhile isNumeric = [] ∧ right.dropWhile isNumeric = right := by
      cases right with
      | nil => exact ⟨rfl, rfl⟩
      | cons d right => simp [hhead d rfl]
    rw [List.takeWhile_append_of_pos hnumeric, List.dropWhile_append_of_pos hnumeric, htake.1,
      htake.2, List.append_nil, List.takeWhile_eq_self_iff.mpr hnumeric, hall]
    change ofLiteral (sign ++ text) ([] ++ right) = _
    refine ofLiteral_append fun hread _ hpercent => ?_
    have hjoins := hcut last hmem '%' hpercent
    rcases hlast last hmem with hn | ⟨hempty, -⟩
    · simp [joins, hn] at hjoins
    · rcases hsign with rfl | rfl
      · simp [hempty] at hsome
      · rw [hempty] at hread
        exact absurd hread (by decide)
  · have hlonger : (text.takeWhile isNumeric).length ≠ text.length := by
      intro hlength
      apply hall
      have hparts := congrArg List.length (@List.takeWhile_append_dropWhile _ isNumeric text)
      rw [List.length_append, hlength] at hparts
      exact List.length_eq_zero_iff.mp (by omega)
    rw [List.takeWhile_append, if_neg hlonger, List.dropWhile_append, if_neg (by simpa using hall)]
    exact ofLiteral_append fun _ hempty => absurd hempty hall

/-- Behind a cut nothing matters to what is read at the front, unless that is an open root. -/
theorem read_append {previous : Option Char} {c : Char} {text right : Text}
    (hcut : Cut (c :: text) right)
    (hclosed : (read previous c text).reading ≠ .error .unterminatedRoot) :
    read previous c (text ++ right) = (read previous c text).append right := by
  unfold read at hclosed ⊢
  by_cases hleft : c = '('
  · simp only [if_pos hleft]
    rfl
  by_cases hright : c = ')'
  · simp only [if_neg hleft, if_pos hright]
    rfl
  simp only [if_neg hleft, if_neg hright] at hclosed ⊢
  by_cases hminus : c = '-' ∧ signAllowed previous
  · simp only [if_pos hminus]
    exact number_append (.inr (by rw [hminus.1])) (by simp) hcut
  simp only [if_neg hminus] at hclosed ⊢
  by_cases hnumeric : isNumeric c
  · simp only [if_pos hnumeric]
    exact number_append (.inl rfl) (by simp) hcut
  simp only [if_neg hnumeric] at hclosed ⊢
  by_cases hroot : c = '√'
  · simp only [if_pos hroot] at hclosed ⊢
    subst hroot
    match text with
    | [] =>
      cases right with
      | nil => rfl
      | cons d right =>
        have hd : d ≠ '(' := by
          rintro rfl
          exact absurd (hcut '√' rfl '(' rfl) (by decide)
        simp [root, append, hd]
    | d :: text =>
      by_cases hd : d = '('
      · subst hd
        simp only [root, List.cons_append] at hclosed ⊢
        cases hsplit : splitClose 0 text with
        | none => simp [hsplit] at hclosed
        | some split =>
          rw [splitClose_append_right hsplit]
          rfl
      · simp [root, append, hd]
  · simp only [if_neg hroot]
    cases Operator.ofSymbol? c <;> rfl

/-- What is left behind the front is cut from an addition where the whole text is. -/
theorem cut_rest {previous : Option Char} {c : Char} {text right : Text}
    (hcut : Cut (c :: text) right) : Cut (read previous c text).rest right := by
  rw [← literal_append_rest previous c text] at hcut
  exact hcut.of_append

/-- The last character of a text is that of its rest, or of the front if nothing is left. -/
theorem getLast?_rest_or (previous : Option Char) (c : Char) (text : Text) :
    (read previous c text).rest.getLast?.or (read previous c text).literal.getLast? =
      (c :: text).getLast? := by
  rw [← literal_append_rest previous c text, List.getLast?_append]

end Front

/-- A scan with tokens before it. -/
def Scan.after (tokens : List Token) (scan : Scan) : Scan := ⟨tokens ++ scan.tokens, scan.fault⟩

namespace Scanner

/-- Everything that a scanner yields, as a scan. -/
def scan (scanner : Scanner) : Scan := .ofItems scanner.items

/-- What a scanner yields first comes before what it yields afterwards. -/
theorem items_of_next {scanner after : Scanner} {item : Except Fault Token}
    (hnext : scanner.next = (some item, after)) : scanner.items = item :: after.items := by
  rw [items]
  split
  next after' hnone =>
    rw [hnext] at hnone
    cases hnone
  next item' after' hsome =>
    rw [hnext] at hsome
    cases hsome
    rfl

/-- Nothing is read from an empty text. -/
theorem items_nil (offset : Nat) (previous : Option Char) : items ⟨offset, previous, []⟩ = [] := by
  rw [items]
  rfl

/-- The scan of an empty text has no tokens and no fault. -/
theorem scan_nil (offset : Nat) (previous : Option Char) :
    scan ⟨offset, previous, []⟩ = ⟨[], none⟩ := by
  rw [scan, items_nil]
  rfl

/-- A token at the front is yielded, and the scanner stands behind it. -/
theorem next_of_ok {offset : Nat} {previous : Option Char} {c : Char} {text : Text}
    {kind : Token.Kind} (hread : (Front.read previous c text).reading = .ok kind) :
    next ⟨offset, previous, c :: text⟩ =
      (some (.ok ⟨kind, (Front.read previous c text).literal, offset⟩),
        ⟨offset + Text.bytes (Front.read previous c text).literal,
          (Front.read previous c text).literal.getLast?, (Front.read previous c text).rest⟩) := by
  simp only [next, hread]
  rfl

/-- A fault at the front is yielded, and nothing is left to read. -/
theorem next_of_error {offset : Nat} {previous : Option Char} {c : Char} {text : Text}
    {cause : Cause} (hread : (Front.read previous c text).reading = .error cause) :
    next ⟨offset, previous, c :: text⟩ =
      (some (.error ⟨cause, .of offset (Front.read previous c text).literal⟩),
        ⟨offset + Text.bytes (Front.read previous c text).literal,
          (Front.read previous c text).literal.getLast?, []⟩) := by
  simp only [next, hread]
  rfl

/-- A token at the front is followed by the scan of what is left. -/
theorem scan_of_ok {offset : Nat} {previous : Option Char} {c : Char} {text : Text}
    {kind : Token.Kind} (hread : (Front.read previous c text).reading = .ok kind) :
    scan ⟨offset, previous, c :: text⟩ =
      .after [⟨kind, (Front.read previous c text).literal, offset⟩]
        (scan ⟨offset + Text.bytes (Front.read previous c text).literal,
          (Front.read previous c text).literal.getLast?, (Front.read previous c text).rest⟩) := by
  rw [scan, items_of_next (next_of_ok hread)]
  rfl

/-- A fault at the front ends the scan. -/
theorem scan_of_error {offset : Nat} {previous : Option Char} {c : Char} {text : Text}
    {cause : Cause} (hread : (Front.read previous c text).reading = .error cause) :
    scan ⟨offset, previous, c :: text⟩ =
      ⟨[], some ⟨cause, .of offset (Front.read previous c text).literal⟩⟩ := by
  rw [scan, items_of_next (next_of_error hread)]
  rfl

/-- Induction along a scan: over the end of the text, a fault, and a token with the rest behind
it. -/
theorem scan_induction {motive : Nat → Option Char → Text → Prop}
    (nil : ∀ offset previous, motive offset previous [])
    (fault : ∀ offset previous c text cause,
      (Front.read previous c text).reading = .error cause → motive offset previous (c :: text))
    (token : ∀ offset previous c text kind,
      (Front.read previous c text).reading = .ok kind →
      motive (offset + Text.bytes (Front.read previous c text).literal)
        (Front.read previous c text).literal.getLast? (Front.read previous c text).rest →
      motive offset previous (c :: text))
    (offset : Nat) (previous : Option Char) (text : Text) : motive offset previous text := by
  induction hlength : text.length using Nat.strong_induction_on
    generalizing offset previous text with
  | h length ih =>
    cases text with
    | nil => exact nil offset previous
    | cons c text =>
      cases hread : (Front.read previous c text).reading with
      | error cause => exact fault offset previous c text cause hread
      | ok kind =>
        refine token offset previous c text kind hread (ih _ ?_ _ _ _ rfl)
        rw [← hlength]
        exact Front.length_rest_lt previous c text

end Scanner

end Surd
