import Surd.Proofs.Evaluation.Places
import Surd.Proofs.Normal
import Surd.Proofs.Parentheses

/-!
# What diagnostics point at

The span of a fault comes from the offsets that tokens and frames carry along, and the frame of a
root lies in the frame of another one. All these offsets are places in the normal form of the whole
text (`Frame.StandsIn`). So the characters that a span covers are those that the cause speaks of
(`Cause.Describes`), however deep in roots the fault lies (`evaluate_points`).
-/

namespace Surd

open Front Text

/-! ## What a cause says about its place -/

/-- The piece between two parts of a text is all of the text, or the argument of a root, with the
parentheses of that root around it. -/
def Text.IsFrame (before piece after : Text) : Prop :=
  before = [] ∧ after = [] ∨
    Token.rootOpening <:+ before ∧ [')'] <+: after ∧ Balanced piece

/-- The piece between two parts of a text is a run of digits and points that cannot be extended. -/
def Text.IsRun (before piece after : Text) : Prop :=
  (∀ c ∈ before.getLast?, isNumeric c = false) ∧ (∀ c ∈ piece, isNumeric c = true) ∧
    ∀ c ∈ after.head?, isNumeric c = false

/-- What a cause says about the piece that it marks between two parts of a text. -/
def Cause.Describes (before piece after : Text) : Cause → Prop
  | unexpectedCharacter c =>
    piece = [c] ∧ isNumeric c = false ∧ c ∉ ['+', '-', '*', '/', '^', '(', ')', '√']
  | invalidNumber literal =>
    piece = literal ∧ ∃ sign run, literal = sign ++ run ∧ (sign = [] ∨ sign = ['-']) ∧
      IsRun (before ++ sign) run after ∧
      ((∀ c ∈ run, c.isDigit = false) ∨ 2 ≤ run.count '.')
  | missingOperand op => piece = [op.symbol]
  | divisionByZero => piece = ['/']
  | unmatchedClose => piece = [')']
  | unclosedParen => piece = ['(']
  | missingRootParen => piece = ['√'] ∧ after.head? ≠ some '('
  | unterminatedRoot => Token.rootOpening <+: piece ∧ after = []
  | negativeRoot value =>
    ∃ body, piece = Token.rootOpening ++ body ++ [')'] ∧ Balanced body ∧
      evaluate body = .ok value ∧ value < 0
  | missingOperator count => 2 ≤ count ∧ IsFrame before piece after
  | emptyExpression => IsFrame before piece after

/-- The span of a fault covers a piece of a text, and the piece is as the cause says. -/
def Fault.PointsInto (fault : Fault) (source : Text) : Prop :=
  ∃ before piece after, source = before ++ piece ++ after ∧
    fault.span = .of (Text.bytes before) piece ∧ fault.cause.Describes before piece after

namespace Text.IsFrame

variable {before piece after : Text} {c : Char}

/-- In front of a frame stands nothing or an opening parenthesis. -/
theorem mem_getLast?_append (h : IsFrame before piece after) {left : Text}
    (hc : c ∈ (before ++ left).getLast?) : c ∈ left.getLast? ∨ c = '(' := by
  rw [List.getLast?_append] at hc
  cases hlast : left.getLast? with
  | some d =>
    rw [hlast, Option.some_or] at hc
    exact .inl hc
  | none =>
    rw [hlast, Option.none_or] at hc
    rcases h with ⟨rfl, -⟩ | ⟨⟨front, rfl⟩, -⟩
    · cases hc
    · rw [List.getLast?_append] at hc
      exact .inr (Option.some.inj hc).symm

/-- Behind a frame stands nothing or a closing parenthesis. -/
theorem mem_head?_append (h : IsFrame before piece after) {right : Text}
    (hc : c ∈ (right ++ after).head?) : c ∈ right.head? ∨ c = ')' := by
  cases right with
  | cons d right => exact .inl hc
  | nil =>
    rcases h with ⟨-, rfl⟩ | ⟨-, ⟨rest, rfl⟩, -⟩
    · cases hc
    · exact .inr (Option.some.inj hc).symm

/-- Digits and points that cannot be extended in a frame cannot be extended in the whole text. -/
theorem isRun {left sign run right : Text} (h : IsFrame before piece after)
    (hsign : sign = [] ∨ sign = ['-']) (hne : sign ++ run ≠ [])
    (hseparate : Separate left (sign ++ run ++ right)) (hnumeric : ∀ c ∈ run, isNumeric c = true)
    (hright : ∀ c ∈ right.head?, isNumeric c = false) :
    IsRun (before ++ left ++ sign) run (right ++ after) := by
  refine ⟨fun c hc => ?_, hnumeric, fun c hc => ?_⟩
  · rcases hsign with rfl | rfl
    · rw [List.append_nil] at hc
      rcases h.mem_getLast?_append hc with hlast | rfl
      · obtain ⟨d, run, rfl⟩ := List.exists_cons_of_ne_nil hne
        -- a digit or point there would belong to the run
        by_contra hbefore
        rw [Bool.not_eq_false] at hbefore
        have hfirst := hseparate c hlast hbefore d rfl
        rw [hnumeric d List.mem_cons_self] at hfirst
        cases hfirst
      · decide
    · rw [List.getLast?_concat] at hc
      cases hc
      decide
  · rcases h.mem_head?_append hc with hc | rfl
    · exact hright c hc
    · decide

end Text.IsFrame

/-- What is no token is so in the whole text as well, whatever frame it stands in: what surrounds
the frame adds nothing to it. -/
theorem Front.Rejects.describes {cause : Cause} {before left piece right after : Text}
    (h : Rejects cause piece right) (hne : piece ≠ []) (hseparate : Separate left (piece ++ right))
    (hframe : IsFrame before (left ++ piece ++ right) after) :
    cause.Describes (before ++ left) piece (right ++ after) := by
  cases h with
  | unexpectedCharacter hnumeric hplain => exact ⟨rfl, hnumeric, hplain⟩
  | invalidNumber hsign hnumeric hright hbad =>
    exact ⟨rfl, _, _, rfl, hsign, hframe.isRun hsign hne hseparate hnumeric hright, hbad⟩
  | missingRootParen hopen =>
    refine ⟨rfl, fun hafter => ?_⟩
    rcases hframe.mem_head?_append hafter with hright | hparen
    · exact hopen hright
    · exact absurd hparen (by decide)
  | @unterminatedRoot inner hsplit =>
    refine ⟨List.prefix_append _ _, ?_⟩
    rcases hframe with ⟨-, rfl⟩ | ⟨-, -, hbalanced⟩
    · rfl
    · rw [List.append_nil] at hbalanced
      exact absurd hbalanced (not_balanced_of_open_root hsplit left)

/-! ## Where frames stand -/

namespace Frame

/-- A frame has its place in a text: it starts at the offset that it carries, and is all of the text
or the argument of a root in it. -/
def StandsIn (source : Text) (frame : Frame) : Prop :=
  ∃ before after, source = before ++ frame.text ++ after ∧
    frame.offset = Text.bytes before ∧ IsFrame before frame.text after

/-- The frame of a whole text stands in the text. -/
theorem standsIn_whole (text : Text) : (whole text).StandsIn text :=
  ⟨[], [], (List.append_nil _).symm, rfl, .inl ⟨rfl, rfl⟩⟩

namespace StandsIn

variable {source : Text} {frame : Frame} {fault : Fault} {token : Token}

/-- The arguments of roots stand where the tokens of these roots say. -/
theorem argument (h : frame.StandsIn source) {argument : Frame}
    (hmem : argument ∈ frame.arguments) : argument.StandsIn source := by
  obtain ⟨before, after, rfl, hoffset, -⟩ := h
  obtain ⟨token, htoken, body, hkind, rfl⟩ := mem_arguments_iff.mp hmem
  obtain ⟨left, right, htext, hplace⟩ := Scanner.exists_place htoken
  obtain ⟨hliteral, hbalanced⟩ := (Scanner.spelled_of_mem htoken).root hkind
  rw [hliteral] at htext
  refine ⟨before ++ left ++ Token.rootOpening, ')' :: (right ++ after), ?_, ?_, .inr
    ⟨List.suffix_append _ _, List.prefix_append _ _, hbalanced⟩⟩
  · rw [htext]
    simp [ofRoot]
  · simp only [ofRoot, hplace, hoffset, Text.bytes_append, Nat.add_assoc]

/-- Every frame in a frame stands in the same text. -/
theorem of_mem_frames (h : frame.StandsIn source) {inner : Frame} (hmem : inner ∈ frame.frames) :
    inner.StandsIn source :=
  Frame.of_mem_frames (motive := StandsIn source) (fun _ h _ => h.argument) h hmem

/-- A fault in a piece of a frame points into the text. -/
theorem points_at_piece (h : frame.StandsIn source) {left piece right : Text}
    (htext : frame.text = left ++ piece ++ right)
    (hspan : fault.span = .of (frame.offset + Text.bytes left) piece)
    (hdescribes : ∀ before after, IsFrame before frame.text after →
      fault.cause.Describes (before ++ left) piece (right ++ after)) :
    fault.PointsInto source := by
  obtain ⟨before, after, rfl, hoffset, hframe⟩ := h
  refine ⟨before ++ left, piece, right ++ after, ?_, ?_, hdescribes before after hframe⟩
  · rw [htext]
    simp
  · rw [hspan, hoffset, Text.bytes_append]

/-- A fault in a token of a frame points into the text. -/
theorem points_at_token (h : frame.StandsIn source) (htoken : token ∈ frame.scan.tokens)
    (hspan : fault.span = token.span)
    (hdescribes : ∀ before after, fault.cause.Describes before token.literal after) :
    fault.PointsInto source := by
  obtain ⟨left, right, htext, hplace⟩ := Scanner.exists_place htoken
  refine h.points_at_piece htext ?_ fun before after _ => hdescribes _ _
  rw [hspan, Token.span, hplace]

/-- A fault in a token of one byte points into the text. -/
theorem points_at_character (h : frame.StandsIn source) (htoken : token ∈ frame.scan.tokens)
    {cause : Cause} {c : Char} (hliteral : token.literal = [c]) (hsize : c.utf8Size = 1)
    (hdescribes : ∀ before after, cause.Describes before [c] after) :
    (Stacks.faultAt token.offset cause).PointsInto source := by
  refine h.points_at_token htoken ?_ fun before after => ?_
  · rw [Token.span, hliteral, Span.of, Text.bytes_cons, hsize]
    rfl
  · rw [hliteral]
    exact hdescribes before after

/-- A fault of a frame as a whole points into the text. -/
theorem points_at_frame (h : frame.StandsIn source) (hspan : fault.span = frame.span)
    (hdescribes : ∀ before after, IsFrame before frame.text after →
      fault.cause.Describes before frame.text after) : fault.PointsInto source := by
  have htext : frame.text = [] ++ frame.text ++ [] := (List.append_nil _).symm
  refine h.points_at_piece htext hspan fun before after hframe => ?_
  rw [List.append_nil]
  exact hdescribes before after hframe

/-- The argument of a root is a part of the text. -/
theorem body_infix (h : frame.StandsIn source) (htoken : token ∈ frame.scan.tokens) {body : Text}
    (hkind : token.kind = .root body) : body <:+: source := by
  have hmem := mem_arguments_iff.mpr ⟨token, htoken, body, hkind, rfl⟩
  obtain ⟨before, after, hsource, -⟩ := h.argument hmem
  exact ⟨before, after, hsource.symm⟩

end StandsIn

/-- Every flaw of a frame points at its place in the normal form that the frame stands in. -/
theorem Flaw.points {text : Text} {frame : Frame} {fault : Fault} (h : frame.Flaw fault)
    (hstands : frame.StandsIn (normalize text)) : fault.PointsInto (normalize text) := by
  cases h with
  | scan hfault =>
    obtain ⟨left, piece, right, htext, hne, hseparate, hrejects, hspan⟩ :=
      Scanner.exists_rejects hfault
    refine hstands.points_at_piece htext hspan fun before after hframe => ?_
    rw [show frame.text = left ++ piece ++ right from htext] at hframe
    exact hrejects.describes hne hseparate hframe
  | missingOperand hmem hkind =>
    exact hstands.points_at_character hmem ((Scanner.spelled_of_mem hmem).operator hkind)
      (Operator.utf8Size_symbol _) fun _ _ => rfl
  | divisionByZero hmem hkind =>
    exact hstands.points_at_character hmem ((Scanner.spelled_of_mem hmem).operator hkind)
      (Operator.utf8Size_symbol _) fun _ _ => rfl
  | @unmatchedClose before after token hsplit hkind =>
    have hmem : token ∈ frame.scan.tokens :=
      hsplit ▸ List.mem_append_right _ List.mem_cons_self
    exact hstands.points_at_token hmem rfl fun _ _ =>
      (Scanner.spelled_of_mem hmem).rightParen hkind
  | unclosedParen hmem hkind =>
    exact hstands.points_at_character hmem ((Scanner.spelled_of_mem hmem).leftParen hkind) rfl
      fun _ _ => rfl
  | @negativeRoot token body value hmem hkind hvalue hnegative =>
    obtain ⟨hliteral, hbalanced⟩ := (Scanner.spelled_of_mem hmem).root hkind
    have hnormal : normalize body = body := normalize_of_infix (hstands.body_infix hmem hkind)
    have halone : Surd.evaluate body = .ok value := by
      rw [evaluate_eq_ok_iff, hnormal]
      exact evaluate_elsewhere hvalue 0
    exact hstands.points_at_token hmem rfl fun _ _ =>
      ⟨body, hliteral, hbalanced, halone, hnegative⟩
  | missingOperator _ _ hseveral =>
    exact hstands.points_at_frame rfl fun _ _ hframe => ⟨hseveral, hframe⟩
  | emptyExpression => exact hstands.points_at_frame rfl fun _ _ hframe => hframe

/-- Every fault of a frame points at its place in the normal form that the frame stands in. -/
theorem points_of_evaluate {text : Text} {frame : Frame} {fault : Fault}
    (hstands : frame.StandsIn (normalize text)) (hfault : frame.evaluate = .error fault) :
    fault.PointsInto (normalize text) := by
  obtain ⟨inner, hmem, hraises⟩ := exists_raises hfault
  exact hraises.flaw.points (hstands.of_mem_frames hmem)

end Frame

/-- The diagnostic of a text has the normal form of that text as its source, and points at what its
cause names in there. The same holds of the fault of every root in the text, at any depth. -/
theorem evaluate_points (text : Text) :
    (∀ diagnostic, evaluate text = .error diagnostic →
      diagnostic.source = normalize text ∧ diagnostic.toFault.PointsInto diagnostic.source) ∧
    ∀ frame ∈ (Frame.whole (normalize text)).frames, ∀ fault,
      frame.evaluate = .error fault → fault.PointsInto (normalize text) := by
  have hwhole := Frame.standsIn_whole (normalize text)
  refine ⟨fun diagnostic hfault => ?_, fun frame hmem fault => ?_⟩
  · obtain ⟨hframe, hsource⟩ := evaluate_eq_error_iff.mp hfault
    rw [hsource]
    exact ⟨rfl, Frame.points_of_evaluate hwhole hframe⟩
  · exact Frame.points_of_evaluate (hwhole.of_mem_frames hmem)

/-- In a root, the root of a negative number is marked where it stands, and so is what is no number,
though evaluation may end before it comes to that root. -/
theorem evaluate_points_nested :
    (Fault.mk (.negativeRoot (-4)) ⟨8, 16⟩).PointsInto "2*√(3+√(1-5))".toList ∧
    (Fault.mk (.invalidNumber ['.']) ⟨8, 9⟩).PointsInto "1/0+√(.)".toList := by
  have hnegative : evaluate "2 * sqrt(3 + sqrt(1 - 5))".toList =
      .error ⟨⟨.negativeRoot (-4), ⟨8, 16⟩⟩, "2*√(3+√(1-5))".toList⟩ := by decide +kernel
  have hargument : Frame.mk 8 ['.'] ∈ (Frame.whole (normalize "1/0+sqrt(.)".toList)).arguments :=
    Frame.mem_arguments_iff.mpr
      ⟨⟨.root ['.'], "√(.)".toList, 4⟩, by decide +kernel, _, rfl, rfl⟩
  have hinvalid : (Frame.mk 8 ['.']).evaluate = .error ⟨.invalidNumber ['.'], ⟨8, 9⟩⟩ := by
    decide +kernel
  obtain ⟨houter, -⟩ := evaluate_points "2 * sqrt(3 + sqrt(1 - 5))".toList
  obtain ⟨-, hinner⟩ := evaluate_points "1/0+sqrt(.)".toList
  refine ⟨(houter _ hnegative).2, hinner _ ?_ _ hinvalid⟩
  exact Frame.mem_frames_iff.mpr (.inr ⟨_, hargument, Frame.self_mem_frames _⟩)

end Surd
