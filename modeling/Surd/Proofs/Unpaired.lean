import Surd.Proofs.Evaluation.OpenGroups
import Surd.Proofs.Evaluation.Visits
import Surd.Proofs.Parentheses

/-!
# Which parenthesis has no counterpart

Evaluation never looks at the parentheses of a text as a whole: those in the arguments of roots are
passed over, and the others become groups on a stack with operators between them. Still a fault in a
parenthesis marks the one that the whole text names: the first closing one too many, the last
opening one that is not closed, or the first root that is not closed (`evaluate_unpaired`).
-/

namespace Surd

open Text Front

/-! ## Parentheses in a text -/

namespace Text

/-- At a place of a text stands the first closing parenthesis with which more parentheses are closed
than were opened. -/
def FirstExcessAt (source : Text) (place : Nat) : Prop :=
  ∃ before after, source = before ++ ')' :: after ∧ place = bytes before ∧
    before.count '(' < (before ++ [')']).count ')' ∧
    ∀ front, front <+: before → front.count ')' ≤ front.count '('

/-- At a place of a text stands the last opening parenthesis that is not closed. -/
def LastUnclosedAt (source : Text) (place : Nat) : Prop :=
  ∃ before after, source = before ++ '(' :: after ∧ place = bytes before ∧ ¬ Closes after ∧
    ∀ left right, after = left ++ '(' :: right → Closes right

/-- At a place of a text stands the first root sign whose parenthesis is not closed. -/
def FirstUnclosedRootAt (source : Text) (place : Nat) : Prop :=
  ∃ before after, source = before ++ '√' :: '(' :: after ∧ place = bytes before ∧ ¬ Closes after ∧
    ∀ left right, source = left ++ '√' :: '(' :: right → left.length < before.length → Closes right

variable {text left right : Text}

/-- A parenthesis that is closed stays so when more text follows. -/
theorem Closes.append (h : Closes text) (more : Text) : Closes (text ++ more) := by
  obtain ⟨body, rest, rfl, hbody⟩ := h
  exact ⟨body, rest ++ more, by rw [List.append_assoc, List.cons_append], hbody⟩

/-- A text that closes no more than it opens closes no parenthesis in front of it. -/
theorem not_closes_of_depthAfter? {depth : Nat} (hdepth : depthAfter? 0 text = some depth) :
    ¬ Closes text :=
  splitClose_eq_none_iff_not_closes.mp (splitClose_eq_none_iff.mpr ⟨depth, hdepth⟩)

/-- Every parenthesis that a balanced text opens is closed in it. -/
theorem Balanced.closes (h : Balanced (left ++ '(' :: right)) : Closes right := by
  rw [balanced_iff, depthAfter?_append, Option.bind_eq_some_iff] at h
  obtain ⟨depth, -, hdepth⟩ := h
  rw [depthAfter?_open] at hdepth
  by_contra hopen
  obtain ⟨inner, hopen⟩ := splitClose_eq_none_iff.mp (splitClose_eq_none_iff_not_closes.mpr hopen)
  have htotal := (depthAfter?_eq_some_iff.mp hdepth).1
  have hinner := (depthAfter?_eq_some_iff.mp hopen).1
  omega

end Text

/-! ## Roots among tokens -/

/-- A root sign in a token is that of a root, so its parenthesis is closed in the token. -/
theorem Token.Spelled.closes_of_root_sign {token : Token} (h : token.Spelled)
    {rest left right : Text} (htext : token.literal ++ rest = left ++ '√' :: '(' :: right)
    (hlength : left.length < token.literal.length) : Closes right := by
  rcases List.append_eq_append_iff.mp htext with ⟨more, rfl, -⟩ | ⟨piece, hliteral, hrest⟩
  · rw [List.length_append] at hlength
    omega
  have hsome : piece ≠ [] := by
    rintro rfl
    rw [hliteral, List.append_nil] at hlength
    exact Nat.lt_irrefl _ hlength
  obtain ⟨c, piece, rfl⟩ := List.exists_cons_of_ne_nil hsome
  obtain ⟨rfl, hpiece⟩ := List.cons.inj hrest
  obtain ⟨body, hkind⟩ : ∃ body, token.kind = .root body := by
    by_contra hnone
    refine h.not_mem_literal (fun body hkind => hnone ⟨body, hkind⟩) ?_
    rw [hliteral]
    exact List.mem_append_right _ List.mem_cons_self
  obtain ⟨hspelled, hbody⟩ := h.root hkind
  have hbalanced : Balanced token.literal := by
    rw [hspelled]
    exact hbody.group.cons (by decide) (by decide)
  -- a root sign is not the last character of a root
  cases piece with
  | nil =>
    have hlast : token.literal.getLast? = some ')' := by
      rw [hspelled]
      exact List.getLast?_concat
    rw [hliteral, List.getLast?_concat] at hlast
    exact absurd (Option.some.inj hlast) (by decide)
  | cons d piece =>
    obtain ⟨rfl, rfl⟩ := List.cons.inj hpiece
    rw [hliteral, List.append_cons] at hbalanced
    exact hbalanced.closes.append rest

/-- The parenthesis of every root sign that stands in tokens is closed. -/
theorem Token.closes_of_join {tokens : List Token} (hspelled : ∀ token ∈ tokens, token.Spelled)
    {rest left right : Text} (htext : join tokens ++ rest = left ++ '√' :: '(' :: right)
    (hlength : left.length < (join tokens).length) : Closes right := by
  induction tokens generalizing left with
  | nil => exact absurd hlength (Nat.not_lt_zero _)
  | cons token tokens ih =>
    have hfirst := hspelled token List.mem_cons_self
    rw [join_cons, List.append_assoc] at htext
    rw [join_cons, List.length_append] at hlength
    by_cases hinside : left.length < token.literal.length
    · exact hfirst.closes_of_root_sign htext hinside
    · obtain ⟨more, rfl⟩ := List.prefix_of_prefix_length_le ⟨_, htext⟩ (List.prefix_append left _)
        (Nat.le_of_not_lt hinside)
      rw [List.append_assoc] at htext
      rw [List.length_append] at hlength
      exact ih (fun other hmem => hspelled other (List.mem_cons_of_mem _ hmem))
        (List.append_cancel_left htext) (by omega)

namespace Frame

variable {fault : Fault} {source : Text}

/-- A parenthesis without a counterpart is a fault of the outermost frame. -/
theorem raises_of_unpaired {frame : Frame} (hfault : frame.evaluate = .error fault)
    (hunpaired : fault.cause.IsUnpaired) : frame.Raises fault := by
  refine (evaluate_eq_error_iff.mp hfault).resolve_right fun hinherits => ?_
  obtain ⟨argument, hmem, hargument⟩ := hinherits.exists_argument
  exact not_unpaired_of_balanced (balanced_of_mem_arguments hmem) hargument hunpaired

/-- A closing parenthesis that none opens stands behind tokens that close what they open. -/
theorem firstExcessAt_of_raises (h : (whole source).Raises fault)
    (hcause : fault.cause = .unmatchedClose) : FirstExcessAt source fault.span.start := by
  cases h.flaw with
  | scan hscan =>
    obtain ⟨left, piece, right, -, -, -, hrejects, -⟩ := Scanner.exists_rejects hscan
    rw [hcause] at hrejects
    cases hrejects
  | @unmatchedClose before after token hsplit hkind hdepth =>
    obtain ⟨right, htext, -, hscan⟩ := Scanner.exists_rest hsplit
    obtain ⟨hoffset, rest, rfl, -, -⟩ :=
      Scanner.exists_rest_of_cons (congrArg Scan.tokens hscan)
    have hspelled : ∀ first ∈ before ++ token :: after, first.Spelled := fun first hmem =>
      Scanner.spelled_of_mem (hsplit ▸ hmem)
    rw [(hspelled token (by simp)).rightParen hkind] at htext
    rw [← Token.depthAfter?_join fun first hmem => hspelled first (List.mem_append_left _ hmem),
      ← balanced_iff] at hdepth
    refine ⟨Token.join before, rest, htext, ?_, ?_, hdepth.2⟩
    · exact hoffset.trans (Nat.zero_add _)
    · rw [List.count_append, List.count_singleton_self, hdepth.1]
      exact Nat.lt_succ_self _
  | missingOperand | divisionByZero | unclosedParen | negativeRoot | missingOperator
  | emptyExpression => cases hcause

/-- A parenthesis that is still open at the end stands in front of tokens that close what they
open. -/
theorem lastUnclosedAt_of_raises (h : (whole source).Raises fault)
    (hcause : fault.cause = .unclosedParen) : LastUnclosedAt source fault.span.start := by
  obtain ⟨hsound, before, token, after, hsplit, hkind, hafter, rfl⟩ := h.unclosedParen hcause
  obtain ⟨right, htext, -, hscan⟩ := Scanner.exists_rest hsplit
  obtain ⟨hoffset, rest, rfl, -, hrest⟩ :=
    Scanner.exists_rest_of_cons (congrArg Scan.tokens hscan)
  have hspelled : ∀ first ∈ before ++ token :: after, first.Spelled := fun first hmem =>
    Scanner.spelled_of_mem (hsplit ▸ hmem)
  rw [(hspelled token (by simp)).leftParen hkind] at htext
  rw [hscan] at hrest
  have hjoin := Scanner.join_tokens ((congrArg Scan.fault hrest).trans hsound)
  have hbalanced : Balanced rest := by
    rw [← hjoin, hrest, balanced_iff, Token.depthAfter?_join fun first hmem =>
      hspelled first (List.mem_append_right _ (List.mem_cons_of_mem _ hmem))]
    exact hafter
  refine ⟨Token.join before, rest, htext, hoffset.trans (Nat.zero_add _), ?_, ?_⟩
  · exact not_closes_of_depthAfter? (balanced_iff.mp hbalanced)
  · rintro left right rfl
    exact hbalanced.closes

/-- A root that is not closed stands behind tokens in which all roots are. -/
theorem firstUnclosedRootAt_of_raises (h : (whole source).Raises fault)
    (hcause : fault.cause = .unterminatedRoot) :
    FirstUnclosedRootAt source fault.span.start ∧ fault.span.stop = bytes source := by
  cases h.flaw with
  | scan hscan =>
    obtain ⟨piece, right, htext, -, -, hrejects, hspan⟩ := Scanner.rejects_behind_tokens hscan
    rw [hcause] at hrejects
    cases hrejects with
    | @unterminatedRoot inner hsplit =>
      rw [List.append_nil] at htext
      obtain ⟨depth, hdepth⟩ := splitClose_eq_none_iff.mp hsplit
      change fault.span = .of (0 + bytes _) _ at hspan
      rw [hspan, Nat.zero_add]
      refine ⟨⟨_, inner, htext, rfl, not_closes_of_depthAfter? hdepth, ?_⟩, ?_⟩
      · intro left right hsource hlength
        exact Token.closes_of_join (fun _ => Scanner.spelled_of_mem) (htext.symm.trans hsource)
          hlength
      · exact (bytes_append ..).symm.trans (congrArg bytes htext.symm)
  | missingOperand | divisionByZero | unmatchedClose | unclosedParen | negativeRoot
  | missingOperator | emptyExpression => cases hcause

end Frame

/-- A fault in a parenthesis marks the one that the parentheses of the whole normal form name, as
they match over all of its characters, those in roots included. If a closing parenthesis is not
opened, it is the first one with which more are closed than were opened. If an opening one is not
closed, it is the last one of these. If a root is not closed, it is the first one of these, and all
that follows is marked with it. -/
theorem evaluate_unpaired {text : Text} {diagnostic : Diagnostic}
    (hfault : evaluate text = .error diagnostic) :
    (diagnostic.cause = .unmatchedClose →
      FirstExcessAt (normalize text) diagnostic.span.start) ∧
    (diagnostic.cause = .unclosedParen →
      LastUnclosedAt (normalize text) diagnostic.span.start) ∧
    (diagnostic.cause = .unterminatedRoot →
      FirstUnclosedRootAt (normalize text) diagnostic.span.start ∧
        diagnostic.span.stop = bytes (normalize text)) := by
  have hframe := (evaluate_eq_error_iff.mp hfault).1
  have hraises (hunpaired : diagnostic.cause.IsUnpaired) :=
    Frame.raises_of_unpaired hframe hunpaired
  refine ⟨fun hcause => ?_, fun hcause => ?_, fun hcause => ?_⟩
  · exact Frame.firstExcessAt_of_raises (hraises (by rw [hcause]; trivial)) hcause
  · exact Frame.lastUnclosedAt_of_raises (hraises (by rw [hcause]; trivial)) hcause
  · exact Frame.firstUnclosedRootAt_of_raises (hraises (by rw [hcause]; trivial)) hcause

/-- Parentheses in roots count: a closing one is too many only behind the root, an open one is
passed over if a root behind it is closed, and so is a root that a later one does not close
either. -/
theorem evaluate_unpaired_roots :
    FirstExcessAt (normalize "sqrt(2)) + (1".toList) 6 ∧
      LastUnclosedAt (normalize "(1 + (2*sqrt(3)".toList) 3 ∧
      FirstUnclosedRootAt (normalize "sqrt(4) + sqrt((2) + sqrt(1)".toList) 7 ∧
      bytes (normalize "sqrt(4) + sqrt((2) + sqrt(1)".toList) = 21 := by
  have hexcess : evaluate "sqrt(2)) + (1".toList =
      .error ⟨⟨.unmatchedClose, ⟨6, 7⟩⟩, "√(2))+(1".toList⟩ := by decide +kernel
  have hopen : evaluate "(1 + (2*sqrt(3)".toList =
      .error ⟨⟨.unclosedParen, ⟨3, 4⟩⟩, "(1+(2*√(3)".toList⟩ := by decide +kernel
  have hroot : evaluate "sqrt(4) + sqrt((2) + sqrt(1)".toList =
      .error ⟨⟨.unterminatedRoot, ⟨7, 21⟩⟩, "√(4)+√((2)+√(1)".toList⟩ := by decide +kernel
  obtain ⟨hplace, hstop⟩ := (evaluate_unpaired hroot).2.2 rfl
  exact ⟨(evaluate_unpaired hexcess).1 rfl, (evaluate_unpaired hopen).2.1 rfl, hplace, hstop.symm⟩

end Surd
