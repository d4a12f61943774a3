import Surd.Proofs.Evaluation.Accounting
import Surd.Proofs.Evaluation.Frames
import Surd.Proofs.Token.Tiling

/-!
# Each root is evaluated once

The frames in a frame are those of the root signs in its text, one for each of them
(`Frame.map_offset_frames`). Evaluation that notes which frames it evaluates gives the same value,
and has noted exactly these frames, each of them once (`Frame.evaluateNoting_eq`).
-/

namespace Surd

/-! ## A frame for each root sign -/

/-- The offsets of the root signs in a text that stands at `offset`. -/
def Text.rootPlaces (offset : Nat) : Text → List Nat
  | [] => []
  | c :: text =>
    if c = '√' then offset :: rootPlaces (offset + c.utf8Size) text
    else rootPlaces (offset + c.utf8Size) text

namespace Text

/-- The root signs of two texts are those of the first, and those of the second behind it. -/
theorem rootPlaces_append (offset : Nat) (left right : Text) :
    rootPlaces offset (left ++ right) =
      rootPlaces offset left ++ rootPlaces (offset + bytes left) right := by
  induction left generalizing offset with
  | nil => rfl
  | cons c left ih =>
    rw [List.cons_append, rootPlaces, rootPlaces, ih, bytes_cons, ← Nat.add_assoc]
    split <;> rfl

/-- A text without a root sign has no places of root signs. -/
theorem rootPlaces_of_not_mem {text : Text} (hroot : '√' ∉ text) (offset : Nat) :
    rootPlaces offset text = [] := by
  induction text generalizing offset with
  | nil => rfl
  | cons c text ih =>
    rw [List.mem_cons, not_or] at hroot
    rw [rootPlaces, if_neg fun h => hroot.1 h.symm, ih hroot.2]

end Text

/-- A token that is no root is written without a root sign. -/
theorem Token.Spelled.not_mem_literal {token : Token} (h : token.Spelled)
    (hkind : ∀ body, token.kind ≠ .root body) : '√' ∉ token.literal := by
  obtain ⟨lexeme, hlexeme, htext⟩ := h
  rw [← htext]
  cases lexeme with
  | leftParen | rightParen => decide
  | operator op => cases op <;> decide
  | number literal =>
    exact fun hmem => literal.numberText.ne_of_mem hmem (by decide) (by decide) (by decide) rfl
  | root body => exact absurd hlexeme.symm (hkind body)

/-- The root signs in a text without faults are those in its tokens. -/
theorem Scanner.rootPlaces_text {offset : Nat} {previous : Option Char} {text : Text}
    (hsound : (scan ⟨offset, previous, text⟩).fault = none) :
    Text.rootPlaces offset text = (scan ⟨offset, previous, text⟩).tokens.flatMap fun token =>
      Text.rootPlaces token.offset token.literal := by
  induction offset, previous, text using scan_induction with
  | nil offset previous =>
    rw [scan_nil]
    rfl
  | fault offset previous c text cause hread =>
    rw [scan_of_error hread] at hsound
    cases hsound
  | token offset previous c text kind hread ih =>
    rw [scan_of_ok hread] at hsound ⊢
    rw [← Front.literal_append_rest previous c text, Text.rootPlaces_append, ih hsound]
    rfl

namespace Frame

/-- The argument of every root in a frame with a value has a value. -/
theorem exists_evaluate_of_mem_arguments {frame argument : Frame}
    (hvalue : ∃ value, frame.evaluate = .ok value) (hmem : argument ∈ frame.arguments) :
    ∃ value, argument.evaluate = .ok value := by
  obtain ⟨value, hvalue⟩ := hvalue
  obtain ⟨token, htoken, body, hkind, rfl⟩ := mem_arguments_iff.mp hmem
  rw [evaluate_eq_evaluateFrom, Scan.evaluateFrom_eq_ok_iff] at hvalue
  obtain ⟨-, last, hfeed, -⟩ := hvalue
  exact exists_evaluate_of_mem hfeed htoken hkind

/-- What is listed for the arguments in a frame is listed token by token. -/
theorem flatMap_arguments {α : Type} (frame : Frame) (list : Frame → List α) :
    frame.arguments.flatMap list =
      frame.scan.tokens.flatMap fun token => token.argument?.toList.flatMap list := by
  rw [arguments, List.filterMap_eq_flatMap_toList, List.flatMap_assoc]

/-- The root signs in the literal of a root are its own and those in its argument. -/
theorem rootPlaces_literal {token : Token} {body : Text} (hspelled : token.Spelled)
    (hkind : token.kind = .root body) :
    Text.rootPlaces token.offset token.literal =
      token.offset :: Text.rootPlaces (ofRoot token body).offset body := by
  have hclose (place : Nat) : Text.rootPlaces place [')'] = [] :=
    Text.rootPlaces_of_not_mem (by decide) place
  rw [(hspelled.root hkind).1, Text.rootPlaces_append, Text.rootPlaces_append, hclose,
    List.append_nil]
  rfl

/-- The frames in a frame with a value are those of the root signs in its text, in their order. -/
theorem map_offset_frames {frame : Frame} (hvalue : ∃ value, frame.evaluate = .ok value) :
    frame.frames.map offset = frame.offset ::
      (Text.rootPlaces frame.offset frame.text).map (· + Text.bytes Token.rootOpening) := by
  induction frame using frame_induction with
  | step frame ih =>
    have hsound : frame.scan.fault = none := (account_of_evaluate hvalue.choose_spec).1
    have hplaces := Scanner.rootPlaces_text hsound
    change Text.rootPlaces frame.offset frame.text = frame.scan.tokens.flatMap _ at hplaces
    rw [frames_eq, List.map_cons, flatMap_arguments, hplaces, List.map_flatMap, List.map_flatMap]
    congr 1
    refine List.flatMap_congr fun token hmem => ?_
    have hspelled : token.Spelled := Scanner.spelled_of_mem hmem
    cases hargument : token.argument? with
    | none =>
      have hkind (body : Text) : token.kind ≠ .root body := fun hkind => by
        rw [Token.argument?, hkind] at hargument
        cases hargument
      rw [Text.rootPlaces_of_not_mem (hspelled.not_mem_literal hkind)]
      rfl
    | some argument =>
      have harguments : argument ∈ frame.arguments :=
        List.mem_filterMap.mpr ⟨token, hmem, hargument⟩
      have hinside := ih _ harguments (exists_evaluate_of_mem_arguments hvalue harguments)
      obtain ⟨body, hkind, rfl⟩ := Token.argument?_eq_some_iff.mp hargument
      rw [rootPlaces_literal hspelled hkind, Option.toList_some, List.flatMap_singleton, hinside]
      rfl

/-! ## Evaluation that notes the frames it evaluates -/

/-- Reads one token like `feed`, and notes the frames that are evaluated for it behind those noted
before. Only a root has an argument to evaluate. -/
def feedNoting (argument : Frame → Except Fault (Float × List Frame)) :
    Stacks × List Frame → Token → Except Fault (Stacks × List Frame)
  | (waiting, noted), token =>
    match token.kind with
    | .root body => do
      let (value, inside) ← argument (ofRoot token body)
      let root ← rootOf token value
      .ok (waiting.push root, noted ++ inside)
    | _ => do
      let next ← feed (fun inner => .error ⟨.emptyExpression, inner.span⟩) waiting token
      .ok (next, noted)

/-- The value of a frame, and the frames that are evaluated for it, beginning with itself. -/
def evaluateNotingWith (argument : Frame → Except Fault (Float × List Frame)) (frame : Frame) :
    Except Fault (Float × List Frame) := do
  let (waiting, noted) ← frame.scan.tokens.foldlM (feedNoting argument) (.empty, [frame])
  match frame.scan.fault with
  | some fault => .error fault
  | none =>
    let value ← waiting.conclude frame.span
    .ok (value, noted)

/-- The value of a frame, and all frames that are evaluated for it, in the order in which that is
begun. -/
def evaluateNoting (frame : Frame) : Except Fault (Float × List Frame) :=
  evaluateNotingWith (fun argument =>
    if argument.text.length < frame.text.length then evaluateNoting argument
    else .error ⟨.emptyExpression, argument.span⟩) frame
termination_by frame.text.length

section Noting

variable {argument : Frame → Except Fault (Float × List Frame)} {tokens : List Token}

/-- A step that notes frames does what the step itself does, and notes the frames in the argument of
the token. -/
theorem feedNoting_eq {token : Token}
    (hargument : ∀ inner ∈ token.argument?,
      argument inner = inner.evaluate.map fun value => (value, inner.frames))
    (waiting : Stacks) (noted : List Frame) :
    feedNoting argument (waiting, noted) token =
      (feed evaluate waiting token).map fun next =>
        (next, noted ++ token.argument?.toList.flatMap frames) := by
  cases hkind : token.kind with
  | root body =>
    have hroot : token.argument? = some (ofRoot token body) :=
      Token.argument?_eq_some_iff.mpr ⟨body, hkind, rfl⟩
    rw [hroot] at hargument ⊢
    simp only [feedNoting, feed, hkind, hargument _ rfl]
    cases (ofRoot token body).evaluate with
    | error fault => rfl
    | ok value =>
      change rootOf token value >>= _ = Except.map _ (rootOf token value >>= _)
      cases rootOf token value with
      | error fault => rfl
      | ok root => simp [Except.map, bind, Except.bind, Stacks.push]
  | number | leftParen | rightParen | operator =>
    have hnone : token.argument? = none := by
      rw [Token.argument?, hkind]
    have hsame : feed (fun inner => .error ⟨.emptyExpression, inner.span⟩) waiting token =
        feed evaluate waiting token := by
      simp only [feed, hkind]
    simp only [feedNoting, hkind, hsame, hnone]
    cases feed evaluate waiting token with
    | error fault => rfl
    | ok next => simp [Except.map, bind, Except.bind]

/-- Noting frames does not change how tokens are read, and the frames in the arguments of the tokens
are noted in order. -/
theorem foldlM_feedNoting
    (hargument : ∀ token ∈ tokens, ∀ inner ∈ token.argument?,
      argument inner = inner.evaluate.map fun value => (value, inner.frames))
    (waiting : Stacks) (noted : List Frame) :
    tokens.foldlM (feedNoting argument) (waiting, noted) =
      (feedAll tokens waiting).map fun next =>
        (next, noted ++ tokens.flatMap fun token => token.argument?.toList.flatMap frames) := by
  induction tokens generalizing waiting noted with
  | nil => simp [feedAll, Except.map, pure, Except.pure]
  | cons token tokens ih =>
    rw [List.foldlM_cons, feedNoting_eq (hargument token List.mem_cons_self), feedAll_cons]
    cases feed evaluate waiting token with
    | error fault => rfl
    | ok next =>
      change tokens.foldlM (feedNoting argument) (next, _) = _
      rw [ih (fun token hmem => hargument token (List.mem_cons_of_mem _ hmem)), List.flatMap_cons,
        List.append_assoc]
      rfl

end Noting

/-- Noting the frames changes nothing in the value, and a frame with a value is evaluated together
with every frame in it, each of them once. -/
theorem evaluateNoting_eq (frame : Frame) :
    frame.evaluateNoting = frame.evaluate.map fun value => (value, frame.frames) := by
  induction frame using frame_induction with
  | step frame ih =>
    rw [evaluateNoting, evaluateNotingWith, foldlM_feedNoting, ← flatMap_arguments,
      List.singleton_append, ← frames_eq, evaluate_eq_evaluateFrom, Scan.evaluateFrom]
    · cases feedAll frame.scan.tokens .empty with
      | error fault => rfl
      | ok waiting => cases frame.scan.fault <;> simp only [Except.map, bind, Except.bind]
    · intro token htoken inner hinner
      have hmem : inner ∈ frame.arguments := List.mem_filterMap.mpr ⟨token, htoken, hinner⟩
      rw [if_pos (length_lt_of_mem_arguments hmem), ih inner hmem]

end Frame

end Surd
