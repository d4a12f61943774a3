import Mathlib.Data.List.Basic
import Surd.Proofs.Evaluation.Remainder

/-!
# Frames in frames

The roots of a frame have frames of their own, which are shorter, and so on down to frames without
roots. A frame fails either by itself (`Frame.Raises`) or because one of the frames in it does
(`Frame.evaluate_eq_error_iff`), so every fault is raised by some frame itself
(`Frame.exists_raises`).
-/

namespace Surd

/-- The frame of the argument, if a token is a root. -/
def Token.argument? (token : Token) : Option Frame :=
  match token.kind with
  | .root body => some (Frame.ofRoot token body)
  | _ => none

/-- Only a root has an argument, the frame of its body. -/
theorem Token.argument?_eq_some_iff {token : Token} {argument : Frame} :
    token.argument? = some argument ↔
      ∃ body, token.kind = .root body ∧ argument = Frame.ofRoot token body := by
  unfold argument?
  cases token.kind <;> simp [eq_comm]

namespace Frame

/-- The frames of the roots of a frame. -/
def arguments (frame : Frame) : List Frame := frame.scan.tokens.filterMap Token.argument?

/-- The arguments in a frame are those of its roots. -/
theorem mem_arguments_iff {frame argument : Frame} :
    argument ∈ frame.arguments ↔
      ∃ token ∈ frame.scan.tokens, ∃ body, token.kind = .root body ∧
        argument = ofRoot token body := by
  simp [arguments, List.mem_filterMap, Token.argument?_eq_some_iff]

/-- An argument is shorter than the frame that it stands in. -/
theorem length_lt_of_mem_arguments {frame argument : Frame} (hmem : argument ∈ frame.arguments) :
    argument.text.length < frame.text.length := by
  obtain ⟨token, htoken, body, hkind, rfl⟩ := mem_arguments_iff.mp hmem
  exact Scan.length_body_lt _ htoken hkind

/-- A frame and the frames of all roots in it, at any depth, in the order of the text. -/
def frames (frame : Frame) : List Frame :=
  frame :: frame.arguments.attach.flatMap fun argument => frames argument.val
termination_by frame.text.length
decreasing_by exact length_lt_of_mem_arguments argument.property

/-- The frames in a frame are itself and the frames in its arguments. -/
theorem frames_eq (frame : Frame) : frame.frames = frame :: frame.arguments.flatMap frames := by
  rw [frames]
  simp [List.flatMap_subtype]

/-- A frame in another one is that frame, or it is in one of its arguments. -/
theorem mem_frames_iff {frame inner : Frame} :
    inner ∈ frame.frames ↔
      inner = frame ∨ ∃ argument ∈ frame.arguments, inner ∈ argument.frames := by
  rw [frames_eq, List.mem_cons, List.mem_flatMap]

/-- A frame is among the frames in it. -/
theorem self_mem_frames (frame : Frame) : frame ∈ frame.frames := mem_frames_iff.mpr (.inl rfl)

/-- What holds of a frame as soon as it holds of the frames of its roots holds of every frame. -/
theorem frame_induction {motive : Frame → Prop}
    (step : ∀ frame, (∀ argument ∈ frame.arguments, motive argument) → motive frame)
    (frame : Frame) : motive frame := by
  induction hlength : frame.text.length using Nat.strong_induction_on generalizing frame with
  | h length ih =>
    refine step frame fun argument hmem => ih _ ?_ argument rfl
    rw [← hlength]
    exact length_lt_of_mem_arguments hmem

/-- What the frames of the roots inherit from a frame holds in all frames in it. -/
theorem of_mem_frames {motive : Frame → Prop}
    (hstep : ∀ frame, motive frame → ∀ argument ∈ frame.arguments, motive argument)
    {frame inner : Frame} (hframe : motive frame) (hmem : inner ∈ frame.frames) :
    motive inner := by
  induction frame using frame_induction with
  | step frame ih =>
    rcases mem_frames_iff.mp hmem with rfl | ⟨argument, hargument, hmem⟩
    · exact hframe
    · exact ih argument hargument (hstep frame hframe argument hargument) hmem

/-! ## Where a fault comes from -/

/-- Reading a token onto the stacks fails, and not because the argument of a root does. -/
def FailsAt (waiting : Stacks) (token : Token) (fault : Fault) : Prop :=
  feed evaluate waiting token = .error fault ∧
    ∀ argument ∈ token.argument?, ∃ value, argument.evaluate = .ok value

/-- A fault that a frame raises itself: at a token, where its scan fails, or at its end. -/
inductive Raises (frame : Frame) (fault : Fault) : Prop
  | token {before after : List Token} {token : Token} {waiting : Stacks}
    (hsplit : frame.scan.tokens = before ++ token :: after)
    (hbefore : feedAll before .empty = .ok waiting) (hfails : FailsAt waiting token fault)
  | scan {waiting : Stacks} (hfeed : feedAll frame.scan.tokens .empty = .ok waiting)
    (hfault : frame.scan.fault = some fault)
  | conclude {waiting : Stacks} (hfeed : feedAll frame.scan.tokens .empty = .ok waiting)
    (hsound : frame.scan.fault = none) (hconclude : waiting.conclude frame.span = .error fault)

/-- A fault that a frame has from the argument of one of its roots. -/
inductive Inherits (frame : Frame) (fault : Fault) : Prop
  | argument {before after : List Token} {token : Token} {waiting : Stacks} {argument : Frame}
    (hsplit : frame.scan.tokens = before ++ token :: after)
    (hbefore : feedAll before .empty = .ok waiting) (hargument : token.argument? = some argument)
    (hfault : argument.evaluate = .error fault)

/-- Tokens cannot be read if one of them fails after those before it were read. -/
theorem feedAll_eq_error_iff {tokens : List Token} {waiting : Stacks} {fault : Fault} :
    feedAll tokens waiting = .error fault ↔
      ∃ before token after next, tokens = before ++ token :: after ∧
        feedAll before waiting = .ok next ∧ feed evaluate next token = .error fault := by
  constructor
  · intro hfeed
    induction tokens generalizing waiting with
    | nil => cases hfeed
    | cons token tokens ih =>
      rw [feedAll_cons, bind_eq_error_iff] at hfeed
      rcases hfeed with hfirst | ⟨middle, hfirst, hrest⟩
      · exact ⟨[], token, tokens, waiting, rfl, rfl, hfirst⟩
      · obtain ⟨before, last, after, next, rfl, hbefore, hlast⟩ := ih hrest
        refine ⟨token :: before, last, after, next, rfl, ?_, hlast⟩
        rw [feedAll_cons, hfirst]
        exact hbefore
  · rintro ⟨before, token, after, next, rfl, hbefore, htoken⟩
    rw [feedAll_append, hbefore]
    change feedAll (token :: after) next = _
    rw [feedAll_cons, htoken]
    rfl

/-- Reading a token fails by itself, or because the argument of the root that it is does. -/
theorem feed_eq_error_iff {waiting : Stacks} {token : Token} {fault : Fault} :
    feed evaluate waiting token = .error fault ↔ FailsAt waiting token fault ∨
      ∃ argument, token.argument? = some argument ∧ argument.evaluate = .error fault := by
  cases hkind : token.kind with
  | root body =>
    have hargument : token.argument? = some (ofRoot token body) :=
      Token.argument?_eq_some_iff.mpr ⟨body, hkind, rfl⟩
    cases hvalue : (ofRoot token body).evaluate with
    | ok value => simp [FailsAt, hargument, hvalue]
    | error fault' => simp [FailsAt, hargument, hvalue, feed, hkind, bind, Except.bind]
  | number | leftParen | rightParen | operator =>
    have hargument : token.argument? = none := by
      rw [Token.argument?, hkind]
    simp [FailsAt, hargument]

/-- A frame fails either by itself or because the argument of one of its roots does. -/
theorem evaluate_eq_error_iff {frame : Frame} {fault : Fault} :
    frame.evaluate = .error fault ↔ frame.Raises fault ∨ frame.Inherits fault := by
  rw [evaluate_eq_evaluateFrom, Scan.evaluateFrom, bind_eq_error_iff, feedAll_eq_error_iff]
  constructor
  · rintro (⟨before, token, after, next, hsplit, hbefore, htoken⟩ | ⟨waiting, hfeed, hend⟩)
    · rcases feed_eq_error_iff.mp htoken with hfails | ⟨argument, hargument, hfault⟩
      · exact .inl (.token hsplit hbefore hfails)
      · exact .inr (.argument hsplit hbefore hargument hfault)
    · cases hscan : frame.scan.fault with
      | none =>
        rw [hscan] at hend
        exact .inl (.conclude hfeed hscan hend)
      | some scanFault =>
        rw [hscan] at hend
        cases hend
        exact .inl (.scan hfeed hscan)
  · rintro (hraises | ⟨hsplit, hbefore, hargument, hfault⟩)
    · cases hraises with
      | token hsplit hbefore hfails =>
        exact .inl ⟨_, _, _, _, hsplit, hbefore, hfails.1⟩
      | scan hfeed hfault => exact .inr ⟨_, hfeed, by rw [hfault]⟩
      | conclude hfeed hsound hconclude => exact .inr ⟨_, hfeed, by rw [hsound]; exact hconclude⟩
    · exact .inl ⟨_, _, _, _, hsplit, hbefore, feed_eq_error_iff.mpr (.inr ⟨_, hargument, hfault⟩)⟩

/-- The argument that a fault is inherited from is that of one of the roots. -/
theorem Inherits.exists_argument {frame : Frame} {fault : Fault} (h : frame.Inherits fault) :
    ∃ argument ∈ frame.arguments, argument.evaluate = .error fault := by
  obtain ⟨hsplit, -, hargument, hfault⟩ := h
  refine ⟨_, List.mem_filterMap.mpr ⟨_, ?_, hargument⟩, hfault⟩
  rw [hsplit]
  exact List.mem_append_right _ List.mem_cons_self

/-- A frame without roots raises its faults itself. -/
theorem raises_of_arguments_eq_nil {frame : Frame} {fault : Fault} (hnone : frame.arguments = [])
    (hfault : frame.evaluate = .error fault) : frame.Raises fault := by
  refine (evaluate_eq_error_iff.mp hfault).resolve_right fun hinherits => ?_
  obtain ⟨argument, hargument, -⟩ := hinherits.exists_argument
  rw [hnone] at hargument
  cases hargument

/-- Every fault is raised by a frame itself: by the one that was to be evaluated, or by one in
it. -/
theorem exists_raises {frame : Frame} {fault : Fault} (hfault : frame.evaluate = .error fault) :
    ∃ inner ∈ frame.frames, inner.Raises fault := by
  induction frame using frame_induction with
  | step frame ih =>
    rcases evaluate_eq_error_iff.mp hfault with hraises | hinherits
    · exact ⟨frame, frame.self_mem_frames, hraises⟩
    · obtain ⟨argument, hargument, hfault⟩ := hinherits.exists_argument
      obtain ⟨inner, hmem, hraises⟩ := ih argument hargument hfault
      exact ⟨inner, mem_frames_iff.mpr (.inr ⟨argument, hargument, hmem⟩), hraises⟩

end Frame

/-- A text fails with the fault of the frame of its normal form. -/
theorem evaluate_eq_error_iff {text : Text} {diagnostic : Diagnostic} :
    evaluate text = .error diagnostic ↔
      (Frame.whole (normalize text)).evaluate = .error diagnostic.toFault ∧
        diagnostic.source = normalize text := by
  rw [evaluate, evaluateNormal]
  cases (Frame.whole (normalize text)).evaluate with
  | ok value =>
    constructor
    · intro h
      cases h
    · rintro ⟨h, -⟩
      cases h
  | error fault =>
    constructor
    · intro h
      cases h
      exact ⟨rfl, rfl⟩
    · rintro ⟨h, hsource⟩
      cases h
      rw [← hsource]
      rfl

end Surd
