import Surd.Stretch
import Surd.Proofs.Evaluation.Shift
import Surd.Proofs.Token.Items
import Surd.Proofs.Token.Tiling

/-!
# A stretch of a text and the same text alone

A stretch of a text is scanned and evaluated as the same characters are when they stand alone, only
that all places are as much further behind as the stretch begins (`evaluateStretch_alone`). For the
arguments of roots are looked up in the text around the stretch by places that lie inside it, so
that what stands before and behind the stretch is never read.
-/

namespace Surd

open Text Front

namespace Text

/-- A text is split after the bytes of a front of it. -/
theorem splitBytes?_append (front rest : Text) :
    splitBytes? (bytes front) (front ++ rest) = some (front, rest) := by
  induction front with
  | nil => rw [bytes_nil, splitBytes?]; rfl
  | cons c front ih =>
    obtain ⟨n, hn⟩ := Nat.exists_eq_add_one_of_ne_zero (bytes_pos (List.cons_ne_nil c front)).ne'
    rw [bytes_cons] at hn
    rw [bytes_cons, hn, List.cons_append, splitBytes?, if_pos (by omega), ← hn,
      Nat.add_sub_cancel_left, ih]
    rfl

/-- Where a text is split, the bytes in front of the place are as many as were asked for. -/
theorem of_splitBytes?_eq_some {n : Nat} {text front rest : Text}
    (hsplit : splitBytes? n text = some (front, rest)) :
    text = front ++ rest ∧ n = bytes front := by
  fun_induction splitBytes? n text generalizing front with
  | case1 text =>
    cases hsplit
    exact ⟨rfl, rfl⟩
  | case2 n => cases hsplit
  | case3 n c text hsize ih =>
    obtain ⟨⟨left, right⟩, hfound, hparts⟩ := Option.map_eq_some_iff.mp hsplit
    cases hparts
    obtain ⟨rfl, hn⟩ := ih hfound
    refine ⟨rfl, ?_⟩
    rw [bytes_cons]
    omega
  | case4 n c text hsize => cases hsplit

/-- The stretch that a span names is the piece of the text that it marks. -/
theorem slice?_eq_some_iff {source piece : Text} {span : Span} :
    slice? source span = some piece ↔ span.Marks source piece := by
  constructor
  · intro hslice
    unfold slice? at hslice
    split at hslice
    next hspan =>
      obtain ⟨⟨before, rest⟩, hbefore, hpiece⟩ := Option.bind_eq_some_iff.mp hslice
      obtain ⟨⟨middle, after⟩, hmiddle, hsame⟩ := Option.bind_eq_some_iff.mp hpiece
      cases hsame
      obtain ⟨rfl, hstart⟩ := of_splitBytes?_eq_some hbefore
      obtain ⟨rfl, hlength⟩ := of_splitBytes?_eq_some hmiddle
      refine ⟨before, after, (List.append_assoc ..).symm, ?_⟩
      rw [← hstart, Span.of, ← hlength, Span.length, Nat.add_sub_cancel' hspan]
    next => cases hslice
  · rintro ⟨before, after, rfl, rfl⟩
    have hspan : (Span.of (bytes before) piece).start ≤ (Span.of (bytes before) piece).stop :=
      Nat.le_add_right ..
    have hlength : (Span.of (bytes before) piece).length = bytes piece := Nat.add_sub_cancel_left ..
    unfold slice?
    rw [if_pos hspan, hlength, List.append_assoc]
    change (splitBytes? (bytes before) _).bind _ = _
    rw [splitBytes?_append, Option.bind_some]
    change (splitBytes? (bytes piece) _).bind _ = _
    rw [splitBytes?_append]
    rfl

end Text

/-! ## Moving what a scanner yields -/

/-- A root that is moved has its argument moved with it. -/
theorem Token.bodySpan?_shift (token : Token) (n : Nat) :
    (token.shift n).bodySpan? = token.bodySpan?.map (Span.shift n) := by
  obtain ⟨kind, literal, offset⟩ := token
  cases kind with
  | root body =>
    change some (Span.of (offset + n + _) body) = some ((Span.of (offset + _) body).shift n)
    rw [Nat.add_right_comm, Span.of_add]
  | _ => rfl

/-- The items of a scanner move with the text that it reads. -/
theorem Scanner.items_shift (n offset : Nat) (previous : Option Char) (text : Text) :
    items ⟨offset + n, previous, text⟩ =
      (items ⟨offset, previous, text⟩).map (shiftResult n (Token.shift n)) := by
  induction offset, previous, text using scan_induction with
  | nil offset previous =>
    rw [items_nil, items_nil]
    rfl
  | fault offset previous c text cause hread =>
    rw [items_of_next (next_of_error hread), items_of_next (next_of_error hread), items_nil,
      items_nil, Span.of_add]
    rfl
  | token offset previous c text kind hread ih =>
    rw [items_of_next (next_of_ok hread), items_of_next (next_of_ok hread), Nat.add_right_comm, ih]
    rfl

/-! ## Frames in the text around them -/

namespace Frame

/-- The frames of the roots in a frame move with it. -/
theorem arguments_shift (n : Nat) (frame : Frame) :
    (frame.shift n).arguments = frame.arguments.map (Frame.shift n) := by
  have hscan : (frame.shift n).scan = frame.scan.shift n :=
    Scanner.scan_shift n frame.offset none frame.text
  have hargument (token : Token) :
      (token.shift n).argument? = token.argument?.map (Frame.shift n) := by
    obtain ⟨kind, literal, offset⟩ := token
    cases kind with
    | root body =>
      change some (Frame.mk (offset + n + _) body) = some ⟨offset + _ + n, body⟩
      rw [Nat.add_right_comm]
    | _ => rfl
  rw [arguments, arguments, hscan, Scan.shift, List.filterMap_map, List.map_filterMap]
  congr 1
  funext token
  exact hargument token

/-- All frames in a frame move with it, at every depth. -/
theorem frames_shift (n : Nat) (frame : Frame) :
    (frame.shift n).frames = frame.frames.map (Frame.shift n) := by
  induction frame using frame_induction with
  | step frame ih =>
    rw [frames_eq, frames_eq, arguments_shift, List.map_cons, List.map_flatMap, List.flatMap_map]
    congr 1
    exact List.flatMap_congr ih

/-- A token is written where it stands in every text that the frame is a piece of. -/
theorem marks_of_mem_tokens {source : Text} {frame : Frame} {token : Token}
    (hframe : frame.span.Marks source frame.text) (hmem : token ∈ frame.scan.tokens) :
    token.span.Marks source token.literal := by
  obtain ⟨before, after, hsource, hspan⟩ := hframe
  obtain ⟨left, right, htext, hplace⟩ := Scanner.exists_place hmem
  have hoffset : frame.offset = bytes before := congrArg Span.start hspan
  refine ⟨before ++ left, right ++ after, ?_, ?_⟩
  · rw [hsource, show frame.text = _ from htext]
    simp only [List.append_assoc]
  · rw [Token.span, hplace, hoffset, bytes_append]

/-- The argument of a root is a piece of every text that the frame is a piece of. -/
theorem marks_of_mem_arguments {source : Text} {frame argument : Frame}
    (hframe : frame.span.Marks source frame.text) (hmem : argument ∈ frame.arguments) :
    argument.span.Marks source argument.text := by
  obtain ⟨token, htoken, body, hkind, rfl⟩ := mem_arguments_iff.mp hmem
  have hliteral := ((Scanner.spelled_of_mem htoken).root hkind).1
  have htoken' := marks_of_mem_tokens hframe htoken
  obtain ⟨hbody, hmarks⟩ := Token.bodySpan?_of_root hkind hliteral htoken'
  rw [Token.bodySpan?, hkind] at hbody
  rw [← Option.some.inj hbody] at hmarks
  exact hmarks

/-- The span of a frame is as long as its text. -/
theorem length_span (frame : Frame) : frame.span.length = bytes frame.text :=
  Nat.add_sub_cancel_left ..

/-- The span of the argument of a root is shorter than that of the frame that it stands in. -/
theorem length_span_lt_of_mem_arguments {frame argument : Frame}
    (hmem : argument ∈ frame.arguments) : argument.span.length < frame.span.length := by
  obtain ⟨token, htoken, body, hkind, rfl⟩ := mem_arguments_iff.mp hmem
  obtain ⟨left, right, htext, hplace⟩ := Scanner.exists_place htoken
  have hliteral := ((Scanner.spelled_of_mem htoken).root hkind).1
  have htotal : bytes frame.text = _ := congrArg bytes htext
  simp only [hliteral, bytes_append, bytes_cons] at htotal
  have hclose := Char.utf8Size_pos ')'
  rw [length_span, length_span]
  change bytes body < bytes frame.text
  omega

end Frame

/-- A frame that is a piece of a text has the value of that stretch of the text. -/
theorem evaluateStretch_eq {source : Text} {frame : Frame}
    (hframe : frame.span.Marks source frame.text) :
    evaluateStretch source frame.span = frame.evaluate := by
  induction frame using Frame.frame_induction with
  | step frame ih =>
    rw [evaluateStretch, slice?_eq_some_iff.mpr hframe, Frame.evaluate_eq]
    refine Frame.evaluateWith_congr_roots fun token htoken body hkind => ?_
    have hmem : Frame.ofRoot token body ∈ frame.arguments :=
      Frame.mem_arguments_iff.mpr ⟨token, htoken, body, hkind, rfl⟩
    rw [if_pos (Frame.length_span_lt_of_mem_arguments hmem)]
    exact ih _ hmem (Frame.marks_of_mem_arguments hframe hmem)

/-- A frame further behind is evaluated as its text is alone. -/
theorem Frame.evaluate_eq_whole (frame : Frame) :
    frame.evaluate = (whole frame.text).evaluate.mapError (Fault.shift frame.offset) := by
  rw [← evaluate_shift, shift]
  simp only [whole, Nat.zero_add]

/-- Every frame in a frame is a piece of every text that the frame is a piece of. -/
theorem Frame.marks_of_mem_frames {source : Text} {frame inner : Frame}
    (hframe : frame.span.Marks source frame.text) (hmem : inner ∈ frame.frames) :
    inner.span.Marks source inner.text :=
  of_mem_frames (motive := fun frame => frame.span.Marks source frame.text)
    (fun _ hframe _ => marks_of_mem_arguments hframe) hframe hmem

/-- A stretch of a text, named by two places between characters, is scanned and evaluated as its
characters are alone. The scanner over it yields the same items: the spans of tokens, of the
arguments of roots and of a fault are further behind by the place where the stretch begins, and the
source of a fault is the whole text. It has the same value, or the same fault further behind, whose
source is the whole text again. The same holds of the arguments of roots in it at every depth, which
are stretches of the text too. None of this depends on what stands before or behind the stretch. -/
theorem evaluateStretch_alone {source piece : Text} {span : Span}
    (hpiece : slice? source span = some piece) :
    let n := span.start
    ((Scanner.within? source span).map Scanner.items =
        some ((Scanner.start 0 piece).items.map (shiftResult n (Token.shift n))) ∧
      (Scanner.within? source span).map (Scanner.diagnoses source) =
        some (((Scanner.start 0 piece).diagnoses piece).map fun item =>
          (item.map (Token.shift n)).mapError
            fun diagnostic => (diagnostic.toFault.shift n).within source) ∧
      ∀ token : Token, (token.shift n).span = token.span.shift n ∧
        (token.shift n).bodySpan? = token.bodySpan?.map (Span.shift n)) ∧
    (evaluateStretch source span = (Frame.mk n piece).evaluate ∧
      (evaluateStretch source span).mapError (Fault.within source) =
        (evaluateNormal piece).mapError
          fun diagnostic => (diagnostic.toFault.shift n).within source) ∧
    ∀ inner ∈ (Frame.whole piece).frames,
      slice? source (inner.span.shift n) = some inner.text ∧
        evaluateStretch source (inner.span.shift n) =
          (Frame.whole inner.text).evaluate.mapError (Fault.shift (inner.offset + n)) := by
  intro n
  have hmarks := slice?_eq_some_iff.mp hpiece
  have hspan : span = (Frame.mk n piece).span := by
    obtain ⟨before, after, -, hspan⟩ := hmarks
    rw [Frame.span, ← show Text.bytes before = n from (congrArg Span.start hspan).symm]
    exact hspan
  have hframe : (Frame.mk n piece).span.Marks source piece := hspan ▸ hmarks
  have hvalue : evaluateStretch source span = (Frame.mk n piece).evaluate := by
    rw [hspan]
    exact evaluateStretch_eq hframe
  have hitems : (Scanner.start n piece).items =
      (Scanner.start 0 piece).items.map (shiftResult n (Token.shift n)) := by
    have hitems := Scanner.items_shift n 0 none piece
    rw [Nat.zero_add] at hitems
    exact hitems
  have hwithin : Scanner.within? source span = some (Scanner.start n piece) := by
    rw [Scanner.within?, hpiece, Option.map_some]
  refine ⟨⟨?_, ?_, fun token => ⟨Span.of_add n token.offset token.literal,
    token.bodySpan?_shift n⟩⟩, ⟨hvalue, ?_⟩, fun inner hmem => ?_⟩
  · rw [hwithin, Option.map_some, hitems]
  · rw [hwithin, Option.map_some, Scanner.diagnoses, Scanner.diagnoses, hitems, List.map_map,
      List.map_map]
    refine congrArg some (List.map_congr_left fun item _ => ?_)
    cases item <;> rfl
  · rw [hvalue, Frame.evaluate_eq_whole, evaluateNormal]
    cases (Frame.whole piece).evaluate with
    | ok value => rfl
    | error fault => rfl
  · have hshift : (Frame.whole piece).shift n = ⟨n, piece⟩ := by
      rw [Frame.shift, Frame.whole, Nat.zero_add]
    have hinner : inner.shift n ∈ (Frame.mk n piece).frames := by
      rw [← hshift, Frame.frames_shift]
      exact List.mem_map_of_mem hmem
    have hplace : inner.span.shift n = (inner.shift n).span :=
      (Span.of_add n inner.offset inner.text).symm
    have hstretch := Frame.marks_of_mem_frames hframe hinner
    rw [hplace]
    refine ⟨slice?_eq_some_iff.mpr hstretch, ?_⟩
    rw [evaluateStretch_eq hstretch, Frame.evaluate_eq_whole]
    rfl

/-- The argument of a root behind a character of two bytes: its division by zero is marked seven
bytes further behind than alone, and the argument of the root in it is still found. -/
theorem evaluateStretch_alone_nested :
    let source := "ü+√(1/√(0))-2".toList
    slice? source ⟨7, 15⟩ = some "1/√(0)".toList ∧
      (evaluateStretch source ⟨7, 15⟩).mapError (Fault.within source) =
        .error ⟨⟨.divisionByZero, ⟨8, 9⟩⟩, source⟩ ∧
      slice? source ⟨13, 14⟩ = some ['0'] := by
  intro source
  have hpiece : slice? source ⟨7, 15⟩ = some "1/√(0)".toList := by decide
  have halone : evaluateNormal "1/√(0)".toList =
      .error ⟨⟨.divisionByZero, ⟨1, 2⟩⟩, "1/√(0)".toList⟩ := by decide +kernel
  have hargument : Frame.mk 6 ['0'] ∈ (Frame.whole "1/√(0)".toList).arguments :=
    Frame.mem_arguments_iff.mpr
      ⟨⟨.root ['0'], "√(0)".toList, 2⟩, by decide +kernel, ['0'], rfl, rfl⟩
  have hmem := Frame.mem_frames_iff.mpr (.inr ⟨_, hargument, Frame.self_mem_frames _⟩)
  obtain ⟨-, ⟨-, hvalue⟩, hinner⟩ := evaluateStretch_alone hpiece
  rw [halone] at hvalue
  exact ⟨hpiece, hvalue, (hinner _ hmem).1⟩

end Surd
