import Surd.Proofs.Evaluation.Places

/-!
# Exchanging a part of a text

Two texts may stand for each other in a place between other texts if the evaluations that reach the
place are related whichever of them stands there. Then the evaluations of frames with the one and
with the other in that place are related (`Interchangeable.evaluate_related`), however deep in the
arguments of roots the place lies, and whatever is wrong with the text around it.
-/

namespace Surd

open Front

/-- Not both of two evaluations give a value. -/
def Apart (first second : Except Fault Float) : Prop := ∀ a b, first = .ok a → second ≠ .ok b

/-- What makes two texts stand for each other, between a text after which a sign is allowed or not,
and one that `Follows`, as far as evaluations are `related`. -/
structure Interchangeable (related : Except Fault Float → Except Fault Float → Prop)
    (allowed : Bool) (Follows : Text → Prop) (hole hole' : Text) : Prop where
  ne_nil : hole ≠ [] ∧ hole' ≠ []
  balanced : Text.Balanced hole ∧ Text.Balanced hole'
  /-- What follows the place in the argument of a root is the front of what follows it. -/
  follows : ∀ front rest, Follows (front ++ rest) → Follows front
  error : ∀ first second : Fault, first.cause = second.cause →
    related (.error first) (.error second)
  /-- Evaluation goes on from the place. -/
  here : ∀ span span' offset previous right waiting, signAllowed previous = allowed →
    Follows right →
    related ((Scanner.scan ⟨offset, previous, hole ++ right⟩).evaluateFrom span waiting)
      ((Scanner.scan ⟨offset, previous, hole' ++ right⟩).evaluateFrom span' waiting)
  /-- Evaluation goes on from a root that the place lies in. -/
  root : ∀ span span' offset offset' front rest waiting first second body body',
    first.kind = .root body → second.kind = .root body' → Follows (front ++ ')' :: rest) →
    related (Frame.ofRoot first body).evaluate (Frame.ofRoot second body').evaluate →
    related
      (Frame.feedAll [first] waiting >>= fun next =>
        (Scanner.scan ⟨offset, some ')', rest⟩).evaluateFrom span next)
      (Frame.feedAll [second] waiting >>= fun next =>
        (Scanner.scan ⟨offset', some ')', rest⟩).evaluateFrom span' next)

namespace Front

/-- A cut lies before a text with something behind it if it lies before the text. -/
theorem Cut.append_right {left hole : Text} (hcut : Cut left hole) (hne : hole ≠ [])
    (right : Text) : Cut left (hole ++ right) := by
  intro c hc d hd
  refine hcut c hc d ?_
  obtain ⟨e, rest, rfl⟩ := List.exists_cons_of_ne_nil hne
  exact hd

/-- The argument of a root goes on over a balanced part. -/
theorem splitClose_hole {depth : Nat} {left hole : Text}
    (hleft : Text.depthAfter? 0 left = some depth) (hhole : Text.Balanced hole) (right : Text) :
    splitClose 0 (left ++ (hole ++ right)) =
      (splitClose depth right).map fun (body, rest) => (left ++ (hole ++ body), rest) := by
  rw [splitClose_append hleft, splitClose_append (Text.depthAfter?_of_balanced hhole depth),
    Option.map_map]
  rfl

end Front

namespace Interchangeable

variable {related : Except Fault Float → Except Fault Float → Prop} {allowed : Bool}
  {Follows : Text → Prop} {hole hole' : Text}

/-- A step that both evaluations begin with keeps what they go on with related. -/
theorem bind (h : Interchangeable related allowed Follows hole hole') (first : Except Fault Stacks)
    {next next' : Stacks → Except Fault Float}
    (hnext : ∀ waiting, related (next waiting) (next' waiting)) :
    related (first >>= next) (first >>= next') := by
  cases first with
  | ok waiting => exact hnext waiting
  | error fault => exact h.error fault fault rfl

/-- Evaluations that have not reached the place yet are related, if those of the shorter arguments
of roots are. -/
theorem evaluateFrom_related (h : Interchangeable related allowed Follows hole hole') {length : Nat}
    (hbodies : ∀ left right offset, left.length < length → Cut left hole → Cut left hole' →
      signAllowed left.getLast? = allowed → Follows right →
      related (Frame.mk offset (left ++ (hole ++ right))).evaluate
        (Frame.mk offset (left ++ (hole' ++ right))).evaluate)
    (span span' : Span) (offset : Nat) (previous : Option Char) (left : Text) {right : Text}
    (waiting : Stacks) (hlength : left.length ≤ length) (hcut : Cut left hole)
    (hcut' : Cut left hole') (hsign : signAllowed (left.getLast?.or previous) = allowed)
    (hright : Follows right) :
    related ((Scanner.scan ⟨offset, previous, left ++ (hole ++ right)⟩).evaluateFrom span waiting)
      ((Scanner.scan ⟨offset, previous, left ++ (hole' ++ right)⟩).evaluateFrom span' waiting) := by
  induction offset, previous, left using Scanner.scan_induction generalizing waiting with
  | nil offset previous => exact h.here span span' offset previous right waiting hsign hright
  | fault offset previous c text cause hread =>
    by_cases hopen : cause = .unterminatedRoot
    · subst hopen
      obtain ⟨inner, rfl, rfl, hsplit⟩ := eq_of_unterminatedRoot hread
      obtain ⟨depth, hdepth⟩ := splitClose_eq_none_iff.mp hsplit
      have hfirst := splitClose_hole hdepth h.balanced.1 right
      have hsecond := splitClose_hole hdepth h.balanced.2 right
      have hinner : signAllowed inner.getLast? = allowed := by
        rw [← hsign, List.getLast?_cons_cons, List.getLast?_cons]
        cases inner.getLast? <;> rfl
      change related
        (Scan.evaluateFrom span waiting (Scanner.scan ⟨_, _, Token.rootOpening ++ (inner ++ _)⟩))
        (Scan.evaluateFrom span' waiting (Scanner.scan ⟨_, _, Token.rootOpening ++ (inner ++ _)⟩))
      cases hclose : splitClose depth right with
      | none =>
        rw [hclose] at hfirst hsecond
        rw [Scanner.scan_open_root hfirst, Scanner.scan_open_root hsecond]
        exact h.error _ _ rfl
      | some split =>
        obtain ⟨front, rest⟩ := split
        rw [hclose] at hfirst hsecond
        rw [eq_of_splitClose hclose] at hright
        rw [Scanner.scan_root hfirst, Scanner.scan_root hsecond, Scan.evaluateFrom_after,
          Scan.evaluateFrom_after]
        have hshorter : inner.length < length := by
          simp only [List.length_cons] at hlength
          omega
        refine h.root _ _ _ _ front rest _ _ _ _ _ rfl rfl hright ?_
        exact hbodies inner front _ hshorter (@Cut.of_append Token.rootOpening inner hole hcut)
          (@Cut.of_append Token.rootOpening inner hole' hcut') hinner (h.follows _ _ hright)
    · rw [List.cons_append, List.cons_append,
        Scanner.scan_append_of_error (hcut.append_right h.ne_nil.1 right) hread hopen,
        Scanner.scan_append_of_error (hcut'.append_right h.ne_nil.2 right) hread hopen]
      exact h.error _ _ rfl
  | token offset previous c text kind hread ih =>
    have hrest := length_rest_lt previous c text
    have hlast : signAllowed ((read previous c text).rest.getLast?.or
        (read previous c text).literal.getLast?) = allowed := by
      rw [getLast?_rest_or, ← hsign, List.getLast?_cons, Option.some_or]
    rw [List.cons_append, List.cons_append,
      Scanner.scan_append_of_ok (hcut.append_right h.ne_nil.1 right) hread,
      Scanner.scan_append_of_ok (hcut'.append_right h.ne_nil.2 right) hread,
      Scan.evaluateFrom_after, Scan.evaluateFrom_after]
    exact h.bind _ fun waiting =>
      ih waiting (by omega) (cut_rest hcut) (cut_rest hcut') hlast

/-- The evaluations of frames with the one and with the other text in the same place are related. -/
theorem evaluate_related (h : Interchangeable related allowed Follows hole hole')
    (offset : Nat) (left right : Text) (hcut : Cut left hole) (hcut' : Cut left hole')
    (hsign : signAllowed left.getLast? = allowed) (hright : Follows right) :
    related (Frame.mk offset (left ++ (hole ++ right))).evaluate
      (Frame.mk offset (left ++ (hole' ++ right))).evaluate := by
  induction hlength : left.length using Nat.strong_induction_on
    generalizing offset left right with
  | h length ih =>
    rw [Frame.evaluate_eq_evaluateFrom, Frame.evaluate_eq_evaluateFrom]
    refine h.evaluateFrom_related (fun inner front offset hshorter hcut hcut' hsign hfront => ?_)
      _ _ offset none left .empty hlength.le hcut hcut' ?_ hright
    · exact ih _ hshorter offset inner front hcut hcut' hsign hfront rfl
    · rwa [Option.or_none]

/-- Texts stand for each other that push related values, if calculation keeps the relation. -/
theorem of_kept {close : Float → Float → Prop} (hkept : KeptByCalculation close)
    (hne : hole ≠ [] ∧ hole' ≠ []) (hbalanced : Text.Balanced hole ∧ Text.Balanced hole')
    (hfollows : ∀ front rest, Follows (front ++ rest) → Follows front)
    (hhole : ∀ span span' offset previous right waiting, signAllowed previous = allowed →
      Follows right → Alike close
        ((Scanner.scan ⟨offset, previous, hole ++ right⟩).evaluateFrom span waiting)
        ((Scanner.scan ⟨offset, previous, hole' ++ right⟩).evaluateFrom span' waiting))
    (hbehind : ∀ span span' offset offset' front rest (waiting : Stacks) a b,
      Follows (front ++ ')' :: rest) → close a b → Alike close
        ((Scanner.scan ⟨offset, some ')', rest⟩).evaluateFrom span (waiting.push a))
        ((Scanner.scan ⟨offset', some ')', rest⟩).evaluateFrom span' (waiting.push b))) :
    Interchangeable (Alike close) allowed Follows hole hole' where
  ne_nil := hne
  balanced := hbalanced
  follows := hfollows
  error _ _ hcause := .error hcause
  here := hhole
  root span span' offset offset' front rest waiting _ _ _ _ hfirst hsecond hright hbodies := by
    refine (Frame.feedAll_root_alike hkept hfirst hsecond hbodies).bind fun next next' hnext => ?_
    obtain ⟨a, b, hab, rfl, rfl⟩ := hnext
    exact hbehind span span' offset offset' front rest waiting a b hright hab

/-- Texts stand for each other of which not both can be read to a value. -/
theorem of_apart (hne : hole ≠ [] ∧ hole' ≠ [])
    (hbalanced : Text.Balanced hole ∧ Text.Balanced hole')
    (hfollows : ∀ front rest, Follows (front ++ rest) → Follows front)
    (hhole : ∀ span span' offset previous right waiting, signAllowed previous = allowed →
      Follows right → Apart
        ((Scanner.scan ⟨offset, previous, hole ++ right⟩).evaluateFrom span waiting)
        ((Scanner.scan ⟨offset, previous, hole' ++ right⟩).evaluateFrom span' waiting)) :
    Interchangeable Apart allowed Follows hole hole' where
  ne_nil := hne
  balanced := hbalanced
  follows := hfollows
  error _ _ _ a b hfirst := by cases hfirst
  here := hhole
  root _ _ _ _ _ _ _ first second _ _ hkind hkind' _ hbodies a b hfirst hsecond := by
    obtain ⟨next, hfeed, -⟩ := bind_eq_ok_iff.mp hfirst
    obtain ⟨next', hfeed', -⟩ := bind_eq_ok_iff.mp hsecond
    obtain ⟨value, hvalue⟩ := Frame.exists_evaluate_of_mem hfeed List.mem_cons_self hkind
    obtain ⟨value', hvalue'⟩ := Frame.exists_evaluate_of_mem hfeed' List.mem_cons_self hkind'
    exact hbodies value value' hvalue hvalue'

end Interchangeable

end Surd
