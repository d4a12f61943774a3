import Surd.Proofs.Evaluation.Alike
import Surd.Proofs.Token.Reading

/-!
# Evaluation in another place

A text means the same wherever it stands: its tokens are the same at every offset
(`Scanner.scan_alike`), and so are its value and the cause of its fault
(`Frame.evaluate_alike_of_text`).
-/

namespace Surd

open Front

/-- The argument of a root is shorter than the text that the root stands in. -/
theorem Front.length_body_lt {previous : Option Char} {c : Char} {text body : Text}
    (hread : (Front.read previous c text).reading = .ok (.root body)) :
    body.length < (c :: text).length := by
  have hparts := congrArg List.length (literal_append_rest previous c text)
  rw [literal_of_root hread] at hparts
  simp only [Token.rootOpening, List.length_append, List.length_cons, List.length_nil] at hparts ⊢
  omega

/-- Scans that mean the same still do behind tokens that mean the same. -/
theorem ScansAlike.after {first second : Token} {scan scan' : Scan}
    (htokens : TokensAlike first second) (hscans : ScansAlike scan scan') :
    ScansAlike (scan.after [first]) (scan'.after [second]) :=
  ⟨.cons htokens hscans.tokens, hscans.fault⟩

/-- If the arguments of roots mean the same in all places, then so do the tokens of a text. -/
theorem Scanner.scan_alike_of_bodies {length : Nat}
    (hbodies : ∀ (body : Text) (offset offset' : Nat), body.length < length →
      Alike Eq (Frame.mk offset body).evaluate (Frame.mk offset' body).evaluate)
    (offset offset' : Nat) (previous : Option Char) (text : Text) (hlength : text.length ≤ length) :
    ScansAlike (scan ⟨offset, previous, text⟩) (scan ⟨offset', previous, text⟩) := by
  induction offset, previous, text using scan_induction generalizing offset' with
  | nil offset previous =>
    rw [scan_nil, scan_nil]
    exact ⟨.nil, rfl⟩
  | fault offset previous c text cause hread =>
    rw [scan_of_error hread, scan_of_error hread]
    exact ⟨.nil, rfl⟩
  | token offset previous c text kind hread ih =>
    have hrest := length_rest_lt previous c text
    rw [scan_of_ok hread, scan_of_ok hread]
    refine .after ?_ (ih _ (by omega))
    cases kind with
    | root body =>
      have hbody := length_body_lt hread
      exact .root rfl rfl (hbodies body _ _ (by omega))
    | _ => exact .same rfl fun body h => by cases h

/-- A text has the same value wherever it stands, or a fault with the same cause. -/
theorem Frame.evaluate_alike_of_text (offset offset' : Nat) (text : Text) :
    Alike Eq (Frame.mk offset text).evaluate (Frame.mk offset' text).evaluate := by
  induction hlength : text.length using Nat.strong_induction_on
    generalizing offset offset' text with
  | h length ih =>
    refine Frame.evaluate_alike (Scanner.scan_alike_of_bodies (fun body offset offset' h => ?_)
      offset offset' none text hlength.le)
    exact ih body.length h offset offset' body rfl

/-- What has a value in one place has the same value wherever it stands. -/
theorem Frame.evaluate_elsewhere {offset : Nat} {text : Text} {value : Float}
    (hvalue : (Frame.mk offset text).evaluate = .ok value) (offset' : Nat) :
    (Frame.mk offset' text).evaluate = .ok value := by
  have halike := evaluate_alike_of_text offset' offset text
  rw [hvalue] at halike
  obtain ⟨moved, hmoved, rfl⟩ := halike.exists_ok
  exact hmoved

/-- The tokens of a text mean the same wherever it stands, as long as a sign may stand at its front
or may not. -/
theorem Scanner.scan_alike {previous previous' : Option Char}
    (hsign : signAllowed previous = signAllowed previous') (offset offset' : Nat) (text : Text) :
    ScansAlike (scan ⟨offset, previous, text⟩) (scan ⟨offset', previous', text⟩) := by
  rw [scan_congr_previous hsign]
  exact scan_alike_of_bodies
    (fun body offset offset' _ => Frame.evaluate_alike_of_text offset offset' body)
    offset offset' previous' text le_rfl

end Surd
