import Surd.Proofs.Token.Cut

/-!
# Scanning a concatenation

A text that is scanned together with more text behind it is scanned as it would be alone: a token at
its front stays the first one (`scan_append_of_ok`), a fault at its front stays the fault unless it
is a root that the text does not close (`scan_append_of_error`), and if all of it can be read, its
tokens are the first ones (`scan_append`).
-/

namespace Surd

open Front

/-- Tokens are put in front of a scan one sequence after the other. -/
theorem Scan.after_after (first second : List Token) (scan : Scan) :
    (scan.after second).after first = scan.after (first ++ second) := by
  simp only [Scan.after, List.append_assoc]

namespace Scanner

variable {offset : Nat} {previous : Option Char} {c : Char} {text left right : Text}

/-- A token at the front stays the first one when text is added behind a cut. -/
theorem scan_append_of_ok {kind : Token.Kind} (hcut : Cut (c :: text) right)
    (hread : (read previous c text).reading = .ok kind) :
    scan ⟨offset, previous, c :: (text ++ right)⟩ =
      .after [⟨kind, (read previous c text).literal, offset⟩]
        (scan ⟨offset + Text.bytes (read previous c text).literal,
          (read previous c text).literal.getLast?, (read previous c text).rest ++ right⟩) := by
  have happend := read_append hcut (by rw [hread]; exact fun h => by cases h)
  have hread' : (read previous c (text ++ right)).reading = .ok kind := by
    rw [happend, ← hread]
    rfl
  rw [scan_of_ok hread', happend]
  rfl

/-- A fault at the front stays when text is added behind a cut, unless a root that is still open is
the fault. -/
theorem scan_append_of_error {cause : Cause} (hcut : Cut (c :: text) right)
    (hread : (read previous c text).reading = .error cause) (hclosed : cause ≠ .unterminatedRoot) :
    scan ⟨offset, previous, c :: (text ++ right)⟩ =
      ⟨[], some ⟨cause, .of offset (read previous c text).literal⟩⟩ := by
  have happend := read_append hcut (by rw [hread]; exact fun h => hclosed (by cases h; rfl))
  have hread' : (read previous c (text ++ right)).reading = .error cause := by
    rw [happend, ← hread]
    rfl
  rw [scan_of_error hread', happend]
  rfl

/-- The character before what follows a front is the last one of the front. -/
theorem getLast?_literal_or (previous before : Option Char) (c : Char) (text : Text) :
    (read previous c text).literal.getLast?.or before =
      (read previous c text).literal.getLast? := by
  rw [List.getLast?_eq_some_getLast (literal_ne_nil previous c text), Option.some_or]

/-- The bytes of a text are those of its front and those of its rest. -/
theorem bytes_literal_add (previous : Option Char) (c : Char) (text : Text) :
    Text.bytes (read previous c text).literal + Text.bytes (read previous c text).rest =
      Text.bytes (c :: text) := by
  rw [← Text.bytes_append, literal_append_rest]

/-- A concatenation that is cut between its parts has the tokens of the left part, if all of it can
be read, and then those of the right part. -/
theorem scan_append (hcut : Cut left right)
    (hsound : (scan ⟨offset, previous, left⟩).fault = none) :
    scan ⟨offset, previous, left ++ right⟩ =
      .after (scan ⟨offset, previous, left⟩).tokens
        (scan ⟨offset + Text.bytes left, left.getLast?.or previous, right⟩) := by
  induction offset, previous, left using scan_induction with
  | nil offset previous =>
    rw [scan_nil]
    rfl
  | fault offset previous c text cause hread =>
    rw [scan_of_error hread] at hsound
    cases hsound
  | token offset previous c text kind hread ih =>
    rw [scan_of_ok hread] at hsound ⊢
    rw [List.cons_append, scan_append_of_ok hcut hread, ih (cut_rest hcut) hsound,
      Scan.after_after, ← getLast?_rest_or previous c text, ← bytes_literal_add previous c text,
      Nat.add_assoc, Option.or_assoc, getLast?_literal_or]
    rfl

end Scanner

namespace Front

/-- Only a root sign whose parenthesis is not closed reads as an open root. -/
theorem eq_of_unterminatedRoot {previous : Option Char} {c : Char} {text : Text}
    (hread : (read previous c text).reading = .error .unterminatedRoot) :
    ∃ inner, c = '√' ∧ text = '(' :: inner ∧ splitClose 0 inner = none := by
  have hnumber (sign text : Text) : (number sign text).reading ≠ .error .unterminatedRoot := by
    unfold number ofLiteral
    split
    · simp
    · split <;> simp
  unfold read at hread
  split at hread
  · cases hread
  split at hread
  · cases hread
  split at hread
  · exact absurd hread (hnumber _ _)
  split at hread
  · exact absurd hread (hnumber _ _)
  split at hread
  next hroot =>
    unfold root at hread
    split at hread
    next inner =>
      split at hread
      · cases hread
      next hsplit => exact ⟨inner, hroot, rfl, hsplit⟩
    · cases hread
  · split at hread <;> cases hread

end Front

end Surd
