import Surd.Text.Parens
import Surd.Token.Front

/-!
# The parenthesis that closes a root

The argument of a root ends at the closing parenthesis that belongs to the opening one after the
root sign. Here the search for it (`Front.splitClose`) is put in terms of parenthesis depth: it
finds the end of a balanced argument (`splitClose_eq_some_iff`), and it fails exactly when nothing
in the text closes the root (`splitClose_eq_none_iff`).
-/

namespace Surd

namespace Text

variable {depth : Nat} {text : Text}

/-- An opening parenthesis adds to the depth. -/
theorem depthAfter?_open : depthAfter? depth ('(' :: text) = depthAfter? (depth + 1) text := by
  rw [depthAfter?.eq_def]
  rfl

/-- A closing parenthesis takes from the depth. -/
theorem depthAfter?_close : depthAfter? (depth + 1) (')' :: text) = depthAfter? depth text := by
  rw [depthAfter?.eq_def]
  rfl

/-- At depth zero no parenthesis can be closed. -/
theorem depthAfter?_close_zero : depthAfter? 0 (')' :: text) = none := by
  rw [depthAfter?.eq_def]
  rfl

/-- Other characters do not change the depth. -/
theorem depthAfter?_plain {c : Char} (hopen : c ≠ '(') (hclose : c ≠ ')') :
    depthAfter? depth (c :: text) = depthAfter? depth text := by
  rw [depthAfter?.eq_def]
  simp only [if_neg hopen, if_neg hclose]

/-- The depth after a concatenation is the depth after its parts, one after the other. -/
theorem depthAfter?_append (depth : Nat) (left right : Text) :
    depthAfter? depth (left ++ right) =
      (depthAfter? depth left).bind fun inner => depthAfter? inner right := by
  induction left generalizing depth with
  | nil => rfl
  | cons c left ih =>
    rw [List.cons_append]
    by_cases hopen : c = '('
    · rw [hopen, depthAfter?_open, depthAfter?_open, ih]
    by_cases hclose : c = ')'
    · rw [hclose]
      cases depth with
      | zero => rw [depthAfter?_close_zero, depthAfter?_close_zero, Option.bind_none]
      | succ depth => rw [depthAfter?_close, depthAfter?_close, ih]
    · rw [depthAfter?_plain hopen hclose, depthAfter?_plain hopen hclose, ih]

/-- A balanced text leaves every depth as it was. -/
theorem depthAfter?_of_balanced (hbalanced : Balanced text) (depth : Nat) :
    depthAfter? depth text = some depth := by
  rw [depthAfter?_eq_some_iff]
  obtain ⟨htotal, hfronts⟩ := hbalanced
  refine ⟨by omega, fun front hfront => ?_⟩
  have := hfronts front hfront
  omega

/-- A character that is no parenthesis in front of a text keeps it balanced. -/
theorem Balanced.cons {c : Char} (h : Balanced text) (hopen : c ≠ '(') (hclose : c ≠ ')') :
    Balanced (c :: text) := by
  rw [balanced_iff, depthAfter?_plain hopen hclose]
  exact balanced_iff.mp h

/-- A group is balanced if what it holds is. -/
theorem Balanced.group (hinner : Balanced text) : Balanced ('(' :: text ++ [')']) := by
  rw [balanced_iff, List.cons_append, depthAfter?_open, depthAfter?_append,
    depthAfter?_of_balanced hinner, Option.bind_some, depthAfter?_close]
  rfl

/-- The same character in front of texts that change every depth alike does so too. -/
theorem depthAfter?_cons_congr (c : Char) {other : Text}
    (h : ∀ depth, depthAfter? depth text = depthAfter? depth other) (depth : Nat) :
    depthAfter? depth (c :: text) = depthAfter? depth (c :: other) := by
  by_cases hopen : c = '('
  · rw [hopen, depthAfter?_open, depthAfter?_open, h]
  by_cases hclose : c = ')'
  · rw [hclose]
    cases depth with
    | zero => rw [depthAfter?_close_zero, depthAfter?_close_zero]
    | succ depth => rw [depthAfter?_close, depthAfter?_close, h]
  · rw [depthAfter?_plain hopen hclose, depthAfter?_plain hopen hclose, h]

/-- A text without parentheses is balanced. -/
theorem balanced_of_plain (hplain : ∀ c ∈ text, c ≠ '(' ∧ c ≠ ')') : Balanced text := by
  induction text with
  | nil => exact balanced_iff.mpr rfl
  | cons c text ih =>
    obtain ⟨hopen, hclose⟩ := hplain c List.mem_cons_self
    exact (ih fun d hd => hplain d (List.mem_cons_of_mem _ hd)).cons hopen hclose

end Text

namespace Front

open Text

variable {depth : Nat} {text : Text}

/-- The search goes on inside a parenthesis that is opened. -/
theorem splitClose_open : splitClose depth ('(' :: text) =
    (splitClose (depth + 1) text).map fun (body, rest) => ('(' :: body, rest) := by
  rw [splitClose.eq_def]
  rfl

/-- A parenthesis that closes an inner one does not end the search. -/
theorem splitClose_close : splitClose (depth + 1) (')' :: text) =
    (splitClose depth text).map fun (body, rest) => (')' :: body, rest) := by
  rw [splitClose.eq_def]
  rfl

/-- At depth zero the text is split at the closing parenthesis. -/
theorem splitClose_close_zero : splitClose 0 (')' :: text) = some ([], text) := by
  rw [splitClose.eq_def]
  rfl

/-- Other characters are passed over. -/
theorem splitClose_plain {c : Char} (hopen : c ≠ '(') (hclose : c ≠ ')') :
    splitClose depth (c :: text) =
      (splitClose depth text).map fun (body, rest) => (c :: body, rest) := by
  rw [splitClose.eq_def]
  simp only [if_neg hopen, if_neg hclose]

/-- The search goes through a text that does not close the root, and goes on from the depth reached
there. -/
theorem splitClose_append {inner : Nat} (hdepth : depthAfter? depth text = some inner)
    (rest : Text) :
    splitClose depth (text ++ rest) =
      (splitClose inner rest).map fun (body, after) => (text ++ body, after) := by
  induction text generalizing depth with
  | nil =>
    cases hdepth
    simp
  | cons c text ih =>
    rw [List.cons_append]
    by_cases hopen : c = '('
    · rw [hopen, depthAfter?_open] at hdepth
      rw [hopen, splitClose_open, ih hdepth, Option.map_map]
      rfl
    by_cases hclose : c = ')'
    · rw [hclose] at hdepth ⊢
      cases depth with
      | zero =>
        rw [depthAfter?_close_zero] at hdepth
        cases hdepth
      | succ depth =>
        rw [depthAfter?_close] at hdepth
        rw [splitClose_close, ih hdepth, Option.map_map]
        rfl
    · rw [depthAfter?_plain hopen hclose] at hdepth
      rw [splitClose_plain hopen hclose, ih hdepth, Option.map_map]
      rfl

/-- Where the search succeeds, every parenthesis opened on the way there is closed. -/
theorem depthAfter?_of_splitClose {body rest : Text}
    (hsplit : splitClose depth text = some (body, rest)) : depthAfter? depth body = some 0 := by
  induction text generalizing depth body with
  | nil => cases hsplit
  | cons c text ih =>
    by_cases hopen : c = '('
    · rw [hopen, splitClose_open] at hsplit
      obtain ⟨⟨inner, after⟩, hfound, hsame⟩ := Option.map_eq_some_iff.mp hsplit
      cases hsame
      rw [depthAfter?_open]
      exact ih hfound
    by_cases hclose : c = ')'
    · rw [hclose] at hsplit
      cases depth with
      | zero =>
        rw [splitClose_close_zero] at hsplit
        cases hsplit
        rfl
      | succ depth =>
        rw [splitClose_close] at hsplit
        obtain ⟨⟨inner, after⟩, hfound, hsame⟩ := Option.map_eq_some_iff.mp hsplit
        cases hsame
        rw [depthAfter?_close]
        exact ih hfound
    · rw [splitClose_plain hopen hclose] at hsplit
      obtain ⟨⟨inner, after⟩, hfound, hsame⟩ := Option.map_eq_some_iff.mp hsplit
      cases hsame
      rw [depthAfter?_plain hopen hclose]
      exact ih hfound

/-- Where the search fails, the text has a depth: the first parenthesis that closes too much would
have ended the search. -/
theorem exists_depthAfter?_of_splitClose (hsplit : splitClose depth text = none) :
    ∃ inner, depthAfter? depth text = some inner := by
  induction text generalizing depth with
  | nil => exact ⟨depth, rfl⟩
  | cons c text ih =>
    by_cases hopen : c = '('
    · rw [hopen, splitClose_open, Option.map_eq_none_iff] at hsplit
      rw [hopen, depthAfter?_open]
      exact ih hsplit
    by_cases hclose : c = ')'
    · rw [hclose] at hsplit ⊢
      cases depth with
      | zero =>
        rw [splitClose_close_zero] at hsplit
        cases hsplit
      | succ depth =>
        rw [splitClose_close, Option.map_eq_none_iff] at hsplit
        rw [depthAfter?_close]
        exact ih hsplit
    · rw [splitClose_plain hopen hclose, Option.map_eq_none_iff] at hsplit
      rw [depthAfter?_plain hopen hclose]
      exact ih hsplit

/-- The search fails exactly if the text never closes what is open before it. -/
theorem splitClose_eq_none_iff :
    splitClose depth text = none ↔ ∃ inner, depthAfter? depth text = some inner := by
  refine ⟨exists_depthAfter?_of_splitClose, fun ⟨inner, hdepth⟩ => ?_⟩
  have hsplit := splitClose_append hdepth []
  rw [List.append_nil] at hsplit
  rw [hsplit]
  rfl

/-- The search splits a text after a balanced argument, and only there. -/
theorem splitClose_eq_some_iff {body rest : Text} :
    splitClose 0 text = some (body, rest) ↔ text = body ++ ')' :: rest ∧ Balanced body := by
  constructor
  · intro hsplit
    exact ⟨eq_of_splitClose hsplit, balanced_iff.mpr (depthAfter?_of_splitClose hsplit)⟩
  · rintro ⟨rfl, hbalanced⟩
    rw [splitClose_append (depthAfter?_of_balanced hbalanced 0), splitClose_close_zero]
    simp

/-- The search fails exactly if no balanced part of the text ends at a closing parenthesis. -/
theorem splitClose_eq_none_iff_not_closes : splitClose 0 text = none ↔ ¬ Closes text := by
  rw [Option.eq_none_iff_forall_ne_some]
  constructor
  · rintro hnone ⟨body, rest, hclose⟩
    exact hnone (body, rest) (splitClose_eq_some_iff.mpr hclose)
  · intro hopen parts hsplit
    exact hopen ⟨parts.1, parts.2, splitClose_eq_some_iff.mp hsplit⟩

/-- What follows the split does not matter to it. -/
theorem splitClose_append_right {body rest : Text}
    (hsplit : splitClose depth text = some (body, rest)) (right : Text) :
    splitClose depth (text ++ right) = some (body, rest ++ right) := by
  have hdepth := depthAfter?_of_splitClose hsplit
  rw [eq_of_splitClose hsplit, List.append_assoc, splitClose_append hdepth, List.cons_append,
    splitClose_close_zero]
  simp

end Front

end Surd
