import Surd.Text

/-!
# Balanced parentheses

Parentheses match over all characters of a text; other characters do not matter. A text is balanced
if its parentheses match each other, and a parenthesis before a text is closed in it if a balanced
part of the text ends at a closing one.
-/

namespace Surd.Text

/-- As many parentheses are closed as are opened, and never more up to any point. -/
def Balanced (text : Text) : Prop :=
  text.count ')' = text.count '(' ∧ ∀ front, front <+: text → front.count ')' ≤ front.count '('

/-- An opening parenthesis before the text is closed in it. -/
def Closes (text : Text) : Prop := ∃ body rest, text = body ++ ')' :: rest ∧ Balanced body

/-- How many parentheses are open at the end of a text before which `depth` were open, if none is
closed that was not opened. -/
def depthAfter? (depth : Nat) : Text → Option Nat
  | [] => some depth
  | c :: text =>
    if c = '(' then depthAfter? (depth + 1) text
    else if c = ')' then
      match depth with
      | 0 => none
      | depth + 1 => depthAfter? depth text
    else depthAfter? depth text

/-- The depth after a text is the number of parentheses that it opens and does not close. -/
theorem depthAfter?_eq_some_iff {depth after : Nat} {text : Text} :
    depthAfter? depth text = some after ↔
      after + text.count ')' = depth + text.count '(' ∧
        ∀ front, front <+: text → front.count ')' ≤ depth + front.count '(' := by
  induction text generalizing depth with
  | nil =>
    simp only [depthAfter?, Option.some.injEq, List.prefix_nil, List.count_nil]
    constructor
    · rintro rfl
      exact ⟨rfl, fun front h => by simp [h]⟩
    · rintro ⟨h, -⟩
      omega
  | cons c text ih =>
    have hfronts (bound : Nat → Text → Prop) :
        (∀ front, front <+: c :: text → bound depth front) ↔
          bound depth [] ∧ ∀ front, front <+: text → bound depth (c :: front) := by
      constructor
      · exact fun h =>
          ⟨h [] List.nil_prefix, fun front hfront => h _ (List.cons_prefix_cons.2 ⟨rfl, hfront⟩)⟩
      · rintro ⟨hnil, hcons⟩ front hfront
        rcases List.prefix_cons_iff.1 hfront with rfl | ⟨rest, rfl, hrest⟩
        · exact hnil
        · exact hcons rest hrest
    rw [hfronts fun depth front => front.count ')' ≤ depth + front.count '(']
    unfold depthAfter?
    split
    next hopening =>
      subst hopening
      rw [ih]
      simp only [List.count_cons, List.count_nil]
      simp +decide only [if_true, if_false]
      constructor
      · rintro ⟨htotal, hbound⟩
        exact ⟨by omega, by omega, fun front hfront => by have := hbound front hfront; omega⟩
      · rintro ⟨htotal, -, hbound⟩
        exact ⟨by omega, fun front hfront => by have := hbound front hfront; omega⟩
    split
    next hclosing =>
      subst hclosing
      split
      · simp only [List.count_cons, List.count_nil]
        simp +decide only [if_true, if_false]
        constructor
        · intro h
          cases h
        · rintro ⟨-, -, hbound⟩
          have := hbound [] List.nil_prefix
          simp at this
      · rw [ih]
        simp only [List.count_cons, List.count_nil]
        simp +decide only [if_true, if_false]
        constructor
        · rintro ⟨htotal, hbound⟩
          exact ⟨by omega, by omega, fun front hfront => by have := hbound front hfront; omega⟩
        · rintro ⟨htotal, -, hbound⟩
          exact ⟨by omega, fun front hfront => by have := hbound front hfront; omega⟩
    next hopening hclosing =>
      rw [ih]
      simp only [List.count_cons, beq_iff_eq, hopening, hclosing, if_false, List.count_nil]
      constructor
      · rintro ⟨htotal, hbound⟩
        exact ⟨by omega, by omega, fun front hfront => by have := hbound front hfront; omega⟩
      · rintro ⟨htotal, -, hbound⟩
        exact ⟨by omega, fun front hfront => by have := hbound front hfront; omega⟩

/-- Counting finds out whether a text is balanced. -/
theorem balanced_iff {text : Text} : Balanced text ↔ depthAfter? 0 text = some 0 := by
  rw [depthAfter?_eq_some_iff]
  simp [Balanced]

/-- Whether a text is balanced is decided by counting. -/
instance (text : Text) : Decidable (Balanced text) := decidable_of_iff _ balanced_iff.symm

end Surd.Text
