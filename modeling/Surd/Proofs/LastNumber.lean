import Surd.Proofs.LastNumber.Leftmost

/-!
# Where the last number of a text stands

A text that is cut at its last number is put together again from the three parts, and the number
consists of a sign and digits (`LastNumber.find?_eq_some`). As the number is the first one from the
left that only characters without digits and points follow, what stands before a number without a
sign cannot be taken into it: it is no digit and no minus sign, and it is a point only if the number
has one already (`LastNumber.eq_point_of_joins`).
-/

namespace Surd.LastNumber

open Front

variable {text digits after : Text} {found : LastNumber}

/-- What is read as digits is the front of the text that it is read from. -/
theorem of_decimal?_eq_some (h : decimal? text = some (digits, after)) :
    text = digits ++ after ∧ digits ≠ [] ∧ ∀ c ∈ digits, isNumeric c = true := by
  obtain ⟨htext, hdigits⟩ := eq_append_of_decimal? h
  obtain ⟨hnumeric, -, c, hlast, -⟩ := hdigits.spec
  exact ⟨htext, List.ne_nil_of_mem (List.mem_of_getLast? hlast), hnumeric⟩

/-- The parts of a last number: perhaps a sign, and the digits that are read behind it. -/
structure Parts (found : LastNumber) (sign digits : Text) : Prop where
  number : found.number = sign ++ digits
  sign : sign = [] ∨ sign = ['+'] ∨ sign = ['-']
  digits : decimal? (digits ++ found.after) = some (digits, found.after)
  plain : ∀ c ∈ found.after, isNumeric c = false

/-- A text is cut into the part before its last number, the number and the part after it, and no
number that only characters without digits and points follow begins further to the left. -/
theorem find?_eq_some (h : find? text = some found) :
    text = found.before ++ (found.number ++ found.after) ∧
      (∃ sign digits, found.Parts sign digits) ∧
      ∀ other, IsMatch text other → found.before.length ≤ other.before.length := by
  have hleftmost := find?_eq_some_iff.mp h
  obtain ⟨sign, digits, hnumber, hsign, hdigits⟩ := hleftmost.number
  have hread := decimal?_append hdigits hleftmost.plain
  exact ⟨hleftmost.text_eq, ⟨sign, digits, hnumber, hsign, hread, hleftmost.plain⟩,
    hleftmost.le_length⟩

/-- What stands before a last number without a sign can be taken into it only if it is a point, and
the number has a point already. -/
theorem eq_point_of_joins (h : find? text = some found) (hparts : found.Parts [] digits) {c : Char}
    (hc : c ∈ found.before.getLast?) (hjoins : isNumeric c = true ∨ c = '-') :
    c = '.' ∧ '.' ∈ digits := by
  obtain ⟨htext, -, hleft⟩ := find?_eq_some h
  obtain ⟨front, hbefore⟩ := List.getLast?_eq_some_iff.mp hc
  obtain ⟨-, hdigits⟩ := eq_append_of_decimal? hparts.digits
  have hnumber : found.number = digits := hparts.number
  -- a number with this character in front would begin further to the left
  have hlonger : ¬ IsNumber (c :: digits) := by
    intro hjoined
    have hmatch : IsMatch text ⟨front, c :: digits, found.after⟩ := by
      refine ⟨?_, hjoined, hparts.plain⟩
      rw [htext, hbefore, hnumber, List.append_assoc]
      rfl
    have hle := hleft _ hmatch
    rw [hbefore, List.length_append] at hle
    exact Nat.not_succ_le_self _ hle
  rcases hjoins with hnumeric | rfl
  · obtain ⟨hall, hcount, d, hlast, hd⟩ := hdigits.spec
    have hpoints : ¬ (c :: digits).count '.' ≤ 1 := by
      intro hle
      have hjoined : IsUnsigned (c :: digits) := by
        refine isUnsigned_iff.mpr ⟨List.forall_mem_cons.mpr ⟨hnumeric, hall⟩, hle, d, ?_, hd⟩
        rw [List.getLast?_cons, hlast]
        rfl
      exact hlonger ⟨[], c :: digits, rfl, .inl rfl, hjoined⟩
    by_cases hpoint : c = '.'
    · subst hpoint
      rw [List.count_cons_self] at hpoints
      exact ⟨rfl, List.count_pos_iff.mp (by omega)⟩
    · rw [List.count_cons_of_ne hpoint] at hpoints
      exact absurd hcount hpoints
  · exact (hlonger ⟨['-'], digits, rfl, .inr (.inr rfl), hdigits⟩).elim

end Surd.LastNumber
