import Mathlib.Data.List.DropRight
import Surd.Proofs.Evaluation.LastOperand

/-!
# Malformed numbers

Digits with two points in them are no number, with a sign or without, and neither is a sign that no
digits follow. A text in which one of these stands last among the digits and points has no value
(`Frame.evaluate_ne_ok_of_points`, `Frame.evaluate_ne_ok_of_minus_minus`).
-/

namespace Surd

open Front

/-- A text with two points is no decimal. -/
theorem Decimal.ofText?_of_points {text : Text} (hpoints : 2 ≤ text.count '.') :
    ofText? text = none := by
  have hno {run : Text} (hdigits : ∀ c ∈ run, c.isDigit = true) : run.count '.' = 0 := by
    rw [List.count_eq_zero]
    exact fun hpoint => absurd (hdigits '.' hpoint) (by decide)
  have hwhole : (text.takeWhile Char.isDigit).count '.' = 0 :=
    hno fun c hc => List.mem_takeWhile_imp hc
  have hparts := congrArg (List.count '.') (@List.takeWhile_append_dropWhile _ Char.isDigit text)
  rw [List.count_append] at hparts
  unfold ofText?
  dsimp only
  split
  next hrest =>
    rw [hrest, List.count_nil] at hparts
    omega
  next part hrest =>
    rw [hrest, List.count_cons_self] at hparts
    refine if_neg fun hpart => ?_
    have hcount := hno (List.all_eq_true.mp hpart.1)
    omega
  next => rfl

/-- A text with two points is no number. -/
theorem Number.read?_of_points {text : Text} (hpoints : 2 ≤ text.count '.') :
    read? text = none := by
  unfold read?
  split
  next rest =>
    rw [List.count_cons_of_ne (by decide)] at hpoints
    rw [Decimal.ofText?_of_points hpoints, Option.map_none]
  next rest =>
    rw [List.count_cons_of_ne (by decide)] at hpoints
    rw [Decimal.ofText?_of_points hpoints, Option.map_none]
  next => rw [Decimal.ofText?_of_points hpoints, Option.map_none]

namespace Scanner

variable {offset : Nat} {previous : Option Char} {run right : Text}

/-- The scan fails at a number that cannot be read. -/
theorem fault_of_number {c : Char} {text sign body : Text}
    (hread : Front.read previous c text = number sign body)
    (hnone : Number.read? (sign ++ body.takeWhile isNumeric) = none) :
    (scan ⟨offset, previous, c :: text⟩).fault ≠ none := by
  have hreading : (Front.read previous c text).reading =
      .error (.invalidNumber (sign ++ body.takeWhile isNumeric)) := by
    rw [hread, number, ofLiteral, hnone]
  rw [scan_of_error hreading]
  exact Option.some_ne_none _

/-- Digits and points up to the trailing characters are taken together. -/
theorem takeWhile_isNumeric_append (hrun : ∀ c ∈ run, isNumeric c = true) (hright : Trails right) :
    (run ++ right).takeWhile isNumeric = run := by
  rw [List.takeWhile_append_of_pos hrun]
  cases right with
  | nil => exact List.append_nil run
  | cons c right => simp [hright.plain c List.mem_cons_self]

/-- The scan fails at digits with two points. -/
theorem fault_of_points (hrun : ∀ c ∈ run, isNumeric c = true) (hpoints : 2 ≤ run.count '.')
    (hright : Trails right) : (scan ⟨offset, previous, run ++ right⟩).fault ≠ none := by
  have hne : run ≠ [] := by
    rintro rfl
    cases hpoints
  obtain ⟨c, text, htext, hread⟩ := @exists_read_number previous [] (run ++ right) (.inl rfl)
    (List.append_ne_nil_of_left_ne_nil hne _) (by
      obtain ⟨c, run, rfl⟩ := List.exists_cons_of_ne_nil hne
      intro d hd
      cases hd
      exact hrun c List.mem_cons_self)
  rw [List.nil_append] at htext
  rw [htext]
  refine fault_of_number hread ?_
  rw [takeWhile_isNumeric_append hrun hright]
  exact Number.read?_of_points hpoints

/-- The scan fails at digits with two points also behind a minus sign. -/
theorem fault_of_minus_points (hrun : ∀ c ∈ run, isNumeric c = true) (hpoints : 2 ≤ run.count '.')
    (hright : Trails right) : (scan ⟨offset, previous, '-' :: (run ++ right)⟩).fault ≠ none := by
  cases hsign : signAllowed previous with
  | true =>
    refine fault_of_number (read_minus hsign _) (Number.read?_of_points ?_)
    rw [takeWhile_isNumeric_append hrun hright, List.count_append]
    omega
  | false =>
    have hscan := @scan_operator offset previous (run ++ right) .sub fun _ => hsign
    change scan ⟨offset, previous, '-' :: (run ++ right)⟩ = _ at hscan
    rw [hscan]
    exact fault_of_points hrun hpoints hright

/-- The scan fails at a sign that a minus sign follows. -/
theorem fault_of_minus_minus (hsign : signAllowed previous = true) (text : Text) :
    (scan ⟨offset, previous, '-' :: '-' :: text⟩).fault ≠ none :=
  fault_of_number (read_minus hsign _) rfl

end Scanner

namespace Frame

variable {left digits right : Text} {offset : Nat} {value : Float}

/-- Digits and points are balanced. -/
theorem balanced_of_numeric {run : Text} (hrun : ∀ c ∈ run, isNumeric c = true) :
    Text.Balanced run :=
  Text.balanced_of_plain fun c hc =>
    ⟨ne_of_isNumeric (hrun c hc) (by decide), ne_of_isNumeric (hrun c hc) (by decide)⟩

/-- A text has no value if its last digits and points, with those before them, have two points. -/
theorem evaluate_ne_ok_of_points (hlast : left.getLast? = some '.') (hpoint : '.' ∈ digits)
    (hdigits : ∀ c ∈ digits, isNumeric c = true) (hright : Trails right) :
    (mk offset (left ++ (digits ++ right))).evaluate ≠ .ok value := by
  -- all the digits and points before the place are read together with those behind it
  obtain ⟨front, hfront⟩ : ∃ front, front = left.rdropWhile isNumeric := ⟨_, rfl⟩
  obtain ⟨run, hrun⟩ : ∃ run, run = left.rtakeWhile isNumeric ++ digits := ⟨_, rfl⟩
  have htext : left ++ (digits ++ right) = front ++ (run ++ right) := by
    rw [hfront, hrun, List.append_assoc, ← List.append_assoc (left.rdropWhile isNumeric),
      List.rdropWhile_append_rtakeWhile]
  have hnumeric : ∀ c ∈ run, isNumeric c = true := by
    intro c hc
    rw [hrun] at hc
    rcases List.mem_append.mp hc with hc | hc
    · exact List.mem_rtakeWhile_imp hc
    · exact hdigits c hc
  have hpoints : 2 ≤ run.count '.' := by
    obtain ⟨rest, rfl⟩ := List.getLast?_eq_some_iff.mp hlast
    have hcount := List.count_pos_iff.mpr hpoint
    rw [hrun, List.rtakeWhile_concat_pos _ _ _ (by decide), List.count_append, List.count_append,
      List.count_singleton_self]
    omega
  rw [htext]
  by_cases hminus : front.getLast? = some '-'
  · obtain ⟨rest, hrest⟩ := List.getLast?_eq_some_iff.mp hminus
    have hcut : Cut rest ('-' :: run) := cut_cons (by decide) (by decide) (by decide)
    rw [hrest, List.append_assoc]
    change (mk offset (rest ++ ('-' :: run ++ right))).evaluate ≠ _
    exact evaluate_ne_ok_of_fault (List.cons_ne_nil _ _)
      ((balanced_of_numeric hnumeric).cons (by decide) (by decide)) hcut hright
      fun _ _ _ _ hright => Scanner.fault_of_minus_points hnumeric hpoints hright
  · have hne : run ≠ [] := by
      rintro rfl
      cases hpoints
    have hcut : Cut front run := by
      intro c hc d hd
      have hd : isNumeric d = true := hnumeric d (List.mem_of_mem_head? hd)
      have hopen : d ≠ '(' := ne_of_isNumeric hd (by decide)
      have hplain : isNumeric c = false := by
        have hne : left.rdropWhile isNumeric ≠ [] := by
          rw [← hfront]
          exact List.ne_nil_of_mem (List.mem_of_getLast? hc)
        have hkept := List.rdropWhile_last_not isNumeric left hne
        rw [hfront, List.getLast?_eq_some_getLast hne] at hc
        cases hc
        exact Bool.eq_false_iff.mpr hkept
      have hc : c ≠ '-' := by
        rintro rfl
        exact hminus hc
      simp [joins, hplain, hc, hopen]
    exact evaluate_ne_ok_of_fault hne (balanced_of_numeric hnumeric) hcut hright
      fun _ _ _ _ hright => Scanner.fault_of_points hnumeric hpoints hright

/-- A text has no value if two minus signs stand in it where one may be a sign. -/
theorem evaluate_ne_ok_of_minus_minus (hsign : signAllowed left.getLast? = true)
    (hdigits : ∀ c ∈ digits, isNumeric c = true) (hright : Trails right) :
    (mk offset (left ++ ('-' :: '-' :: digits ++ right))).evaluate ≠ .ok value := by
  have hcut : Cut left ('-' :: '-' :: digits) := cut_cons (by decide) (by decide) (by decide)
  have hbalanced : Text.Balanced ('-' :: '-' :: digits) :=
    ((balanced_of_numeric hdigits).cons (by decide) (by decide)).cons (by decide) (by decide)
  exact evaluate_ne_ok_of_fault (List.cons_ne_nil _ _) hbalanced hcut hright
    fun _ _ _ hprevious _ => Scanner.fault_of_minus_minus (hprevious.trans hsign) _

end Frame

end Surd
