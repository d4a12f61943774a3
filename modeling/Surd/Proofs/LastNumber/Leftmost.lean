import Surd.Percent
import Surd.Proofs.Token.Cut

/-!
# The leftmost number that only other characters follow

The search for the last number goes from the left. What it finds is described here without the
search: a number of a text behind which there are no digits and points, such that no other one
begins further to the left (`LastNumber.find?_eq_some_iff`). At each place there is at most one such
number, so a choice between a longer and a shorter one never arises.
-/

namespace Surd.LastNumber

open Front

/-- Digits, of which the last ones may have a point in front of them. -/
def IsUnsigned (digits : Text) : Prop :=
  ∃ whole point part, digits = whole ++ (point ++ part) ∧ (∀ c ∈ whole, c.isDigit = true) ∧
    (point = [] ∨ point = ['.']) ∧ part ≠ [] ∧ ∀ c ∈ part, c.isDigit = true

/-- A number that may have a sign. -/
def IsNumber (number : Text) : Prop :=
  ∃ sign digits, number = sign ++ digits ∧ (sign = [] ∨ sign = ['+'] ∨ sign = ['-']) ∧
    IsUnsigned digits

/-- A text is cut at a number behind which there are no digits and points. -/
structure IsMatch (text : Text) (found : LastNumber) : Prop where
  text_eq : text = found.before ++ (found.number ++ found.after)
  number : IsNumber found.number
  plain : ∀ c ∈ found.after, isNumeric c = false

/-- A text is cut at the first such number from the left. -/
structure IsLeftmost (text : Text) (found : LastNumber) : Prop extends IsMatch text found where
  le_length : ∀ other, IsMatch text other → found.before.length ≤ other.before.length

variable {text digits after : Text} {found : LastNumber} {c : Char}

/-! ## What is read as digits -/

/-- There is no point among digits. -/
theorem not_mem_point (hdigits : ∀ c ∈ digits, c.isDigit = true) : '.' ∉ digits :=
  fun hpoint => absurd (hdigits '.' hpoint) (by decide)

/-- Digits alone are an unsigned number. -/
theorem isUnsigned_of_digits (hne : digits ≠ []) (hdigits : ∀ c ∈ digits, c.isDigit = true) :
    IsUnsigned digits :=
  ⟨[], [], digits, rfl, List.forall_mem_nil _, .inl rfl, hne, hdigits⟩

/-- What is read as digits has at most one point and ends in a digit. -/
theorem IsUnsigned.spec (h : IsUnsigned digits) : (∀ c ∈ digits, isNumeric c = true) ∧
    digits.count '.' ≤ 1 ∧ ∃ c, digits.getLast? = some c ∧ c.isDigit = true := by
  obtain ⟨whole, point, part, rfl, hwhole, hpoint, hne, hpart⟩ := h
  obtain ⟨c, hlast⟩ := Option.ne_none_iff_exists'.mp (mt List.getLast?_eq_none_iff.mp hne)
  refine ⟨?_, ?_, c, ?_, hpart c (List.mem_of_getLast? hlast)⟩
  · intro d hd
    rw [isNumeric_iff]
    rcases List.mem_append.mp hd with hd | hd
    · exact .inl (hwhole d hd)
    · rcases List.mem_append.mp hd with hd | hd
      · rcases hpoint with rfl | rfl
        · cases hd
        · exact .inr (List.mem_singleton.mp hd)
      · exact .inl (hpart d hd)
  · rw [List.count_append, List.count_append, List.count_eq_zero.mpr (not_mem_point hwhole),
      List.count_eq_zero.mpr (not_mem_point hpart)]
    rcases hpoint with rfl | rfl
    · decide
    · decide
  · rw [List.getLast?_append, List.getLast?_append, hlast]
    rfl

/-- Where there is no point, the characters of a number are digits. -/
theorem isDigit_of_not_mem_point {run : Text} (hnumeric : ∀ c ∈ run, isNumeric c = true)
    (hpoint : '.' ∉ run) : ∀ c ∈ run, c.isDigit = true := by
  intro c hc
  refine (isNumeric_iff.mp (hnumeric c hc)).resolve_right ?_
  rintro rfl
  exact hpoint hc

/-- Digits and at most one point, with a digit at the end, are what is read as digits. -/
theorem isUnsigned_iff : IsUnsigned digits ↔
    (∀ c ∈ digits, isNumeric c = true) ∧ digits.count '.' ≤ 1 ∧
      ∃ c, digits.getLast? = some c ∧ c.isDigit = true := by
  refine ⟨IsUnsigned.spec, ?_⟩
  rintro ⟨hnumeric, hcount, c, hlast, hc⟩
  by_cases hpoint : '.' ∈ digits
  · obtain ⟨whole, part, rfl⟩ := List.append_of_mem hpoint
    rw [List.forall_mem_append, List.forall_mem_cons] at hnumeric
    rw [List.count_append, List.count_cons_self] at hcount
    have hwhole : '.' ∉ whole := List.count_eq_zero.mp (by omega)
    have hpart : '.' ∉ part := List.count_eq_zero.mp (by omega)
    refine ⟨whole, ['.'], part, rfl, isDigit_of_not_mem_point hnumeric.1 hwhole, .inr rfl, ?_,
      isDigit_of_not_mem_point hnumeric.2.2 hpart⟩
    rintro rfl
    rw [List.getLast?_concat, Option.some.injEq] at hlast
    rw [← hlast] at hc
    exact absurd hc (by decide)
  · exact isUnsigned_of_digits (List.ne_nil_of_mem (List.mem_of_getLast? hlast))
      (isDigit_of_not_mem_point hnumeric hpoint)

/-- A digit in front of digits is taken with them. -/
theorem decimal?_cons_digit {c : Char} (hc : c.isDigit = true)
    (h : decimal? text = some (digits, after)) :
    decimal? (c :: text) = some (c :: digits, after) := by
  unfold decimal? at h ⊢
  dsimp only at h ⊢
  rw [List.takeWhile_cons_of_pos hc, List.dropWhile_cons_of_pos hc]
  split at h
  next hpoint =>
    cases h
    rw [if_pos hpoint]
    rfl
  next hpoint =>
    rw [if_neg hpoint, if_pos (List.cons_ne_nil _ _)]
    split at h
    · cases h
      rfl
    · cases h

/-- No digits are read from characters without digits and points. -/
theorem no_digits (hafter : ∀ c ∈ after, isNumeric c = false) :
    after.takeWhile Char.isDigit = [] ∧ after.dropWhile Char.isDigit = after := by
  cases after with
  | nil => exact ⟨rfl, rfl⟩
  | cons c after =>
    have hc := hafter c List.mem_cons_self
    rw [isNumeric, Bool.or_eq_false_iff] at hc
    exact ⟨List.takeWhile_cons_of_neg (by simp [hc.1]), List.dropWhile_cons_of_neg (by simp [hc.1])⟩

/-- Digits without a point are read as far as they go. -/
theorem decimal?_digits (hne : digits ≠ []) (hdigits : ∀ c ∈ digits, c.isDigit = true)
    (hafter : ∀ c ∈ after, isNumeric c = false) :
    decimal? (digits ++ after) = some (digits, after) := by
  have hpoint : after.head? ≠ some '.' := fun hhead =>
    absurd (hafter '.' (List.mem_of_mem_head? hhead)) (by decide)
  obtain ⟨htake, hdrop⟩ := no_digits hafter
  unfold decimal?
  simp [List.takeWhile_append_of_pos hdigits, List.dropWhile_append_of_pos hdigits, htake, hdrop,
    hpoint, hne]

/-- A point in front of digits without a point is taken with them. -/
theorem decimal?_cons_point (hne : digits ≠ []) (hdigits : ∀ c ∈ digits, c.isDigit = true)
    (hafter : ∀ c ∈ after, isNumeric c = false) :
    decimal? ('.' :: (digits ++ after)) = some ('.' :: digits, after) := by
  have hpoint : Char.isDigit '.' = false := by decide
  obtain ⟨htake, hdrop⟩ := no_digits hafter
  unfold decimal?
  simp [hpoint, List.takeWhile_append_of_pos hdigits, List.dropWhile_append_of_pos hdigits, htake,
    hdrop, hne]

/-- Digits are read in full. -/
theorem decimal?_append (hdigits : IsUnsigned digits) (hafter : ∀ c ∈ after, isNumeric c = false) :
    decimal? (digits ++ after) = some (digits, after) := by
  obtain ⟨whole, point, part, rfl, hwhole, hpoint, hne, hpart⟩ := hdigits
  induction whole with
  | nil =>
    rcases hpoint with rfl | rfl
    · exact decimal?_digits hne hpart hafter
    · exact decimal?_cons_point hne hpart hafter
  | cons c whole ih =>
    exact decimal?_cons_digit (hwhole c List.mem_cons_self)
      (ih fun d hd => hwhole d (List.mem_cons_of_mem _ hd))

/-- What is read as digits is the front of the text that it is read from. -/
theorem eq_append_of_decimal? (h : decimal? text = some (digits, after)) :
    text = digits ++ after ∧ IsUnsigned digits := by
  have htake {c : Char} {run : Text} (hc : c ∈ run.takeWhile Char.isDigit) : c.isDigit = true :=
    List.mem_takeWhile_imp hc
  have hparts := @List.takeWhile_append_dropWhile _ Char.isDigit text
  unfold decimal? at h
  dsimp only at h
  split at h
  next hpoint =>
    obtain ⟨rest, hrest⟩ := List.head?_eq_some_iff.mp hpoint.1
    have hpart : (rest.takeWhile Char.isDigit) ≠ [] := by
      rw [hrest] at hpoint
      exact hpoint.2
    rw [hrest] at h hparts
    cases h
    refine ⟨?_, _, ['.'], _, rfl, fun c hc => htake hc, .inr rfl, hpart, fun c hc => htake hc⟩
    rw [List.append_assoc, List.cons_append, List.drop_one, List.tail_cons,
      List.takeWhile_append_dropWhile, hparts]
  next =>
    split at h
    next hwhole =>
      cases h
      exact ⟨hparts.symm, isUnsigned_of_digits hwhole fun c hc => htake hc⟩
    next => cases h

/-! ## What is found -/

/-- A sign at the front is split off. -/
theorem sign_cons_of_sign {c : Char} (hc : c = '+' ∨ c = '-') (text : Text) :
    sign (c :: text) = ([c], text) := if_pos hc

/-- A text that begins with anything else has no sign. -/
theorem sign_cons_of_not_sign {c : Char} (hc : ¬ (c = '+' ∨ c = '-')) (text : Text) :
    sign (c :: text) = ([], c :: text) := if_neg hc

/-- What is read as a sign is the front of the text that it is read from. -/
theorem sign_spec (text : Text) : (sign text).1 ++ (sign text).2 = text ∧
    ((sign text).1 = [] ∨ (sign text).1 = ['+'] ∨ (sign text).1 = ['-']) := by
  cases text with
  | nil => exact ⟨rfl, .inl rfl⟩
  | cons c text =>
    by_cases hc : c = '+' ∨ c = '-'
    · rw [sign_cons_of_sign hc]
      rcases hc with rfl | rfl
      · exact ⟨rfl, .inr (.inl rfl)⟩
      · exact ⟨rfl, .inr (.inr rfl)⟩
    · rw [sign_cons_of_not_sign hc]
      exact ⟨rfl, .inl rfl⟩

/-- The sign of a number is read from its front, and nothing if it has none. -/
theorem sign_append {first : Text} (hfirst : first = [] ∨ first = ['+'] ∨ first = ['-'])
    (hdigits : IsUnsigned digits) :
    sign (first ++ (digits ++ after)) = (first, digits ++ after) := by
  rcases hfirst with rfl | rfl | rfl
  · obtain ⟨hnumeric, -, c, hlast, -⟩ := hdigits.spec
    cases digits with
    | nil => cases hlast
    | cons d digits =>
      have hd (other : Char) : isNumeric other = false → d ≠ other :=
        ne_of_isNumeric (hnumeric d List.mem_cons_self)
      refine sign_cons_of_not_sign ?_ _
      rintro (hplus | hminus)
      · exact hd '+' (by decide) hplus
      · exact hd '-' (by decide) hminus
  · exact sign_cons_of_sign (.inl rfl) _
  · exact sign_cons_of_sign (.inr rfl) _

/-- Characters without digits and points are what may follow a last number. -/
theorem any_eq_false_iff : (after.any fun c => c.isDigit || c = '.') = false ↔
    ∀ c ∈ after, isNumeric c = false := by
  rw [List.any_eq_false]
  simp only [isNumeric, Bool.not_eq_true]

/-- A number ends in a digit. -/
theorem IsNumber.exists_getLast? {number : Text} (h : IsNumber number) :
    ∃ c, number.getLast? = some c ∧ c.isDigit = true := by
  obtain ⟨sign, digits, rfl, -, hdigits⟩ := h
  obtain ⟨-, -, c, hlast, hc⟩ := hdigits.spec
  refine ⟨c, ?_, hc⟩
  rw [List.getLast?_append, hlast]
  rfl

/-- A last number is found at the front of a text if the text begins with it. -/
theorem front?_eq_some_iff :
    front? text = some found ↔ IsMatch text found ∧ found.before = [] := by
  constructor
  · intro h
    obtain ⟨hsign, hsome⟩ := sign_spec text
    unfold front? at h
    dsimp only at h
    split at h
    next digits after hdigits =>
      split at h
      · cases h
      next hplain =>
        cases h
        rw [Bool.not_eq_true, any_eq_false_iff] at hplain
        obtain ⟨hrest, hunsigned⟩ := eq_append_of_decimal? hdigits
        refine ⟨⟨?_, ⟨(sign text).1, digits, rfl, hsome, hunsigned⟩, hplain⟩, rfl⟩
        rw [List.nil_append, List.append_assoc, ← hrest, hsign]
    next => cases h
  · rintro ⟨⟨htext, ⟨first, digits, hnumber, hsign, hdigits⟩, hplain⟩, hbefore⟩
    rw [hbefore, hnumber, List.nil_append, List.append_assoc] at htext
    have hread : sign text = (first, digits ++ found.after) := htext ▸ sign_append hsign hdigits
    unfold front?
    simp only [hread, decimal?_append hdigits hplain, any_eq_false_iff.mpr hplain]
    rw [if_neg Bool.false_ne_true, ← hnumber, ← hbefore]

/-- A number begins a text or stands behind its first character. -/
theorem isMatch_cons_iff : IsMatch (c :: text) found ↔ front? (c :: text) = some found ∨
    ∃ later, IsMatch text later ∧ found = { later with before := c :: later.before } := by
  rw [front?_eq_some_iff]
  constructor
  · intro hmatch
    have htext := hmatch.text_eq
    cases hbefore : found.before with
    | nil => exact .inl ⟨hmatch, rfl⟩
    | cons d before =>
      rw [hbefore, List.cons_append, List.cons.injEq] at htext
      obtain ⟨rfl, htext⟩ := htext
      right
      refine ⟨⟨before, found.number, found.after⟩, ⟨htext, hmatch.number, hmatch.plain⟩, ?_⟩
      rw [← hbefore]
  · rintro (⟨hmatch, -⟩ | ⟨later, ⟨rfl, hnumber, hplain⟩, rfl⟩)
    · exact hmatch
    · exact ⟨rfl, hnumber, hplain⟩

/-- A number with which a text begins is the leftmost one. -/
theorem isLeftmost_cons_iff_of_some {first : LastNumber}
    (hfront : front? (c :: text) = some first) :
    IsLeftmost (c :: text) found ↔ first = found := by
  obtain ⟨hfirst, hbefore⟩ := front?_eq_some_iff.mp hfront
  constructor
  · intro h
    have hle := h.le_length first hfirst
    rw [hbefore] at hle
    have hfound : front? (c :: text) = some found :=
      front?_eq_some_iff.mpr ⟨h.toIsMatch, List.length_eq_zero_iff.mp (Nat.le_zero.mp hle)⟩
    exact Option.some.inj (hfront.symm.trans hfound)
  · rintro rfl
    refine ⟨hfirst, fun other _ => ?_⟩
    rw [hbefore]
    exact Nat.zero_le _

/-- If a text begins with no number, its leftmost one is that of the text behind its first
character. -/
theorem isLeftmost_cons_iff_of_none (hfront : front? (c :: text) = none) :
    IsLeftmost (c :: text) found ↔
      ∃ later, IsLeftmost text later ∧ { later with before := c :: later.before } = found := by
  have hbehind {later : LastNumber} (hmatch : IsMatch text later) :
      IsMatch (c :: text) { later with before := c :: later.before } :=
    isMatch_cons_iff.mpr (.inr ⟨later, hmatch, rfl⟩)
  have hcases {other : LastNumber} (hmatch : IsMatch (c :: text) other) :
      ∃ later, IsMatch text later ∧ other = { later with before := c :: later.before } := by
    refine (isMatch_cons_iff.mp hmatch).resolve_left fun hsome => ?_
    rw [hfront] at hsome
    cases hsome
  constructor
  · intro h
    obtain ⟨later, hmatch, rfl⟩ := hcases h.toIsMatch
    refine ⟨later, ⟨hmatch, fun other hother => ?_⟩, rfl⟩
    exact Nat.le_of_succ_le_succ (h.le_length _ (hbehind hother))
  · rintro ⟨later, ⟨hmatch, hle⟩, rfl⟩
    refine ⟨hbehind hmatch, fun other hother => ?_⟩
    obtain ⟨next, hnext, rfl⟩ := hcases hother
    exact Nat.succ_le_succ (hle next hnext)

/-- The search finds the leftmost number. -/
theorem find?_eq_some_iff : find? text = some found ↔ IsLeftmost text found := by
  induction text generalizing found with
  | nil =>
    refine ⟨fun h => (by cases h), fun h => ?_⟩
    obtain ⟨c, hlast, -⟩ := h.number.exists_getLast?
    obtain ⟨-, hrest⟩ := List.append_eq_nil_iff.mp h.text_eq.symm
    rw [(List.append_eq_nil_iff.mp hrest).1] at hlast
    cases hlast
  | cons c text ih =>
    rw [find?]
    cases hfront : front? (c :: text) with
    | some first => rw [isLeftmost_cons_iff_of_some hfront, Option.some.injEq]
    | none => simp only [isLeftmost_cons_iff_of_none hfront, Option.map_eq_some_iff, ih]

/-- Nothing is found in a text without such a number. -/
theorem find?_eq_none (h : ∀ found, ¬ IsMatch text found) : find? text = none := by
  cases hfound : find? text with
  | none => rfl
  | some found => exact absurd (find?_eq_some_iff.mp hfound).toIsMatch (h found)

end Surd.LastNumber
