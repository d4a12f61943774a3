import Surd.Proofs.LastNumber.Leftmost
import Surd.Proofs.Percent
import Surd.Proofs.Token.Tiling

/-!
# The last number found from the right

The last number of a text can also be found from the right, without a search. The characters after
it are the longest end of the text without digits and points. In front of them stands the longest
run of digits with at most one point, and perhaps a sign. Both ways find the same number in every
text (`LastNumber.find?_eq_findFromEnd?`), also where points and signs stand in a row. As the number
can always be read, the percent key changes every text that has one (`percent_eq_iff`).
-/

namespace Surd

namespace Text

variable {condition : Text → Prop} {text rest run other : Text}

/-- The longest end of a text of which a condition holds. -/
structure IsLongestEnd (condition : Text → Prop) (text run : Text) : Prop where
  isSuffix : run <:+ text
  holds : condition run
  le_length : ∀ other, other <:+ text → condition other → other.length ≤ run.length

/-- There is only one longest end. -/
theorem IsLongestEnd.eq (hrun : IsLongestEnd condition text run)
    (hother : IsLongestEnd condition text other) : run = other := by
  have hle := hother.le_length run hrun.isSuffix hrun.holds
  have hge := hrun.le_length other hother.isSuffix hother.holds
  exact (List.suffix_of_suffix_length_le hrun.isSuffix hother.isSuffix hle).eq_of_length
    (Nat.le_antisymm hle hge)

/-- If a condition holds of the ends of what it holds of, the longest end is the one that the
character in front of it cannot be added to. -/
theorem isLongestEnd_append_iff
    (hends : ∀ more run, condition (more ++ run) → condition run) :
    IsLongestEnd condition (rest ++ run) run ↔
      condition run ∧ ∀ c ∈ rest.getLast?, ¬ condition (c :: run) := by
  constructor
  · intro h
    refine ⟨h.holds, fun c hc hlonger => ?_⟩
    obtain ⟨front, rfl⟩ := List.getLast?_eq_some_iff.mp hc
    have hle := h.le_length (c :: run) ⟨front, by simp⟩ hlonger
    exact Nat.not_succ_le_self _ hle
  · rintro ⟨hrun, hlast⟩
    refine ⟨List.suffix_append _ _, hrun, fun other hother hholds => ?_⟩
    by_contra hlonger
    obtain ⟨more, rfl⟩ := List.suffix_of_suffix_length_le (List.suffix_append rest run) hother
      (Nat.le_of_not_le hlonger)
    obtain ⟨front, hfront⟩ := hother
    rw [← List.append_assoc] at hfront
    have hrest := List.append_cancel_right hfront
    rcases List.eq_nil_or_concat more with rfl | ⟨before, c, rfl⟩
    · exact hlonger (Nat.le_refl _)
    · rw [List.concat_eq_append] at hrest hholds
      rw [List.append_assoc] at hholds
      refine hlast c ?_ (hends before (c :: run) hholds)
      rw [← hrest, ← List.append_assoc, List.getLast?_concat]
      rfl

end Text

namespace LastNumber

open Front Text

/-! ## What stands at the end -/

/-- Characters without digits and points. -/
def IsTail (run : Text) : Prop := ∀ c ∈ run, isNumeric c = false

/-- Digits and at most one point. -/
def IsRun (run : Text) : Prop := (∀ c ∈ run, isNumeric c = true) ∧ run.count '.' ≤ 1

/-- A text is cut at its last number as it is found from the right: `after` is the longest end
without digits and points, and does not follow a point or nothing; the number before it consists of
the longest run of digits with at most one point, and of a sign if there is one in front of it. -/
structure CutFromEnd (text sign digits : Text) (found : LastNumber) : Prop where
  text_eq : text = found.before ++ (found.number ++ found.after)
  number_eq : found.number = sign ++ digits
  after : IsLongestEnd IsTail text found.after
  ends : ¬ (found.before ++ found.number = [] ∨ (found.before ++ found.number).getLast? = some '.')
  digits : IsLongestEnd IsRun (found.before ++ found.number) digits
  sign : sign = ['+'] ∨ sign = ['-'] ∨ sign = [] ∧ ∀ c ∈ found.before.getLast?, c ≠ '+' ∧ c ≠ '-'

variable {text rest run sign digits part after : Text} {found : LastNumber} {c : Char}

/-- Every end of a tail is a tail. -/
theorem isTail_append {more : Text} (h : IsTail (more ++ run)) : IsTail run :=
  fun c hc => h c (List.mem_append_right _ hc)

/-- Every end of a run is a run. -/
theorem isRun_append {more : Text} (h : IsRun (more ++ run)) : IsRun run := by
  obtain ⟨hnumeric, hcount⟩ := h
  rw [List.count_append] at hcount
  exact ⟨fun c hc => hnumeric c (List.mem_append_right _ hc), by omega⟩

/-- An unsigned number is a run. -/
theorem IsUnsigned.isRun (h : IsUnsigned digits) : IsRun digits := by
  obtain ⟨hnumeric, hcount, -⟩ := h.spec
  exact ⟨hnumeric, hcount⟩

/-- The longest tail of a text follows a digit or a point, or it is the whole text. -/
theorem isLongestEnd_isTail_iff : IsLongestEnd IsTail (rest ++ after) after ↔
    IsTail after ∧ ∀ c ∈ rest.getLast?, isNumeric c = true := by
  rw [isLongestEnd_append_iff fun _ _ => isTail_append]
  refine and_congr_right fun hafter => forall₂_congr fun c _ => ?_
  have hcons : IsTail (c :: after) ↔ isNumeric c = false :=
    List.forall_mem_cons.trans (and_iff_left hafter)
  rw [hcons, Bool.not_eq_false]

/-- The longest run at the end of a text cannot be continued to the left. -/
theorem isLongestEnd_isRun_iff : IsLongestEnd IsRun (rest ++ run) run ↔
    IsRun run ∧ ∀ c ∈ rest.getLast?, ¬ IsRun (c :: run) :=
  isLongestEnd_append_iff fun _ _ => isRun_append

/-- What follows a number that only other characters follow is the longest end of such characters.
-/
theorem IsMatch.isLongestEnd (h : IsMatch text found) : IsLongestEnd IsTail text found.after := by
  have htext := h.text_eq
  rw [← List.append_assoc] at htext
  rw [htext, isLongestEnd_isTail_iff]
  refine ⟨h.plain, fun c hc => ?_⟩
  obtain ⟨d, hlast, hd⟩ := h.number.exists_getLast?
  rw [List.getLast?_append, hlast] at hc
  cases hc
  exact isNumeric_iff.mpr (.inl hd)

/-- A text that ends in a digit does not end in a point. -/
theorem not_ends_of_isDigit (hrun : run.getLast? = some c) (hc : c.isDigit = true) :
    ¬ (rest ++ run = [] ∨ (rest ++ run).getLast? = some '.') := by
  have hlast : (rest ++ run).getLast? = some c := by
    rw [List.getLast?_append, hrun]
    rfl
  rintro (hnil | hpoint)
  · rw [hnil] at hlast
    cases hlast
  · rw [hlast, Option.some.injEq] at hpoint
    rw [hpoint] at hc
    exact absurd hc (by decide)

/-- A text in which a point or nothing stands before the characters at the end has no number. -/
theorem not_isMatch (hafter : IsLongestEnd IsTail (rest ++ after) after)
    (hrest : rest = [] ∨ rest.getLast? = some '.') : ¬ IsMatch (rest ++ after) found := by
  intro h
  have htext := h.text_eq
  rw [← h.isLongestEnd.eq hafter, ← List.append_assoc] at htext
  obtain ⟨c, hlast, hc⟩ := h.number.exists_getLast?
  rw [List.append_cancel_right htext] at hrest
  exact not_ends_of_isDigit hlast hc hrest

/-! ## The number found from the right is the leftmost one -/

/-- The longest run of digits and at most one point ends in a digit if the text does not end in a
point. -/
theorem isUnsigned_of_isLongestEnd (hrun : IsLongestEnd IsRun rest run)
    (hlast : rest.getLast? = some c) (hc : c.isDigit = true) : IsUnsigned run := by
  obtain ⟨front, rfl⟩ := hrun.isSuffix
  have hdigit : IsUnsigned [c] :=
    isUnsigned_of_digits (List.cons_ne_nil _ _) (List.forall_mem_singleton.mpr hc)
  rw [isUnsigned_iff]
  refine ⟨hrun.holds.1, hrun.holds.2, c, ?_, hc⟩
  cases hempty : run.getLast? with
  | none =>
    rw [List.getLast?_eq_none_iff.mp hempty, List.append_nil] at hlast hrun
    obtain ⟨before, rfl⟩ := List.getLast?_eq_some_iff.mp hlast
    have hle := hrun.le_length [c] (List.suffix_append _ _) hdigit.isRun
    exact absurd hle (Nat.not_succ_le_zero 0)
  | some d => rwa [List.getLast?_append, hempty] at hlast

/-- The digits that a text is cut at from the right are an unsigned number. -/
theorem CutFromEnd.isUnsigned (h : CutFromEnd text sign digits found) : IsUnsigned digits := by
  have htext := h.text_eq
  have hafter := h.after
  rw [← List.append_assoc] at htext
  rw [htext, isLongestEnd_isTail_iff] at hafter
  have hsome : (found.before ++ found.number).getLast? ≠ none :=
    fun hnone => h.ends (.inl (List.getLast?_eq_none_iff.mp hnone))
  obtain ⟨c, hlast⟩ := Option.ne_none_iff_exists'.mp hsome
  have hpoint : c ≠ '.' := fun hpoint => h.ends (.inr (hpoint ▸ hlast))
  exact isUnsigned_of_isLongestEnd h.digits hlast
    ((isNumeric_iff.mp (hafter.2 c hlast)).resolve_right hpoint)

/-- The number found from the right is one that only characters without digits and points follow. -/
theorem CutFromEnd.isMatch (h : CutFromEnd text sign digits found) : IsMatch text found := by
  refine ⟨h.text_eq, ⟨sign, digits, h.number_eq, ?_, h.isUnsigned⟩, h.after.holds⟩
  rcases h.sign with hplus | hminus | ⟨hnone, -⟩
  · exact .inr (.inl hplus)
  · exact .inr (.inr hminus)
  · exact .inl hnone

/-- The number found from the right is the leftmost one. -/
theorem CutFromEnd.isLeftmost (h : CutFromEnd text sign digits found) : IsLeftmost text found := by
  refine ⟨h.isMatch, fun other hother => ?_⟩
  have hrest : found.before ++ found.number = other.before ++ other.number := by
    have hequal := h.text_eq.symm.trans hother.text_eq
    rw [hother.isLongestEnd.eq h.after, ← List.append_assoc, ← List.append_assoc] at hequal
    exact List.append_cancel_right hequal
  obtain ⟨first, run, hnumber, hfirst, hrun⟩ := hother.number
  rw [hnumber, ← List.append_assoc] at hrest
  have hle : run.length ≤ digits.length :=
    h.digits.le_length run ⟨other.before ++ first, hrest.symm⟩ hrun.isRun
  rw [h.number_eq, ← List.append_assoc] at hrest
  have hlength := congrArg List.length hrest
  simp only [List.length_append] at hlength
  have hone : first.length ≤ 1 := by
    rcases hfirst with rfl | rfl | rfl <;> decide
  -- the other number can begin earlier only by a sign in front of the same digits
  rcases h.sign with rfl | rfl | ⟨rfl, hlast⟩
  · rw [List.length_singleton] at hlength
    omega
  · rw [List.length_singleton] at hlength
    omega
  · by_contra hearlier
    rw [List.length_nil] at hlength
    rw [List.append_nil] at hrest
    obtain ⟨hbefore, -⟩ := List.append_inj' hrest (by omega)
    rw [hbefore] at hlast
    rcases hfirst with rfl | rfl | rfl
    · rw [List.length_nil] at hlength
      omega
    · exact (hlast '+' List.getLast?_concat).1 rfl
    · exact (hlast '-' List.getLast?_concat).2 rfl

/-! ## The search from the right -/

/-- A text is split before its longest end in which all characters pass a test. -/
theorem of_splitEnd {test : Char → Bool} (h : splitEnd test text = (rest, run)) :
    text = rest ++ run ∧ (∀ c ∈ run, test c = true) ∧ ∀ c ∈ rest.getLast?, test c = false := by
  cases h
  refine ⟨?_, fun c hc => ?_, fun c hc => ?_⟩
  · rw [← List.reverse_append, List.takeWhile_append_dropWhile, List.reverse_reverse]
  · exact List.mem_takeWhile_imp (List.mem_reverse.mp hc)
  · have hhead := @List.head?_dropWhile_not _ test text.reverse
    rw [List.getLast?_reverse] at hc
    rw [Option.mem_def.mp hc] at hhead
    exact hhead

/-- Splitting a text at the last digit or point splits off its longest tail. -/
theorem isLongestEnd_of_splitEnd
    (h : splitEnd (fun c => !(c.isDigit || c = '.')) text = (rest, after)) :
    text = rest ++ after ∧ IsLongestEnd IsTail text after := by
  obtain ⟨rfl, hafter, hrest⟩ := of_splitEnd h
  refine ⟨rfl, isLongestEnd_isTail_iff.mpr ⟨fun c hc => ?_, fun c hc => ?_⟩⟩
  · rw [isNumeric]
    simpa only [Bool.not_eq_true'] using hafter c hc
  · rw [isNumeric]
    simpa only [Bool.not_eq_false'] using hrest c hc

/-- A run is the longest one if neither a digit nor a point can be added to it. -/
theorem isLongestEnd_isRun (hrun : IsRun run) (hdigit : ∀ c ∈ rest.getLast?, c.isDigit = false)
    (hpoint : rest.getLast? = some '.' → '.' ∈ run) : IsLongestEnd IsRun (rest ++ run) run := by
  rw [isLongestEnd_isRun_iff]
  refine ⟨hrun, fun c hc hlonger => ?_⟩
  rcases isNumeric_iff.mp (hlonger.1 c List.mem_cons_self) with hnumeric | rfl
  · rw [hdigit c hc] at hnumeric
    cases hnumeric
  · have hcount := hlonger.2
    have hpositive := List.count_pos_iff.mpr (hpoint hc)
    rw [List.count_cons_self] at hcount
    omega

/-- A sign in front of the longest run is taken with it. -/
theorem exists_cutFromEnd {before : Text}
    (hafter : IsLongestEnd IsTail (before ++ digits ++ after) after)
    (hdigits : IsLongestEnd IsRun (before ++ digits) digits) (hunsigned : IsUnsigned digits) :
    ∃ sign found,
      (match before.getLast? with
        | some c =>
          if c = '+' ∨ c = '-' then some ⟨before.dropLast, c :: digits, after⟩
          else some ⟨before, digits, after⟩
        | none => some ⟨before, digits, after⟩) = some found ∧
      CutFromEnd (before ++ digits ++ after) sign digits found := by
  obtain ⟨-, -, d, hd, hdigit⟩ := hunsigned.spec
  have hends : ¬ (before ++ digits = [] ∨ (before ++ digits).getLast? = some '.') :=
    not_ends_of_isDigit hd hdigit
  have hnone (hlast : ∀ c ∈ before.getLast?, c ≠ '+' ∧ c ≠ '-') :
      CutFromEnd (before ++ digits ++ after) [] digits ⟨before, digits, after⟩ :=
    ⟨List.append_assoc _ _ _, rfl, hafter, hends, hdigits, .inr (.inr ⟨rfl, hlast⟩)⟩
  cases hlast : before.getLast? with
  | none => exact ⟨[], _, rfl, hnone fun c hc => by rw [hlast] at hc; cases hc⟩
  | some c =>
    by_cases hc : c = '+' ∨ c = '-'
    · refine ⟨[c], _, if_pos hc, ?_⟩
      obtain ⟨front, rfl⟩ := List.getLast?_eq_some_iff.mp hlast
      have hrest : (front ++ [c]) ++ digits = front ++ (c :: digits) := List.append_assoc _ _ _
      rw [hrest] at hafter hends hdigits ⊢
      rw [List.dropLast_concat]
      refine ⟨List.append_assoc _ _ _, rfl, hafter, hends, hdigits, ?_⟩
      rcases hc with rfl | rfl
      · exact .inl rfl
      · exact .inr (.inl rfl)
    · refine ⟨[], _, if_neg hc, hnone fun d hd => ?_⟩
      rw [hlast] at hd
      cases hd
      exact not_or.mp hc

/-- Before the characters at the end stands a point or nothing, if no digit does. -/
theorem eq_nil_or_point (hlast : ∀ c ∈ rest.getLast?, isNumeric c = true)
    (hdigit : ∀ c ∈ rest.getLast?, c.isDigit = false) : rest = [] ∨ rest.getLast? = some '.' := by
  cases hc : rest.getLast? with
  | none => exact .inl (List.getLast?_eq_none_iff.mp hc)
  | some c =>
    rcases isNumeric_iff.mp (hlast c hc) with hnumeric | rfl
    · rw [hdigit c hc] at hnumeric
      cases hnumeric
    · exact .inr rfl

/-- The search from the right finds the number at which it cuts the text. It fails if a point or
nothing stands before the characters at the end. -/
theorem findFromEnd?_cases (text : Text) :
    (findFromEnd? text = none ∧ ∃ rest after, text = rest ++ after ∧
      IsLongestEnd IsTail text after ∧ (rest = [] ∨ rest.getLast? = some '.')) ∨
    ∃ sign digits found, findFromEnd? text = some found ∧ CutFromEnd text sign digits found := by
  unfold findFromEnd?
  rcases hsplit : splitEnd (fun c => !(c.isDigit || c = '.')) text with ⟨rest, after⟩
  obtain ⟨rfl, hafter⟩ := isLongestEnd_of_splitEnd hsplit
  rcases hpart : splitEnd Char.isDigit rest with ⟨front, part⟩
  obtain ⟨rfl, hdigits, hfront⟩ := of_splitEnd hpart
  have hlast := (isLongestEnd_isTail_iff.mp hafter).2
  simp only [hpart]
  by_cases hempty : part = []
  · refine .inl ⟨if_pos hempty, front ++ part, after, rfl, hafter, ?_⟩
    rw [hempty, List.append_nil] at hlast ⊢
    exact eq_nil_or_point hlast hfront
  · refine .inr ?_
    rw [if_neg hempty]
    by_cases hpoint : front.getLast? = some '.'
    · rw [if_pos hpoint]
      obtain ⟨start, rfl⟩ := List.getLast?_eq_some_iff.mp hpoint
      rw [List.dropLast_concat]
      rcases hwhole : splitEnd Char.isDigit start with ⟨before, whole⟩
      obtain ⟨rfl, hwholeDigits, hbefore⟩ := of_splitEnd hwhole
      have hrest : before ++ whole ++ ['.'] ++ part = before ++ (whole ++ '.' :: part) := by
        simp only [List.append_assoc, List.singleton_append]
      have hrun : IsUnsigned (whole ++ '.' :: part) :=
        ⟨whole, ['.'], part, rfl, hwholeDigits, .inr rfl, hempty, hdigits⟩
      have hmem : '.' ∈ whole ++ '.' :: part := List.mem_append_right _ List.mem_cons_self
      rw [hrest] at hafter ⊢
      obtain ⟨sign, found, hfound, hcut⟩ := exists_cutFromEnd hafter
        (isLongestEnd_isRun hrun.isRun hbefore fun _ => hmem) hrun
      exact ⟨sign, _, found, hfound, hcut⟩
    · rw [if_neg hpoint]
      have hrun : IsUnsigned part := isUnsigned_of_digits hempty hdigits
      obtain ⟨sign, found, hfound, hcut⟩ := exists_cutFromEnd hafter
        (isLongestEnd_isRun hrun.isRun hfront fun hdot => absurd hdot hpoint) hrun
      exact ⟨sign, part, found, hfound, hcut⟩

/-- Both searches find the same number in every text. -/
theorem find?_eq_findFromEnd? (text : Text) : find? text = findFromEnd? text := by
  rcases findFromEnd?_cases text with ⟨hnone, rest, after, rfl, hafter, hrest⟩ |
      ⟨sign, digits, found, hsome, hcut⟩
  · rw [hnone]
    exact find?_eq_none fun found => not_isMatch hafter hrest
  · rw [hsome]
    exact find?_eq_some_iff.mpr hcut.isLeftmost

/-! ## The number is read -/

/-- A number of such a form can always be read. -/
theorem IsNumber.exists_read? {number : Text} (h : IsNumber number) :
    ∃ value, Number.read? number = some value := by
  obtain ⟨sign, digits, rfl, hsign, hdigits⟩ := h
  obtain ⟨hnumeric, hcount, c, hlast, hc⟩ := hdigits.spec
  have hmem := List.mem_of_getLast? hlast
  have hsome : Decimal.ofText? digits ≠ none := by
    intro hnone
    rcases Decimal.bad_of_ofText? hnumeric hnone with hbad | hbad
    · rw [hbad c hmem] at hc
      cases hc
    · omega
  obtain ⟨decimal, hdecimal⟩ := Option.ne_none_iff_exists'.mp hsome
  rcases hsign with rfl | rfl | rfl
  · cases digits with
    | nil => cases hmem
    | cons d digits =>
      rw [List.nil_append, Number.read?_of_isNumeric (hnumeric d List.mem_cons_self), hdecimal]
      exact ⟨_, rfl⟩
  · exact ⟨_, Option.map_eq_some_iff.mpr ⟨decimal, hdecimal, rfl⟩⟩
  · exact ⟨_, Option.map_eq_some_iff.mpr ⟨decimal, hdecimal, rfl⟩⟩

/-- The percent key leaves a text as it is in which a point or nothing stands before the characters
at the end. -/
theorem percent_of_ends (hne : text ≠ []) (hzero : text ≠ ['0']) (htext : text = rest ++ after)
    (hafter : IsLongestEnd IsTail text after) (hrest : rest = [] ∨ rest.getLast? = some '.') :
    percent text = text := by
  have hnone : find? text = none := by
    subst htext
    exact find?_eq_none fun found => not_isMatch hafter hrest
  rw [percent, if_neg (not_or.mpr ⟨hne, hzero⟩), hnone]

/-- The percent key writes a hundredth for the number found from the right. -/
theorem CutFromEnd.percent_eq {value : Float} (h : CutFromEnd text sign digits found)
    (hread : Number.read? found.number = some value) : percent text = found.scaled value :=
  percent_eq_scaled (find?_eq_some_iff.mpr h.isLeftmost) hread

end LastNumber

open LastNumber Text

/-- What becomes of a text if a hundredth is written for its last number as it is found from the
right. The text stays as it is if a point or nothing stands before the characters at its end. -/
inductive RewritesFromEnd (text : Text) : Text → Prop
  | unchanged {rest after : Text} (htext : text = rest ++ after)
    (hafter : IsLongestEnd IsTail text after) (hrest : rest = [] ∨ rest.getLast? = some '.') :
    RewritesFromEnd text text
  | hundredth {sign digits : Text} {found : LastNumber} {value : Float}
    (hcut : CutFromEnd text sign digits found) (hread : Number.read? found.number = some value) :
    RewritesFromEnd text (found.before ++ (if found.number.head? = some '+' then ['+'] else [])
      ++ Number.result (value / 100) ++ found.after)

/-- The percent key writes a hundredth for the last number of a text. That is the number found from
the right, and the leftmost one that only characters without digits and points follow. -/
theorem percent_eq_iff (text : Text) :
    (text = [] ∨ text = ['0'] → percent text = ['0']) ∧
    (text ≠ [] → text ≠ ['0'] → ∀ result, percent text = result ↔ RewritesFromEnd text result) ∧
    find? text = findFromEnd? text ∧
    ∀ found, find? text = some found ↔ IsLeftmost text found := by
  refine ⟨fun hrest => if_pos hrest, fun hne hzero result => ?_, find?_eq_findFromEnd? text,
    fun found => find?_eq_some_iff⟩
  constructor
  · rintro rfl
    rcases findFromEnd?_cases text with ⟨-, rest, after, htext, hafter, hrest⟩ |
        ⟨sign, digits, found, -, hcut⟩
    · rw [percent_of_ends hne hzero htext hafter hrest]
      exact .unchanged htext hafter hrest
    · obtain ⟨value, hread⟩ := hcut.isMatch.number.exists_read?
      rw [hcut.percent_eq hread]
      exact .hundredth hcut hread
  · rintro (⟨htext, hafter, hrest⟩ | ⟨hcut, hread⟩)
    · exact percent_of_ends hne hzero htext hafter hrest
    · exact hcut.percent_eq hread

/-- Of a run with several points, a hundredth of the last two figures is taken; the sign in front of
the run stays where it is. -/
theorem percent_points :
    "+1.2.3)".toList ≠ [] ∧ "+1.2.3)".toList ≠ ['0'] ∧
      RewritesFromEnd "+1.2.3)".toList "+1.0.023)".toList := by
  have hne : "+1.2.3)".toList ≠ [] := by decide
  have hzero : "+1.2.3)".toList ≠ ['0'] := by decide
  have hkey : percent "+1.2.3)".toList = "+1.0.023)".toList := by decide +kernel
  exact ⟨hne, hzero, ((percent_eq_iff "+1.2.3)".toList).2.1 hne hzero _).mp hkey⟩

end Surd
