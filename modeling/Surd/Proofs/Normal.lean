import Mathlib.Data.List.Basic
import Surd.Normal
import Surd.Proofs.Token.Closing

/-!
# Normal forms of parts

Roots are marked in the parts of a text on their own, wherever the letters of `sqrt(` cannot reach
from one part into the next (`markRoots_append`). So a text with a parenthesis in it can be brought
into normal form on the two sides of that parenthesis (`normalize_append_rightParen`). What is in
normal form has all its parts in normal form (`normalize_of_infix`).
-/

namespace Surd

/-- The characters after the first one of `sqrt(`. -/
def rootLetters : Text := ['q', 'r', 't', '(']

/-- A character at which no root is spelled stays as it is. -/
theorem markRoots_cons {c : Char} {text : Text} (h : c = 's' → ¬ rootLetters <+: text) :
    markRoots (c :: text) = c :: markRoots text := by
  rw [markRoots]
  rintro rest rfl rfl
  exact h rfl ⟨rest, rfl⟩

/-- Marking roots leaves a text as it is if no `s` is in it. -/
theorem markRoots_of_not_mem {text : Text} (hs : 's' ∉ text) : markRoots text = text := by
  induction text with
  | nil => rfl
  | cons c text ih =>
    rw [List.mem_cons, not_or] at hs
    rw [markRoots_cons fun h => absurd h.symm hs.1, ih hs.2]

/-- A spelled out root is marked, and what follows it is treated alike. -/
theorem markRoots_root (text : Text) :
    markRoots ('s' :: (rootLetters ++ text)) = '√' :: '(' :: markRoots text := rfl

/-- Letters of a root that are not all in the left part reach from it into the right one. -/
theorem ends_of_rootLetters {left right : Text} (hstart : rootLetters <+: left ++ right)
    (hleft : ¬ rootLetters <+: left) :
    (∀ c ∈ left.getLast?, c ∈ ['q', 'r', 't']) ∧ ∃ d ∈ right.head?, d ∈ rootLetters := by
  rcases List.prefix_or_prefix_of_prefix hstart (List.prefix_append left right) with
    hshort | ⟨rest, hrest⟩
  · exact absurd hshort hleft
  · rw [← hrest, List.prefix_append_right_inj] at hstart
    obtain ⟨tail, rfl⟩ := hstart
    rw [rootLetters] at hrest
    rcases left with _ | ⟨c, _ | ⟨d, _ | ⟨e, _ | ⟨f, left⟩⟩⟩⟩ <;> simp_all [rootLetters]

/-- Roots are marked part by part where no letter of a root stands before the cut, or none that
can go on behind it. -/
theorem markRoots_append {left right : Text}
    (hcut : (∀ c ∈ left.getLast?, c ∉ ['s', 'q', 'r', 't']) ∨ ∀ d ∈ right.head?, d ∉ rootLetters) :
    markRoots (left ++ right) = markRoots left ++ markRoots right := by
  fun_induction markRoots left with
  | case1 rest ih =>
    have hrest : markRoots (rest ++ right) = markRoots rest ++ markRoots right := by
      refine ih (hcut.imp_left fun hlast c hc => hlast c ?_)
      exact @List.mem_getLast?_append_of_mem_getLast? _ ('s' :: rootLetters) rest c hc
    change '√' :: '(' :: markRoots (rest ++ right) = _
    rw [hrest]
    rfl
  | case2 c text hno ih =>
    have hkeep : c = 's' → ¬ rootLetters <+: text ++ right := by
      rintro rfl hstart
      have hleft : ¬ rootLetters <+: text := fun ⟨rest, hrest⟩ => hno rest rfl hrest.symm
      obtain ⟨hlast, d, hd, hmem⟩ := ends_of_rootLetters hstart hleft
      rcases hcut with hcut | hcut
      · cases htext : text.getLast? with
        | none =>
          rw [List.getLast?_eq_none_iff.mp htext] at hcut
          exact absurd (hcut 's' rfl) (by decide)
        | some e =>
          have he := @List.mem_getLast?_append_of_mem_getLast? _ ['s'] text e htext
          exact hcut e he (List.mem_cons_of_mem _ (hlast e htext))
      · exact hcut d hd hmem
    have htext : markRoots (text ++ right) = markRoots text ++ markRoots right := by
      refine ih (hcut.imp_left fun hlast d hd => hlast d ?_)
      exact @List.mem_getLast?_append_of_mem_getLast? _ [c] text d hd
    rw [List.cons_append, List.cons_append, markRoots_cons hkeep, htext]
  | case3 => rfl

/-- Marking roots does not change the last character. -/
theorem getLast?_markRoots (text : Text) : (markRoots text).getLast? = text.getLast? := by
  fun_induction markRoots text with
  | case1 rest ih => simp [List.getLast?_cons, ih]
  | case2 c text hno ih => simp [List.getLast?_cons, ih]
  | case3 => rfl

/-- Marking roots brings in no characters but those of root openings. -/
theorem mem_of_mem_markRoots {c : Char} {text : Text} (h : c ∈ markRoots text) :
    c ∈ text ∨ c = '√' := by
  fun_induction markRoots text with
  | case1 rest ih =>
    simp only [List.mem_cons] at h ⊢
    grind
  | case2 d text hno ih =>
    simp only [List.mem_cons] at h ⊢
    grind
  | case3 => cases h

/-- Marking roots puts root signs in front of parentheses only. -/
theorem head?_behind_root_sign {text before after : Text} (hsign : '√' ∉ text)
    (hmarked : markRoots text = before ++ '√' :: after) : after.head? = some '(' := by
  fun_induction markRoots text generalizing before with
  | case1 rest ih =>
    have hrest : '√' ∉ rest := fun hmem => hsign (by simp [hmem])
    rcases before with _ | ⟨c, _ | ⟨d, before⟩⟩
    · cases hmarked
      rfl
    · cases hmarked
    · exact ih hrest (List.cons.inj (List.cons.inj hmarked).2).2
  | case2 c text hno ih =>
    rw [List.mem_cons, not_or] at hsign
    cases before with
    | nil => exact absurd (List.cons.inj hmarked).1.symm hsign.1
    | cons d before => exact ih hsign.2 (List.cons.inj hmarked).2
  | case3 => simp at hmarked

/-- Marking roots puts nothing but a root sign in the place of the first character. -/
theorem head?_of_head?_markRoots {c : Char} {text : Text} (hc : c ≠ '√')
    (h : (markRoots text).head? = some c) : text.head? = some c := by
  fun_cases markRoots text with
  | case1 rest =>
    cases h
    exact absurd rfl hc
  | case2 d text hno =>
    rw [markRoots] at h
    · exact h
    · exact hno
  | case3 => cases h

/-- Letters at the front of a marked text stand at the front of the text itself. -/
theorem prefix_of_prefix_markRoots {letters text : Text} (hplain : '√' ∉ letters)
    (hstart : letters <+: markRoots text) : letters <+: text := by
  induction letters generalizing text with
  | nil => exact List.nil_prefix
  | cons c letters ih =>
    rw [List.mem_cons, not_or] at hplain
    fun_cases markRoots text with
    | case1 rest =>
      obtain ⟨rfl, -⟩ := List.cons_prefix_cons.mp hstart
      exact absurd rfl hplain.1
    | case2 d text hno =>
      rw [markRoots_cons fun hs ⟨rest, hrest⟩ => hno rest hs hrest.symm] at hstart
      obtain ⟨rfl, hrest⟩ := List.cons_prefix_cons.mp hstart
      exact List.cons_prefix_cons.mpr ⟨rfl, ih hplain.2 hrest⟩
    | case3 => exact hstart

/-- No root is spelled in letters any more once roots are marked. -/
theorem not_infix_markRoots (text : Text) : ¬ 's' :: rootLetters <:+: markRoots text := by
  fun_induction markRoots text with
  | case1 rest ih =>
    intro hinfix
    rcases List.infix_cons_iff.mp hinfix with hstart | hinfix
    · exact absurd (List.cons_prefix_cons.mp hstart).1 (by decide)
    rcases List.infix_cons_iff.mp hinfix with hstart | hinfix
    · exact absurd (List.cons_prefix_cons.mp hstart).1 (by decide)
    · exact ih hinfix
  | case2 c text hno ih =>
    intro hinfix
    rcases List.infix_cons_iff.mp hinfix with hstart | hinfix
    · obtain ⟨rfl, hletters⟩ := List.cons_prefix_cons.mp hstart
      obtain ⟨rest, rfl⟩ := prefix_of_prefix_markRoots (by decide) hletters
      exact hno rest rfl rfl
    · exact ih hinfix
  | case3 => exact fun hinfix => by cases List.infix_nil.mp hinfix

/-- Marking roots leaves a text as it is if none is spelled in letters. -/
theorem markRoots_of_not_infix {text : Text} (hnone : ¬ 's' :: rootLetters <:+: text) :
    markRoots text = text := by
  induction text with
  | nil => rfl
  | cons c text ih =>
    rw [List.infix_cons_iff, not_or] at hnone
    rw [markRoots_cons, ih hnone.2]
    rintro rfl hletters
    exact hnone.1 (List.cons_prefix_cons.mpr ⟨rfl, hletters⟩)

/-- Two texts are squeezed one by one. -/
theorem squeeze_append (left right : Text) :
    Text.squeeze (left ++ right) = Text.squeeze left ++ Text.squeeze right := List.filter_append ..

/-- A blank character at the front is left out. -/
theorem squeeze_cons_of_blank {c : Char} (hblank : isBlank c = true) (text : Text) :
    Text.squeeze (c :: text) = Text.squeeze text :=
  List.filter_cons_of_neg (by simp [hblank])

/-- A character at the front that is not blank is kept. -/
theorem squeeze_cons_of_not_blank {c : Char} (hblank : isBlank c = false) (text : Text) :
    Text.squeeze (c :: text) = c :: Text.squeeze text :=
  List.filter_cons_of_pos (by rw [hblank]; rfl)

/-- A text without blanks is squeezed already. -/
theorem squeeze_of_not_blank {text : Text} (hblank : ∀ c ∈ text, isBlank c = false) :
    Text.squeeze text = text :=
  List.filter_eq_self.mpr fun c hc => by rw [hblank c hc]; rfl

/-- Leaving out the blank characters at the front first makes no difference. -/
theorem squeeze_trimStart (text : Text) :
    Text.squeeze (Text.trimStart text) = Text.squeeze text := by
  induction text with
  | nil => rfl
  | cons c text ih =>
    cases hblank : isBlank c with
    | true =>
      rw [squeeze_cons_of_blank hblank, ← ih, Text.trimStart, List.dropWhile_cons_of_pos hblank]
      rfl
    | false => rw [Text.trimStart, List.dropWhile_cons_of_neg (by simp [hblank])]

/-- The blank characters at the ends of a text are among those that squeezing removes. -/
theorem squeeze_trim (text : Text) : Text.squeeze (Text.trim text) = Text.squeeze text := by
  have hreverse (text : Text) : Text.squeeze text.reverse = (Text.squeeze text).reverse :=
    List.filter_reverse
  rw [Text.trim, hreverse, squeeze_trimStart, hreverse, squeeze_trimStart, List.reverse_reverse]

/-- A text without blanks has its roots marked in its normal form, and nothing else changes. -/
theorem normalize_of_not_blank {text : Text} (hblank : ∀ c ∈ text, isBlank c = false) :
    normalize text = markRoots text := by
  rw [normalize, squeeze_of_not_blank hblank]

/-- A text without blanks and without an `s` is in normal form. -/
theorem normalize_of_plain {text : Text} (hblank : ∀ c ∈ text, isBlank c = false)
    (hs : 's' ∉ text) : normalize text = text := by
  rw [normalize_of_not_blank hblank, markRoots_of_not_mem hs]

/-- Nothing in a normal form is blank. -/
theorem isBlank_of_mem_normalize {c : Char} {text : Text} (hc : c ∈ normalize text) :
    isBlank c = false := by
  rcases mem_of_mem_markRoots hc with hc | rfl
  · simpa using (List.mem_filter.mp hc).2
  · decide

/-- Every part of a normal form is in normal form. -/
theorem normalize_of_infix {text part : Text} (hpart : part <:+: normalize text) :
    normalize part = part := by
  rw [normalize_of_not_blank fun c hc => isBlank_of_mem_normalize (hpart.subset hc)]
  exact markRoots_of_not_infix fun hletters => not_infix_markRoots _ (hletters.trans hpart)

/-- Digits and points are not blank. -/
theorem isBlank_of_isNumeric {c : Char} (hc : Front.isNumeric c = true) : isBlank c = false := by
  simp only [Front.isNumeric, Bool.or_eq_true, decide_eq_true_eq] at hc
  rcases hc with hc | rfl
  · simp only [Char.isDigit, Bool.and_eq_true, decide_eq_true_eq] at hc
    have hlow : 48 ≤ c.toNat := hc.1
    have hhigh : c.toNat ≤ 57 := hc.2
    simp only [isBlank, blankRanges, List.any_cons, List.any_nil, Bool.or_false,
      Bool.or_eq_false_iff, Bool.and_eq_false_iff, decide_eq_false_iff_not]
    omega
  · decide

/-- Whether all characters are those of numbers, signs and percent signs. -/
def IsFigures (text : Text) : Prop := ∀ c ∈ text, Front.isNumeric c = true ∨ c ∈ ['+', '-', '%']

/-- A sign or a percent sign in front of figures belongs to them. -/
theorem IsFigures.cons {c : Char} {text : Text} (h : IsFigures text) (hc : c ∈ ['+', '-', '%']) :
    IsFigures (c :: text) := by
  intro d hd
  rcases List.mem_cons.mp hd with rfl | hd
  · exact .inr hc
  · exact h d hd

/-- A text without blanks is brought into normal form on the two sides of figures in it. -/
theorem normalize_splice {left middle right : Text} (hleft : ∀ c ∈ left, isBlank c = false)
    (hright : ∀ c ∈ right, isBlank c = false) (hne : middle ≠ [])
    (hmiddle : IsFigures middle) :
    normalize (left ++ (middle ++ right)) = markRoots left ++ (middle ++ markRoots right) := by
  have hletter : ∀ c ∈ middle, c ∉ 's' :: rootLetters := by
    intro c hc
    rcases hmiddle c hc with hc | hc
    · have hplain : ('s' :: rootLetters).any Front.isNumeric = false := by decide
      exact fun hmem => List.any_eq_false.mp hplain c hmem hc
    · simp only [List.mem_cons, List.not_mem_nil, or_false] at hc
      rcases hc with rfl | rfl | rfl <;> decide
  have hblank : ∀ c ∈ middle, isBlank c = false := by
    intro c hc
    rcases hmiddle c hc with hc | hc
    · exact isBlank_of_isNumeric hc
    · simp only [List.mem_cons, List.not_mem_nil, or_false] at hc
      rcases hc with rfl | rfl | rfl <;> decide
  have hsqueeze : Text.squeeze (left ++ (middle ++ right)) = left ++ (middle ++ right) := by
    refine squeeze_of_not_blank fun c hc => ?_
    rw [List.mem_append, List.mem_append] at hc
    rcases hc with hc | hc | hc
    · exact hleft c hc
    · exact hblank c hc
    · exact hright c hc
  have hplain : markRoots middle = middle :=
    markRoots_of_not_mem fun hs => hletter 's' hs List.mem_cons_self
  have hhead : ∀ d ∈ (middle ++ right).head?, d ∉ rootLetters := by
    obtain ⟨c, middle, rfl⟩ := List.exists_cons_of_ne_nil hne
    intro d hd hmem
    cases hd
    exact hletter c List.mem_cons_self (List.mem_cons_of_mem _ hmem)
  have hlast : ∀ c ∈ middle.getLast?, c ∉ ['s', 'q', 'r', 't'] := by
    intro c hc hmem
    refine hletter c (List.mem_of_getLast? hc) ?_
    exact List.mem_append_left ['('] hmem
  rw [normalize, hsqueeze, markRoots_append (.inr hhead), markRoots_append (.inl hlast), hplain]

/-- A text is brought into normal form part by part where the letters of a root do not reach from
one part into the next. -/
theorem normalize_append {left right : Text}
    (hcut : (∀ c ∈ (Text.squeeze left).getLast?, c ∉ ['s', 'q', 'r', 't']) ∨
      ∀ d ∈ (Text.squeeze right).head?, d ∉ rootLetters) :
    normalize (left ++ right) = normalize left ++ normalize right := by
  rw [normalize, squeeze_append, markRoots_append hcut]
  rfl

/-- A text is brought into normal form on the two sides of a character that is neither blank nor
part of the spelling of a root. -/
theorem normalize_append_cons {c : Char} (hblank : isBlank c = false)
    (hletter : c ∉ 's' :: rootLetters) (left right : Text) :
    normalize (left ++ c :: right) = normalize left ++ c :: normalize right := by
  rw [List.mem_cons, not_or] at hletter
  have hsqueeze := squeeze_cons_of_not_blank hblank right
  have hcons : normalize (c :: right) = c :: normalize right := by
    rw [normalize, hsqueeze, markRoots_cons fun hs => absurd hs hletter.1]
    rfl
  rw [normalize_append (.inr fun d hd => ?_), hcons]
  rw [hsqueeze] at hd
  cases hd
  exact hletter.2

/-- A text is brought into normal form on the two sides of a closing parenthesis. -/
theorem normalize_append_rightParen (left right : Text) :
    normalize (left ++ ')' :: right) = normalize left ++ ')' :: normalize right :=
  normalize_append_cons (by decide) (by decide) left right

/-- A text is brought into normal form on the two sides of an operator. -/
theorem normalize_append_symbol (op : Operator) (left right : Text) :
    normalize (left ++ op.symbol :: right) = normalize left ++ op.symbol :: normalize right :=
  normalize_append_cons (by cases op <;> decide) (by cases op <;> decide) left right

/-- A text is brought into normal form on the two sides of the place behind an opening parenthesis,
which may belong to a root. -/
theorem normalize_append_leftParen (left right : Text) :
    normalize (left ++ '(' :: right) = normalize (left ++ ['(']) ++ normalize right := by
  rw [List.append_cons, normalize_append (.inl fun c hc => ?_)]
  have hsqueeze : Text.squeeze (left ++ ['(']) = Text.squeeze left ++ ['('] := squeeze_append ..
  rw [hsqueeze, List.getLast?_concat] at hc
  cases hc
  decide

/-- What ends in an opening parenthesis has a normal form that ends in one. -/
theorem exists_normalize_leftParen (left : Text) :
    ∃ front, normalize (left ++ ['(']) = front ++ ['('] := by
  have hlast : (normalize (left ++ ['('])).getLast? = some '(' := by
    have hsqueeze : Text.squeeze (left ++ ['(']) = Text.squeeze left ++ ['('] := squeeze_append ..
    rw [normalize, getLast?_markRoots, hsqueeze, List.getLast?_concat]
  exact List.getLast?_eq_some_iff.mp hlast

/-! ## Parentheses -/

namespace Text

/-- Marking roots changes no parenthesis. -/
theorem depthAfter?_markRoots (depth : Nat) (text : Text) :
    depthAfter? depth (markRoots text) = depthAfter? depth text := by
  fun_induction markRoots text generalizing depth with
  | case1 rest ih =>
    have hletters : depthAfter? depth ['s', 'q', 'r', 't'] = some depth :=
      depthAfter?_of_balanced (balanced_iff.mpr rfl) depth
    rw [depthAfter?_plain (by decide) (by decide), depthAfter?_cons_congr '(' (fun d => ih d)]
    change _ = depthAfter? depth (['s', 'q', 'r', 't'] ++ '(' :: rest)
    rw [depthAfter?_append, hletters, Option.bind_some]
  | case2 c text hno ih => exact depthAfter?_cons_congr c (fun d => ih d) depth
  | case3 => rfl

/-- No parenthesis is blank. -/
theorem depthAfter?_squeeze (depth : Nat) (text : Text) :
    depthAfter? depth (squeeze text) = depthAfter? depth text := by
  induction text generalizing depth with
  | nil => rfl
  | cons c text ih =>
    cases hblank : isBlank c with
    | false =>
      rw [squeeze_cons_of_not_blank hblank]
      exact depthAfter?_cons_congr c ih depth
    | true =>
      have hother {d : Char} (hd : isBlank d = false) : c ≠ d := by
        rintro rfl
        rw [hblank] at hd
        cases hd
      rw [squeeze_cons_of_blank hblank, ih,
        depthAfter?_plain (hother (by decide)) (hother (by decide))]

/-- The parentheses of a normal form match exactly if those of the text do. -/
theorem balanced_normalize {text : Text} : Balanced (normalize text) ↔ Balanced text := by
  rw [balanced_iff, balanced_iff, normalize, depthAfter?_markRoots, depthAfter?_squeeze]

end Text

end Surd
