import Mathlib.Logic.Relation
import Surd.Evaluation
import Surd.Proofs.Normal

/-!
# Spellings of one text

A blank character may be written anywhere, and each root with a root sign or in letters
(`Text.Respells`). Neither changes the normal form, nor what is left when blanks are removed and all
roots are spelled in letters; and both of these forms are spellings of the text. So either of them
tells whether two texts are spellings of each other (`Text.sameSpelling_iff_normalize`,
`Text.sameSpelling_iff_spellRoots`).
-/

namespace Surd

/-! ## Roots in letters -/

/-- A character at which no root is opened stays as it is. -/
theorem spellRoots_cons {c : Char} {text : Text} (h : c = '√' → text.head? ≠ some '(') :
    spellRoots (c :: text) = c :: spellRoots text := by
  rw [spellRoots]
  rintro rest rfl rfl
  exact h rfl rfl

/-- Roots are spelled part by part, unless a cut separates a root sign from its parenthesis. -/
theorem spellRoots_append {left right : Text}
    (hcut : (∀ c ∈ left.getLast?, c ≠ '√') ∨ ∀ d ∈ right.head?, d ≠ '(') :
    spellRoots (left ++ right) = spellRoots left ++ spellRoots right := by
  fun_induction spellRoots left with
  | case1 rest ih =>
    have hrest : spellRoots (rest ++ right) = spellRoots rest ++ spellRoots right :=
      ih (hcut.imp_left fun hlast c hc =>
        hlast c (@List.mem_getLast?_append_of_mem_getLast? _ Token.rootOpening rest c hc))
    change 's' :: (rootLetters ++ spellRoots (rest ++ right)) = _
    rw [hrest]
    rfl
  | case2 c text hno ih =>
    have htext : spellRoots (text ++ right) = spellRoots text ++ spellRoots right :=
      ih (hcut.imp_left fun hlast d hd =>
        hlast d (@List.mem_getLast?_append_of_mem_getLast? _ [c] text d hd))
    rw [List.cons_append, List.cons_append, spellRoots_cons, htext]
    rintro rfl hopen
    cases text with
    | nil =>
      rcases hcut with hcut | hcut
      · exact hcut '√' rfl rfl
      · exact hcut '(' hopen rfl
    | cons d text =>
      cases hopen
      exact hno text rfl rfl
  | case3 => rfl

/-- A root sign with its parenthesis is spelled out where it stands. -/
theorem spellRoots_rootOpening (left right : Text) :
    spellRoots (left ++ (Token.rootOpening ++ right)) =
      spellRoots left ++ 's' :: (rootLetters ++ spellRoots right) :=
  spellRoots_append (.inr fun c hc => by cases hc; decide)

/-- A root that is spelled out already stays as it is. -/
theorem spellRoots_rootLetters (left right : Text) :
    spellRoots (left ++ 's' :: (rootLetters ++ right)) =
      spellRoots left ++ 's' :: (rootLetters ++ spellRoots right) := by
  have hletters : spellRoots ('s' :: rootLetters ++ right) =
      's' :: rootLetters ++ spellRoots right :=
    spellRoots_append (.inl fun c hc => by cases hc; decide)
  rw [spellRoots_append (.inr fun c hc => by cases hc; decide)]
  exact congrArg _ hletters

/-- A root that is marked already stays as it is. -/
theorem markRoots_rootOpening (left right : Text) :
    markRoots (left ++ (Token.rootOpening ++ right)) =
      markRoots left ++ (Token.rootOpening ++ markRoots right) := by
  have hsign : markRoots (Token.rootOpening ++ right) = Token.rootOpening ++ markRoots right :=
    markRoots_append (.inl fun c hc => by cases hc; decide)
  rw [markRoots_append (.inr fun c hc => by cases hc; decide)]
  exact congrArg _ hsign

/-- A root that is spelled out is marked where it stands. -/
theorem markRoots_rootLetters (left right : Text) :
    markRoots (left ++ 's' :: (rootLetters ++ right)) =
      markRoots left ++ (Token.rootOpening ++ markRoots right) :=
  markRoots_append (.inr fun c hc => by cases hc; decide)

/-- Spelling roots leaves a text without root signs as it is. -/
theorem spellRoots_of_not_mem {text : Text} (hsign : '√' ∉ text) : spellRoots text = text := by
  induction text with
  | nil => rfl
  | cons c text ih =>
    rw [List.mem_cons, not_or] at hsign
    rw [spellRoots_cons fun h => absurd h.symm hsign.1, ih hsign.2]

/-- Spelling roots takes nothing but root signs away. -/
theorem mem_spellRoots {c : Char} {text : Text} (hc : c ∈ text) (hsign : c ≠ '√') :
    c ∈ spellRoots text := by
  fun_induction spellRoots text with
  | case1 rest ih =>
    simp only [List.mem_cons] at hc ⊢
    grind
  | case2 d text hno ih =>
    simp only [List.mem_cons] at hc ⊢
    grind
  | case3 => cases hc

namespace Text

/-! ## Changes of the spelling -/

/-- One change of the spelling of a text, at any place: a blank character more, or a root in letters
in place of its sign. -/
inductive Respells : Text → Text → Prop
  | blank (before after : Text) {c : Char} (hblank : isBlank c = true) :
    Respells (before ++ after) (before ++ c :: after)
  | root (before after : Text) :
    Respells (before ++ (Token.rootOpening ++ after)) (before ++ 's' :: (rootLetters ++ after))

/-- Two texts are spellings of each other: changes of the spelling, made or undone, lead from one to
the other. -/
def SameSpelling : Text → Text → Prop := Relation.EqvGen Respells

namespace SameSpelling

variable {first second third : Text}

/-- Every text is spelled like itself. -/
theorem refl (text : Text) : SameSpelling text text := Relation.EqvGen.refl text

/-- Being spelled alike is symmetric. -/
theorem symm (h : SameSpelling first second) : SameSpelling second first :=
  Relation.EqvGen.symm _ _ h

/-- Being spelled alike is transitive. -/
theorem trans (h : SameSpelling first second) (h' : SameSpelling second third) :
    SameSpelling first third := Relation.EqvGen.trans _ _ _ h h'

/-- One step of respelling leads to a text that is spelled alike. -/
theorem of_respells (h : Respells first second) : SameSpelling first second :=
  Relation.EqvGen.rel _ _ h

/-- What is changed in a text can be changed behind a character as well. -/
theorem cons (c : Char) (h : SameSpelling first second) :
    SameSpelling (c :: first) (c :: second) := by
  induction h with
  | rel first second h =>
    cases h with
    | blank before after hblank => exact of_respells (.blank (c :: before) after hblank)
    | root before after => exact of_respells (.root (c :: before) after)
  | refl text => exact refl _
  | symm _ _ _ ih => exact ih.symm
  | trans _ _ _ _ _ ih ih' => exact ih.trans ih'

end SameSpelling

/-- Leaving out blank characters is respelling, one character at a time. -/
theorem sameSpelling_squeeze (text : Text) : SameSpelling (squeeze text) text := by
  induction text with
  | nil => exact .refl _
  | cons c text ih =>
    cases hblank : isBlank c with
    | false =>
      rw [squeeze_cons_of_not_blank hblank]
      exact ih.cons c
    | true =>
      rw [squeeze_cons_of_blank hblank]
      exact ih.trans (.of_respells (.blank [] text hblank))

/-- The two spellings of a root are spelled alike. -/
theorem sameSpelling_root (text : Text) :
    SameSpelling (Token.rootOpening ++ text) ('s' :: (rootLetters ++ text)) :=
  .of_respells (.root [] text)

/-- Marking roots is respelling, one root at a time. -/
theorem sameSpelling_markRoots (text : Text) : SameSpelling (markRoots text) text := by
  fun_induction markRoots text with
  | case1 rest ih => exact ((ih.cons '(').cons '√').trans (sameSpelling_root rest)
  | case2 c text hno ih => exact ih.cons c
  | case3 => exact .refl _

/-- Spelling roots out is respelling, one root at a time. -/
theorem sameSpelling_spellRoots (text : Text) : SameSpelling (spellRoots text) text := by
  fun_induction spellRoots text with
  | case1 rest ih => exact (sameSpelling_root _).symm.trans ((ih.cons '(').cons '√')
  | case2 c text hno ih => exact ih.cons c
  | case3 => exact .refl _

/-! ## Forms that do not depend on the spelling -/

section
variable {first second : Text} {form : Text → Text}

/-- A form that no change of the spelling alters is shared by all spellings of a text. -/
theorem SameSpelling.form_eq (hform : ∀ first second, Respells first second →
    form first = form second) (h : SameSpelling first second) : form first = form second := by
  induction h with
  | rel first second h => exact hform first second h
  | refl => rfl
  | symm _ _ _ ih => exact ih.symm
  | trans _ _ _ _ _ ih ih' => exact ih.trans ih'

/-- If that form is a spelling of the text itself, then only spellings of one text share it. -/
theorem sameSpelling_iff (hform : ∀ first second, Respells first second →
    form first = form second) (hspelling : ∀ text, SameSpelling (form text) text) :
    SameSpelling first second ↔ form first = form second := by
  refine ⟨SameSpelling.form_eq hform, fun hsame => ?_⟩
  have hfirst := hspelling first
  rw [hsame] at hfirst
  exact hfirst.symm.trans (hspelling second)

/-- Texts that differ in a blank character are the same when they are squeezed. -/
theorem squeeze_blank (before after : Text) {c : Char} (hblank : isBlank c = true) :
    squeeze (before ++ c :: after) = squeeze (before ++ after) := by
  rw [squeeze_append, squeeze_append, squeeze_cons_of_blank hblank]

/-- A root sign with its parenthesis has no blank characters to leave out. -/
theorem squeeze_rootOpening (before after : Text) :
    squeeze (before ++ (Token.rootOpening ++ after)) =
      squeeze before ++ (Token.rootOpening ++ squeeze after) := by
  rw [squeeze_append, squeeze_append]
  rfl

/-- A root that is spelled out without blank characters is not changed. -/
theorem squeeze_rootLetters (before after : Text) :
    squeeze (before ++ 's' :: (rootLetters ++ after)) =
      squeeze before ++ 's' :: (rootLetters ++ squeeze after) := by
  have hletters := squeeze_append ('s' :: rootLetters) after
  rw [List.cons_append] at hletters
  rw [squeeze_append, hletters]
  rfl

/-- No change of the spelling alters the normal form. -/
theorem Respells.normalize_eq (h : Respells first second) : normalize first = normalize second := by
  cases h with
  | blank before after hblank => rw [normalize, normalize, squeeze_blank before after hblank]
  | root before after =>
    rw [normalize, normalize, squeeze_rootOpening, squeeze_rootLetters, markRoots_rootOpening,
      markRoots_rootLetters]

/-- No change of the spelling alters the text without blank characters and with all roots in
letters. -/
theorem Respells.spellRoots_eq (h : Respells first second) :
    spellRoots (squeeze first) = spellRoots (squeeze second) := by
  cases h with
  | blank before after hblank => rw [squeeze_blank before after hblank]
  | root before after =>
    rw [squeeze_rootOpening, squeeze_rootLetters, spellRoots_rootOpening, spellRoots_rootLetters]

/-- Texts with the same normal form are the spellings of one text. -/
theorem sameSpelling_iff_normalize :
    SameSpelling first second ↔ normalize first = normalize second :=
  sameSpelling_iff (fun _ _ h => h.normalize_eq) fun text =>
    (sameSpelling_markRoots _).trans (sameSpelling_squeeze text)

/-- So are texts that become equal without blank characters and with all roots in letters. -/
theorem sameSpelling_iff_spellRoots :
    SameSpelling first second ↔ spellRoots (squeeze first) = spellRoots (squeeze second) :=
  sameSpelling_iff (fun _ _ h => h.spellRoots_eq) fun text =>
    (sameSpelling_spellRoots _).trans (sameSpelling_squeeze text)

end

/-- A text is spelled like its normal form. -/
theorem sameSpelling_normalize (text : Text) : SameSpelling (normalize text) text :=
  (sameSpelling_markRoots _).trans (sameSpelling_squeeze text)

/-- The roots of a text can be spelled in its normal form as well. -/
theorem spellRoots_normalize (text : Text) :
    spellRoots (normalize text) = spellRoots (squeeze text) := by
  have hsame := sameSpelling_iff_spellRoots.mp (sameSpelling_normalize text)
  rwa [squeeze_of_not_blank fun c hc => isBlank_of_mem_normalize hc] at hsame

end Text

/-! ## The normal form -/

/-- What is left of a text without blank characters and with all roots in letters has the value that
the text has. -/
theorem evaluate_spellRoots (text : Text) :
    evaluate (spellRoots (Text.squeeze text)) = evaluate text := by
  have hspelling : Text.SameSpelling (spellRoots (Text.squeeze text)) text :=
    (Text.sameSpelling_spellRoots _).trans (Text.sameSpelling_squeeze text)
  rw [evaluate, evaluate, Text.sameSpelling_iff_normalize.mp hspelling]

/-- The normal form is one and the same for all spellings of a text, and for no other texts. Two
texts are spellings of each other exactly if they become equal when blank characters are removed and
then all roots are spelled in letters. The normal form is the spelling without blank characters and
without roots in letters, and a text is evaluated alike in all of its spellings: to the same value,
or to the same diagnostic. -/
theorem normalize_canonical (first second : Text) :
    (normalize first = normalize second ↔
      spellRoots (Text.squeeze first) = spellRoots (Text.squeeze second)) ∧
    (normalize first = normalize second ↔ Text.SameSpelling first second) ∧
    Text.SameSpelling (normalize first) first ∧
    normalize (normalize first) = normalize first ∧
    (∀ c ∈ normalize first, isBlank c = false) ∧
    ¬ "sqrt(".toList <:+: normalize first ∧
    (Text.SameSpelling first second → evaluate first = evaluate second) := by
  refine ⟨?_, Text.sameSpelling_iff_normalize.symm, Text.sameSpelling_normalize first, ?_, ?_, ?_,
    ?_⟩
  · rw [← Text.sameSpelling_iff_normalize, Text.sameSpelling_iff_spellRoots]
  · exact normalize_of_infix List.infix_rfl
  · exact fun c hc => isBlank_of_mem_normalize hc
  · exact not_infix_markRoots _
  · intro hsame
    rw [evaluate, evaluate, Text.sameSpelling_iff_normalize.mp hsame]

/-- Blank characters in a number and in a root that is spelled in letters, and a root sign with a
blank before its parenthesis; and a division by zero, which is marked at the same place in all
spellings. -/
theorem normalize_canonical_nested :
    Text.SameSpelling "sq rt(2 * √ (6 4))".toList "√(2*sqrt(64))".toList ∧
      evaluate "sq rt(2 * √ (6 4))".toList = evaluate "√(2*sqrt(64))".toList ∧
      Text.SameSpelling " 1/sqrt(0)".toList "1 / √(0)".toList ∧
      evaluate " 1/sqrt(0)".toList = evaluate "1 / √(0)".toList := by
  have hvalue : Text.SameSpelling "sq rt(2 * √ (6 4))".toList "√(2*sqrt(64))".toList :=
    Text.sameSpelling_iff_normalize.mpr (by decide)
  have hfault : Text.SameSpelling " 1/sqrt(0)".toList "1 / √(0)".toList :=
    Text.sameSpelling_iff_normalize.mpr (by decide)
  obtain ⟨-, -, -, -, -, -, hsame⟩ :=
    normalize_canonical "sq rt(2 * √ (6 4))".toList "√(2*sqrt(64))".toList
  obtain ⟨-, -, -, -, -, -, hsame'⟩ :=
    normalize_canonical " 1/sqrt(0)".toList "1 / √(0)".toList
  exact ⟨hvalue, hsame hvalue, hfault, hsame' hfault⟩

end Surd
