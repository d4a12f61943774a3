import Surd.Proofs.Token.Cursor

/-!
# A cursor stays between characters

A cursor that begins at the start of a stretch keeps the three parts of its state in step: the place
where it stands, the character before that place, and what is left of the stretch behind it. No step
from such a state looks outside the text or into a character, so that none is without a result, and
what the steps yield is what a scanner yields (`Cursor.stays_in_stretch`).
-/

namespace Surd

open Text Front

/-- A sign may stand where nothing is before it, or an opening parenthesis or an operator is. -/
theorem Front.signAllowed_iff {previous : Option Char} :
    signAllowed previous = true ↔
      previous = none ∨ ∃ c ∈ previous, c ∈ ['(', '+', '-', '*', '/', '^'] := by
  cases previous with
  | none => simp [signAllowed]
  | some c =>
    simp only [signAllowed, Bool.or_eq_true, decide_eq_true_eq, Option.isSome_iff_exists,
      Operator.ofSymbol?_eq_some_iff, Option.mem_def, Option.some.injEq, exists_eq_left',
      reduceCtorEq, false_or]
    constructor
    · rintro (rfl | ⟨op, rfl⟩)
      · exact List.mem_cons_self
      · cases op <;> decide
    · intro hmem
      simp only [List.mem_cons, List.not_mem_nil, or_false] at hmem
      rcases hmem with rfl | rfl | rfl | rfl | rfl | rfl
      · exact .inl rfl
      · exact .inr ⟨.add, rfl⟩
      · exact .inr ⟨.sub, rfl⟩
      · exact .inr ⟨.mul, rfl⟩
      · exact .inr ⟨.div, rfl⟩
      · exact .inr ⟨.pow, rfl⟩

/-- One step after so many steps is one step more. -/
theorem Scanner.snd_next_steps (scanner : Scanner) (n : Nat) :
    (scanner.steps n).next.2 = scanner.steps (n + 1) := by
  induction n generalizing scanner with
  | zero => rfl
  | succ n ih => exact ih scanner.next.2

namespace Cursor

variable {source before piece behind : Text} {span : Span} {cursor after : Cursor}

/-- A number with a minus sign, or what would be one if its digits were well formed. -/
inductive IsSigned : Except Fault Token → Prop
  | number (value : Float) (digits : Text) (offset : Nat) :
    IsSigned (.ok ⟨.number value, '-' :: digits, offset⟩)
  | invalid (digits : Text) (span : Span) :
    IsSigned (.error ⟨.invalidNumber ('-' :: digits), span⟩)

/-- The state of a cursor in a stretch of a text: it stands in the stretch and between two
characters, the rest is what is left of the stretch behind it, and the previous character is the
last one of the stretch in front of it, if there is one. -/
structure InStretch (source : Text) (span : Span) (cursor : Cursor) : Prop where
  source_eq : cursor.source = source
  start_le : span.start ≤ cursor.offset
  le_stop : cursor.offset ≤ span.stop
  rest : slice? source ⟨cursor.offset, span.stop⟩ = some cursor.rest
  previous : ∃ front, slice? source ⟨span.start, cursor.offset⟩ = some front ∧
    cursor.previous = front.getLast?
  previous_eq_none_iff : cursor.previous = none ↔ cursor.offset = span.start

/-- A cursor between what it has read of a piece of a text and what is left of the piece. -/
def Between (before piece behind : Text) (cursor : Cursor) : Prop :=
  ∃ front rest, piece = front ++ rest ∧
    cursor = place (before ++ front) front.getLast? rest behind

/-- A cursor that stands where a scanner stands, or both have nothing left to read. -/
inductive Follows (before piece behind : Text) (scanner : Scanner) : Cursor → Prop
  | between {cursor : Cursor} (hbetween : Between before piece behind cursor)
    (hscanner : cursor.toScanner = scanner) : Follows before piece behind scanner cursor
  | done {cursor : Cursor} (hcursor : cursor.rest = []) (hscanner : scanner.rest = []) :
    Follows before piece behind scanner cursor

/-- A step from between two characters yields what the scanner yields there, and comes to stand
between two characters again unless it yields a fault. -/
theorem Between.exists_next? (h : Between before piece behind cursor) :
    ∃ item after, cursor.next? = some (item, after) ∧ cursor.toScanner.next.1 = item ∧
      ((Between before piece behind after ∧ after.toScanner = cursor.toScanner.next.2) ∨
        ∃ fault, item = some (.error fault) ∧ after.rest = [] ∧
          cursor.toScanner.next.2.rest = []) := by
  obtain ⟨front, rest, rfl, rfl⟩ := h
  cases rest with
  | nil => exact ⟨none, _, rfl, rfl, .inl ⟨⟨front, [], rfl, rfl⟩, rfl⟩⟩
  | cons c text =>
    obtain ⟨item, after, hnext, htakes, hfault⟩ :=
      exists_next?_place (before ++ front) front.getLast? c text behind
    refine ⟨some item, after, hnext, ?_⟩
    have hscanner : (place (before ++ front) front.getLast? (c :: text) behind).toScanner =
      ⟨bytes (before ++ front), front.getLast?, c :: text⟩ := rfl
    rw [hscanner]
    generalize hread : Front.read front.getLast? c text = read at htakes
    cases htakes with
    | token hreading =>
      rw [Scanner.next_of_ok (hread ▸ hreading), hread]
      refine ⟨rfl, .inl ⟨⟨front ++ read.literal, read.rest, ?_, ?_⟩, ?_⟩⟩
      · rw [List.append_assoc, ← hread, literal_append_rest]
      · rw [List.append_assoc, List.getLast?_append_of_ne_nil _ (hread ▸ literal_ne_nil _ c text)]
      · rw [← bytes_append]
        rfl
    | fault hreading =>
      rw [Scanner.next_of_error (hread ▸ hreading), hread]
      exact ⟨rfl, .inr ⟨_, rfl, hfault _ rfl, rfl⟩⟩

/-- A cursor between two characters of a piece is in the stretch that the piece is. -/
theorem Between.inStretch (h : Between before piece behind cursor) :
    InStretch (before ++ piece ++ behind) (.of (bytes before) piece) cursor := by
  obtain ⟨front, rest, rfl, rfl⟩ := h
  have hread : slice? (before ++ (front ++ rest) ++ behind)
      ⟨bytes before, bytes (before ++ front)⟩ = some front := slice?_place before front rest behind
  have hstop : (Span.of (bytes before) (front ++ rest)).stop = bytes (before ++ (front ++ rest)) :=
    (bytes_append ..).symm
  refine ⟨?_, ?_, ?_, ?_, ⟨front, hread, rfl⟩, ?_⟩
  · rw [source_place, List.append_assoc before]
  · rw [offset_place, bytes_append]
    exact Nat.le_add_right ..
  · rw [offset_place, hstop, ← List.append_assoc, bytes_append (before ++ front)]
    exact Nat.le_add_right ..
  · have hrest := slice?_place (before ++ front) rest [] behind
    rw [List.append_nil, List.append_assoc before front rest] at hrest
    rw [hstop]
    exact hrest
  · rw [previous_place, offset_place, bytes_append, List.getLast?_eq_none_iff]
    constructor
    · rintro rfl
      rfl
    · intro hoffset
      by_contra hsome
      have hpos := bytes_pos hsome
      have hstart : bytes before + bytes front = bytes before := hoffset
      omega

/-- Every cursor that is reached without a fault stands between two characters, where the scanner
comes as well. -/
theorem Reaches.between {start : Cursor} (hreaches : Reaches start cursor)
    (hstart : Between before piece behind start) :
    Between before piece behind cursor ∧ ∃ n, cursor.toScanner = start.toScanner.steps n := by
  induction hreaches with
  | start => exact ⟨hstart, 0, rfl⟩
  | step hreaches hnext hitem ih =>
    obtain ⟨hcursor, n, hsteps⟩ := ih
    obtain ⟨item, after, hstep, -, ⟨hafter, hscanner⟩ | ⟨fault, hfault, -⟩⟩ := hcursor.exists_next?
    · cases hnext.symm.trans hstep
      exact ⟨hafter, n + 1, by rw [hscanner, hsteps, Scanner.snd_next_steps]⟩
    · cases hnext.symm.trans hstep
      exact absurd hfault (hitem fault)

/-- A cursor that follows a scanner yields what the scanner yields, and follows it on. -/
theorem Follows.exists_next? {scanner : Scanner} (h : Follows before piece behind scanner cursor) :
    ∃ after, cursor.next? = some (scanner.next.1, after) ∧
      Follows before piece behind scanner.next.2 after := by
  cases h with
  | between hbetween hscanner =>
    subst hscanner
    obtain ⟨item, after, hnext, hitem, hafter⟩ := hbetween.exists_next?
    refine ⟨after, hitem ▸ hnext, ?_⟩
    rcases hafter with ⟨hbetween, hsame⟩ | ⟨fault, -, hrest, hscanner⟩
    · exact .between hbetween hsame
    · exact .done hrest hscanner
  | done hcursor hscanner =>
    have hnext : scanner.next = (none, scanner) := by simp only [Scanner.next, hscanner]
    rw [hnext]
    exact ⟨cursor, by simp only [next?, hcursor], .done hcursor hscanner⟩

/-- After as many steps as a scanner, a cursor that follows it still does. -/
theorem Follows.exists_steps? {scanner : Scanner} (h : Follows before piece behind scanner cursor)
    (n : Nat) :
    ∃ after, cursor.steps? n = some after ∧
      Follows before piece behind (scanner.steps n) after := by
  induction n generalizing scanner cursor with
  | zero => exact ⟨cursor, rfl, h⟩
  | succ n ih =>
    obtain ⟨middle, hnext, hmiddle⟩ := h.exists_next?
    obtain ⟨after, hsteps, hafter⟩ := ih hmiddle
    refine ⟨after, ?_, hafter⟩
    rw [steps?, hnext]
    exact hsteps

/-- A number that is read with a minus sign in front is taken as a signed one. -/
theorem Takes.isSigned {text : Text} {item : Except Fault Token}
    (h : Takes before behind (number ['-'] text) item after) : IsSigned item := by
  unfold number ofLiteral at h
  split at h
  · cases h with
    | token hreading => cases hreading
    | fault hreading =>
      cases hreading
      exact .invalid _ _
  split at h
  all_goals
    cases h with
    | token hreading =>
      cases hreading
      exact .number _ _ _
    | fault hreading => cases hreading

/-- A minus sign is taken with a number if a sign may stand there, and as an operator if not. -/
theorem Between.exists_next?_minus (h : Between before piece behind cursor) {text : Text}
    (hrest : cursor.rest = '-' :: text) :
    ∃ item after, cursor.next? = some (some item, after) ∧
      (IsSigned item ↔ signAllowed cursor.previous = true) ∧
      (IsSigned item ∨ item = .ok ⟨.operator .sub, ['-'], cursor.offset⟩) := by
  obtain ⟨front, rest, rfl, rfl⟩ := h
  cases hrest
  rw [previous_place, offset_place]
  obtain ⟨item, after, hnext, htakes, -⟩ :=
    exists_next?_place (before ++ front) front.getLast? '-' text behind
  refine ⟨item, after, hnext, ?_⟩
  cases hsign : signAllowed front.getLast? with
  | true =>
    rw [read_minus hsign] at htakes
    have hsigned := htakes.isSigned
    exact ⟨iff_of_true hsigned rfl, .inl hsigned⟩
  | false =>
    have hread : Front.read front.getLast? '-' text = ⟨.ok (.operator .sub), ['-'], text⟩ :=
      @Scanner.read_operator _ text .sub fun _ => hsign
    rw [hread] at htakes
    cases htakes with
    | token hreading =>
      cases hreading
      exact ⟨iff_of_false (fun hsigned => nomatch hsigned) Bool.false_ne_true, .inr rfl⟩
    | fault hreading => cases hreading

/-- A cursor over a stretch of a text stays in it. The stretch is named by two places between
characters. Wherever the cursor comes without a fault, the scanner comes too, and it stands in the
stretch and between two characters, with what is left of the stretch as its rest and the last
character before it as its previous one, which is missing at the start of the stretch only. So a
minus sign begins a number exactly if it is at the start of the stretch or directly behind an
opening parenthesis or an operator, and is an operator otherwise. A step from there has a result. In
fact, however many steps are made, after a fault too, each has a result, which is the item that the
scanner yields. -/
theorem stays_in_stretch (hpiece : slice? source span = some piece) :
    ∃ start, within? source span = some start ∧
      (∀ cursor, Reaches start cursor →
        InStretch source span cursor ∧
          (∃ n, cursor.toScanner = (Scanner.start span.start piece).steps n) ∧
          (∃ item after, cursor.next? = some (item, after)) ∧
          ∀ text, cursor.rest = '-' :: text → ∃ item after,
            cursor.next? = some (some item, after) ∧
              (IsSigned item ↔ cursor.offset = span.start ∨ ∃ front,
                slice? source ⟨span.start, cursor.offset⟩ = some front ∧
                  ∃ c ∈ front.getLast?, c ∈ ['(', '+', '-', '*', '/', '^']) ∧
              (IsSigned item ∨ item = .ok ⟨.operator .sub, ['-'], cursor.offset⟩)) ∧
      ∀ n, ∃ cursor after, start.steps? n = some cursor ∧
        cursor.next? = some ((Scanner.start span.start piece).items[n]?, after) := by
  obtain ⟨before, behind, rfl, rfl⟩ := slice?_eq_some_iff.mp hpiece
  have hbetween : Between before piece behind (place before none piece behind) :=
    ⟨[], piece, rfl, by rw [List.append_nil]; rfl⟩
  refine ⟨place before none piece behind, ?_, fun cursor hreaches => ?_, fun n => ?_⟩
  · rw [within?, Scanner.within?, hpiece]
    rfl
  · obtain ⟨hcursor, hscanner⟩ := hreaches.between hbetween
    have hstretch := hcursor.inStretch
    refine ⟨hstretch, hscanner, ?_, fun text hrest => ?_⟩
    · obtain ⟨item, after, hnext, -⟩ := hcursor.exists_next?
      exact ⟨item, after, hnext⟩
    · obtain ⟨front, hfront, hprevious⟩ := hstretch.previous
      obtain ⟨item, after, hnext, hsigned, hminus⟩ := hcursor.exists_next?_minus hrest
      refine ⟨item, after, hnext, hsigned.trans ?_, hminus⟩
      rw [signAllowed_iff, hstretch.previous_eq_none_iff, hprevious, hfront]
      simp only [Option.some.injEq, exists_eq_left']
  · obtain ⟨cursor, hsteps, hfollows⟩ :=
      (Follows.between hbetween rfl).exists_steps? n
    obtain ⟨after, hnext, -⟩ := hfollows.exists_next?
    refine ⟨cursor, after, hsteps, ?_⟩
    rw [hnext, Scanner.next_steps]
    rfl

/-- The argument of a root in a text with characters of two bytes: the minus sign at its start is
that of a number, and behind the fault at its last character there is nothing to yield. -/
theorem stays_in_stretch_argument :
    let source := "ü+√(-1/é)-2".toList
    let span : Span := ⟨7, 12⟩
    slice? source span = some "-1/é".toList ∧
      ∃ start, within? source span = some start ∧ InStretch source span start ∧
        (∃ item after, start.next? = some (some item, after) ∧ IsSigned item) ∧
        ∀ n, ∃ cursor after, start.steps? n = some cursor ∧
          cursor.next? = some ((Scanner.start 7 "-1/é".toList).items[n]?, after) := by
  intro source span
  have hpiece : slice? source span = some "-1/é".toList := by decide
  obtain ⟨start, hstart, hreaches, hsteps⟩ := stays_in_stretch hpiece
  refine ⟨hpiece, start, hstart, ?_, ?_, hsteps⟩
  · exact (hreaches start .start).1
  · have hwithin : within? source span = some ⟨Scanner.start 7 "-1/é".toList, source⟩ := by
      rw [within?, Scanner.within?, hpiece]
      rfl
    cases hstart.symm.trans hwithin
    obtain ⟨-, -, -, hminus⟩ := hreaches _ .start
    obtain ⟨item, after, hnext, hsigned, -⟩ := hminus "1/é".toList (by decide)
    exact ⟨item, after, hnext, hsigned.mpr (.inl rfl)⟩

end Cursor

end Surd
