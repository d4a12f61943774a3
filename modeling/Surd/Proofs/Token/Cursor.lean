import Surd.Token.Cursor
import Surd.Proofs.Stretch

/-!
# A cursor takes what a scanner reads

A cursor takes pieces of a text by their places. Where it stands between two characters of a text,
each place that a step comes to lies between two characters too, so that the step has a result, and
takes what is read at the front of the rest (`Cursor.exists_next?_place`). A root is taken where its
parenthesis is closed, and nowhere else (`Cursor.root?_matching`).
-/

namespace Surd

open Text Front

/-- In front of the first character that is not of a kind stand those that are. -/
theorem Text.bytesBefore?_getD (isPart : Char → Bool) (text : Text) :
    (bytesBefore? (fun c => !isPart c) text).getD (bytes text) =
      bytes (text.takeWhile isPart) := by
  induction text with
  | nil => rfl
  | cons c text ih =>
    cases hpart : isPart c with
    | true =>
      simp only [bytesBefore?, hpart, Bool.not_true, Bool.false_eq_true, if_false,
        List.takeWhile_cons_of_pos hpart, bytes_cons, ← ih]
      exact Option.getD_map ..
    | false => simp [bytesBefore?, hpart]

namespace Cursor

variable {before behind text literal rest : Text} {previous : Option Char}

/-- The cursor over what is left of a stretch, with a text before it and one behind it. -/
def place (before : Text) (previous : Option Char) (rest behind : Text) : Cursor :=
  ⟨⟨bytes before, previous, rest⟩, before ++ rest ++ behind⟩

/-- A cursor that is placed has what is left of its stretch to read. -/
@[simp] theorem rest_place : (place before previous rest behind).rest = rest := rfl

/-- A cursor that is placed stands behind the text before it. -/
@[simp] theorem offset_place : (place before previous rest behind).offset = bytes before := rfl

/-- A cursor that is placed knows the character before it. -/
@[simp] theorem previous_place :
    (place before previous rest behind).previous = previous := rfl

/-- The source of a cursor is all of the text, before its place, after it and behind its stretch. -/
@[simp] theorem source_place :
    (place before previous rest behind).source = before ++ rest ++ behind := rfl

/-- A piece is taken off the front of the rest by its length. -/
theorem advance?_place (before literal rest behind : Text) (previous : Option Char) :
    (place before previous (literal ++ rest) behind).advance? (bytes literal) =
      some (literal, place (before ++ literal) literal.getLast? rest behind) := by
  simp only [advance?, place, splitBytes?_append, Option.bind_eq_bind, Option.bind_some,
    bytes_append, List.append_assoc]

/-- The front of the rest is the stretch that begins where the cursor stands. -/
theorem slice?_place (before literal rest behind : Text) :
    slice? (before ++ (literal ++ rest) ++ behind) ⟨bytes before, bytes (before ++ literal)⟩ =
      some literal := by
  rw [slice?_eq_some_iff, bytes_append]
  exact ⟨before, rest ++ behind, by simp only [List.append_assoc], rfl⟩

/-- `Takes before behind front item after` says that what is read at the front of the rest was taken
by a cursor as an item: as a token, and the cursor stands behind it, or as a fault. -/
inductive Takes (before behind : Text) (front : Front) : Except Fault Token → Cursor → Prop
  | token {kind : Token.Kind} (hreading : front.reading = .ok kind) :
    Takes before behind front (.ok ⟨kind, front.literal, bytes before⟩)
      (place (before ++ front.literal) front.literal.getLast? front.rest behind)
  | fault {cause : Cause} {after : Cursor} (hreading : front.reading = .error cause) :
    Takes before behind front (.error ⟨cause, .of (bytes before) front.literal⟩) after

/-! ## Numbers -/

/-- A percent sign behind a number is taken with it. -/
theorem exists_percent?_place {value : Float} (hread : Number.read? literal = some value)
    (before rest behind : Text) :
    ∃ scaled sign tail, rest = sign ++ tail ∧
      ofLiteral literal rest = ⟨.ok (.number scaled), literal ++ sign, tail⟩ ∧
      (place (before ++ literal) literal.getLast? rest behind).percent? value = some
        (scaled, place (before ++ (literal ++ sign)) (literal ++ sign).getLast? tail behind) := by
  by_cases hhead : rest.head? = some '%'
  · obtain ⟨tail, rfl⟩ := List.head?_eq_some_iff.mp hhead
    refine ⟨value / 100, ['%'], tail, rfl, ofLiteral_percent hread tail, ?_⟩
    have hadvance := advance?_place (before ++ literal) ['%'] tail behind literal.getLast?
    have hsize : bytes ['%'] = 1 := rfl
    rw [hsize, List.singleton_append] at hadvance
    simp only [percent?, rest_place, hhead, if_true, hadvance, Option.bind_eq_bind,
      Option.bind_some, List.append_assoc, List.getLast?_concat, List.getLast?_singleton]
  · refine ⟨value, [], rest, rfl, ?_, ?_⟩
    · rw [List.append_nil]
      exact ofLiteral_plain hread hhead
    · simp only [percent?, rest_place, hhead, if_false, List.append_nil]

/-- A number is taken as it is read. -/
theorem exists_number?_place (before sign text behind : Text) (previous : Option Char) :
    ∃ item after, (place before previous (sign ++ text) behind).number? (bytes sign) =
        some (item, after) ∧ Takes before behind (number sign text) item after := by
  have hrest : sign ++ text = sign ++ text.takeWhile isNumeric ++ text.dropWhile isNumeric := by
    rw [List.append_assoc, List.takeWhile_append_dropWhile]
  have hdigits : (bytesBefore? (fun c => !isNumeric c) text).getD
      (bytes (sign ++ text) - bytes sign) = bytes (text.takeWhile isNumeric) := by
    rw [bytes_append, Nat.add_sub_cancel_left, bytesBefore?_getD]
  have hadvance := advance?_place before (sign ++ text.takeWhile isNumeric)
    (text.dropWhile isNumeric) behind previous
  rw [← hrest, bytes_append] at hadvance
  simp only [number?, rest_place, splitBytes?_append, Option.bind_eq_bind, Option.bind_some,
    hdigits, hadvance, Front.number]
  cases hread : Number.read? (sign ++ text.takeWhile isNumeric) with
  | none =>
    have hfront : ofLiteral (sign ++ text.takeWhile isNumeric) (text.dropWhile isNumeric) =
        ⟨.error (.invalidNumber (sign ++ text.takeWhile isNumeric)),
          sign ++ text.takeWhile isNumeric, text.dropWhile isNumeric⟩ := by
      simp only [ofLiteral, hread]
    rw [hfront]
    exact ⟨_, _, rfl, .fault rfl⟩
  | some value =>
    obtain ⟨scaled, percent, tail, htail, hfront, hpercent⟩ :=
      exists_percent?_place hread before (text.dropWhile isNumeric) behind
    have hslice := slice?_place before (sign ++ text.takeWhile isNumeric ++ percent) tail behind
    rw [List.append_assoc _ percent, ← htail, ← hrest] at hslice
    simp only [hpercent, Option.bind_some, offset_place, source_place, hslice, hfront]
    exact ⟨_, _, rfl, .token rfl⟩

/-! ## Roots -/

/-- The count of open parentheses is one more than the depth, so it never falls below zero: the
search ends where it would be zero, which is where the text is split. -/
theorem closing?_eq (depth start : Nat) (text : Text) :
    closing? (depth + 1) start text =
      some ((splitClose depth text).map fun parts => start + bytes parts.1) := by
  induction text generalizing depth start with
  | nil => rfl
  | cons c text ih =>
    by_cases hopen : c = '('
    · have hsize : '('.utf8Size = 1 := rfl
      simp [closing?, count?, hopen, splitClose_open, ih, Function.comp_def, hsize, Nat.add_assoc]
    by_cases hclose : c = ')'
    · have hsize : ')'.utf8Size = 1 := rfl
      cases depth with
      | zero => simp [closing?, count?, hclose, splitClose_close_zero]
      | succ depth =>
        simp [closing?, count?, hclose, splitClose_close, ih, Function.comp_def, hsize,
          Nat.add_assoc]
    · simp [closing?, count?, hopen, hclose, splitClose_plain hopen hclose, ih, Function.comp_def,
        Nat.add_assoc]

/-- The root sign is taken by its bytes. -/
theorem splitBytes?_rootSign (inner : Text) :
    splitBytes? '√'.utf8Size (Token.rootOpening ++ inner) = some (['√'], '(' :: inner) :=
  splitBytes?_append ['√'] ('(' :: inner)

/-- The opening of a root is taken by its bytes. -/
theorem splitBytes?_rootOpening (inner : Text) :
    splitBytes? ('√'.utf8Size + 1) (Token.rootOpening ++ inner) = some (Token.rootOpening, inner) :=
  splitBytes?_append Token.rootOpening inner

/-- The argument of a root is found by the number of bytes that the search counts up to its end. -/
theorem slice?_body (before body rest behind : Text) :
    slice? (before ++ (Token.rootOpening ++ (body ++ ')' :: rest)) ++ behind)
      ⟨bytes before + '√'.utf8Size + 1, bytes before + ('√'.utf8Size + 1 + bytes body)⟩ =
    some body := by
  have hopening : bytes Token.rootOpening = '√'.utf8Size + 1 := rfl
  have hslice := slice?_place (before ++ Token.rootOpening) body (')' :: rest) behind
  simpa only [bytes_append, hopening, List.append_assoc, Nat.add_assoc] using hslice

/-- A root that is closed is taken up to the parenthesis that closes it. -/
theorem root?_place_of_closed {body : Text} (hbody : Balanced body) (before rest behind : Text)
    (previous : Option Char) :
    (place before previous (Token.rootOpening ++ (body ++ ')' :: rest)) behind).root? =
      some (.ok ⟨.root body, Token.rootOpening ++ body ++ [')'], bytes before⟩,
        place (before ++ (Token.rootOpening ++ body ++ [')'])) (some ')') rest behind) := by
  have hsplit : splitClose 0 (body ++ ')' :: rest) = some (body, rest) :=
    splitClose_eq_some_iff.mpr ⟨rfl, hbody⟩
  have hlength : bytes (Token.rootOpening ++ body ++ [')']) =
      '√'.utf8Size + 1 + bytes body + 1 := by
    rw [bytes_append, bytes_append]
    rfl
  have hadvance := advance?_place before (Token.rootOpening ++ body ++ [')']) rest behind previous
  rw [hlength, List.getLast?_concat, List.append_assoc (Token.rootOpening ++ body),
    List.append_assoc Token.rootOpening, List.singleton_append] at hadvance
  simp only [root?, rest_place, splitBytes?_rootSign, splitBytes?_rootOpening, List.head?_cons,
    ne_eq, not_true_eq_false, if_false, Option.bind_eq_bind, Option.bind_some, closing?_eq 0 0,
    hsplit, Option.map_some, Nat.zero_add, offset_place, source_place, slice?_body, hadvance]

/-- A root that is not closed is a fault up to the end. -/
theorem root?_place_of_open {inner : Text} (hopen : splitClose 0 inner = none)
    (before behind : Text) (previous : Option Char) :
    (place before previous (Token.rootOpening ++ inner) behind).root? =
      some (.error ⟨.unterminatedRoot, .of (bytes before) (Token.rootOpening ++ inner)⟩,
        place before previous (Token.rootOpening ++ inner) behind) := by
  simp only [root?, rest_place, splitBytes?_rootSign, splitBytes?_rootOpening, List.head?_cons,
    ne_eq, not_true_eq_false, if_false, Option.bind_eq_bind, Option.bind_some, closing?_eq 0 0,
    hopen, Option.map_none, offset_place]
  rfl

/-- A root is taken as it is read. -/
theorem exists_root?_place (before text behind : Text) (previous : Option Char) :
    ∃ item after, (place before previous ('√' :: text) behind).root? = some (item, after) ∧
      Takes before behind (Front.read previous '√' text) item after := by
  by_cases hopening : text.head? = some '('
  · obtain ⟨inner, rfl⟩ := List.head?_eq_some_iff.mp hopening
    cases hsplit : splitClose 0 inner with
    | none =>
      rw [read_open_root previous hsplit]
      exact ⟨_, _, root?_place_of_open hsplit before behind previous, .fault rfl⟩
    | some parts =>
      obtain ⟨body, rest⟩ := parts
      obtain ⟨rfl, hbody⟩ := splitClose_eq_some_iff.mp hsplit
      have htaken : Takes before behind
          ⟨.ok (.root body), Token.rootOpening ++ body ++ [')'], rest⟩ _ _ := .token rfl
      rw [List.getLast?_concat] at htaken
      rw [read_closed_root previous hsplit]
      exact ⟨_, _, root?_place_of_closed hbody before rest behind previous, htaken⟩
  · have hread : Front.read previous '√' text = ⟨.error .missingRootParen, ['√'], text⟩ := by
      change Front.root text = _
      unfold Front.root
      split
      · exact absurd rfl hopening
      · rfl
    have hmarker : splitBytes? '√'.utf8Size ('√' :: text) = some (['√'], text) :=
      splitBytes?_append ['√'] text
    simp only [root?, rest_place, hmarker, hopening, ne_eq, not_false_eq_true, if_true,
      Option.bind_eq_bind, Option.bind_some, hread]
    exact ⟨_, _, rfl, .fault rfl⟩

/-- A root is found where its parenthesis is closed. A cursor at a root takes it exactly if a
balanced argument and a closing parenthesis follow its opening. There is then one such argument
only: the search ends at the bytes of it, the token covers it and both its parentheses, it is the
argument of the token, and the cursor goes on behind it. Otherwise the root is a fault that reaches
to the end of what is left. The search has a result either way, so that its count never falls below
zero, and the scanner yields the same. -/
theorem root?_matching (before inner behind : Text) (previous : Option Char) :
    let cursor := place before previous (Token.rootOpening ++ inner) behind
    ((∃ token after, cursor.root? = some (.ok token, after)) ↔ Closes inner) ∧
      (∀ body rest, inner = body ++ ')' :: rest → Balanced body →
        let token : Token := ⟨.root body, Token.rootOpening ++ body ++ [')'], bytes before⟩
        let after := place (before ++ token.literal) (some ')') rest behind
        (∀ other tail, inner = other ++ ')' :: tail → Balanced other → other = body ∧ tail = rest) ∧
          closing? 1 0 inner = some (some (bytes body)) ∧
          (cursor.root? = some (.ok token, after) ∧ after.source = cursor.source) ∧
          token.span.Marks cursor.source token.literal ∧
          (token.bodySpan? = some ⟨token.span.start + 4, token.span.stop - 1⟩ ∧
            Span.Marks ⟨token.span.start + 4, token.span.stop - 1⟩ cursor.source body) ∧
          cursor.toScanner.next = (some (.ok token), after.toScanner)) ∧
      (¬ Closes inner →
        let fault : Fault := ⟨.unterminatedRoot, .of (bytes before) (Token.rootOpening ++ inner)⟩
        closing? 1 0 inner = some none ∧
          cursor.root? = some (.error fault, cursor) ∧
          cursor.toScanner.next.1 = some (.error fault)) := by
  intro cursor
  have htaken (body rest : Text) (hinner : inner = body ++ ')' :: rest) (hbody : Balanced body) :
      cursor.root? = some (.ok ⟨.root body, Token.rootOpening ++ body ++ [')'], bytes before⟩,
        place (before ++ (Token.rootOpening ++ body ++ [')'])) (some ')') rest behind) := by
    subst hinner
    exact root?_place_of_closed hbody before rest behind previous
  refine ⟨⟨?_, ?_⟩, ?_, ?_⟩
  · rintro ⟨token, after, hroot⟩
    by_contra hopen
    rw [root?_place_of_open (splitClose_eq_none_iff_not_closes.mpr hopen)] at hroot
    cases hroot
  · rintro ⟨body, rest, hinner, hbody⟩
    exact ⟨_, _, htaken body rest hinner hbody⟩
  · intro body rest hinner hbody token after
    have hsplit : splitClose 0 inner = some (body, rest) :=
      splitClose_eq_some_iff.mpr ⟨hinner, hbody⟩
    have hsource : cursor.source = before ++ token.literal ++ (rest ++ behind) := by
      simp only [cursor, token, source_place, hinner, List.append_assoc, List.cons_append,
        List.nil_append]
    have hmarks : token.span.Marks cursor.source token.literal :=
      ⟨before, rest ++ behind, hsource, rfl⟩
    refine ⟨fun other tail hother hbalanced => ?_, ?_, ⟨htaken body rest hinner hbody, ?_⟩, hmarks,
      Token.bodySpan?_of_root rfl rfl hmarks, ?_⟩
    · have hsame := hsplit.symm.trans (splitClose_eq_some_iff.mpr ⟨hother, hbalanced⟩)
      cases hsame
      exact ⟨rfl, rfl⟩
    · rw [closing?_eq, hsplit, Option.map_some, Nat.zero_add]
    · rw [hsource, source_place, List.append_assoc (before ++ token.literal)]
    · have hread := read_closed_root previous hsplit
      have hnext := @Scanner.next_of_ok (bytes before) _ _ _ _ (congrArg Front.reading hread)
      rw [hread, List.getLast?_concat, ← bytes_append] at hnext
      exact hnext
  · intro hopen fault
    have hsplit := splitClose_eq_none_iff_not_closes.mpr hopen
    have hread := read_open_root previous hsplit
    have hnext := @Scanner.next_of_error (bytes before) _ _ _ _ (congrArg Front.reading hread)
    rw [hread] at hnext
    refine ⟨?_, root?_place_of_open hsplit before behind previous, congrArg Prod.fst hnext⟩
    rw [closing?_eq, hsplit, Option.map_none]

/-- A root in parentheses is part of the argument around it, and characters of two and four bytes in
it are counted as such. -/
theorem root?_matching_nested :
    let cursor := place "2+".toList (some '+') "√(é(√(1))😀)-3".toList "%".toList
    let token : Token := ⟨.root "é(√(1))😀".toList, "√(é(√(1))😀)".toList, 2⟩
    cursor.root? =
        some (.ok token, place "2+√(é(√(1))😀)".toList (some ')') "-3".toList "%".toList) ∧
      token.bodySpan? = some ⟨6, 20⟩ := by
  intro cursor token
  obtain ⟨-, hclosed, -⟩ :=
    root?_matching "2+".toList "é(√(1))😀)-3".toList "%".toList (some '+')
  obtain ⟨-, -, ⟨hroot, -⟩, -, ⟨hspan, -⟩, -⟩ :=
    hclosed "é(√(1))😀".toList "-3".toList (by decide) (by decide)
  exact ⟨hroot, hspan⟩

/-! ## One step -/

/-- What is a token by itself is read as one, and has one byte. -/
theorem read_of_single? {c : Char} {kind : Token.Kind} (hsingle : single? previous c = some kind)
    (text : Text) : Front.read previous c text = ⟨.ok kind, [c], text⟩ ∧ bytes [c] = 1 := by
  unfold single? at hsingle
  split at hsingle
  next hopen =>
    cases hsingle
    exact ⟨by rw [Front.read, if_pos hopen], by rw [hopen]; rfl⟩
  split at hsingle
  next hopen hclose =>
    cases hsingle
    exact ⟨by rw [Front.read, if_neg hopen, if_pos hclose], by rw [hclose]; rfl⟩
  split at hsingle
  · cases hsingle
  next hminus =>
    obtain ⟨op, hop, hkind⟩ := Option.map_eq_some_iff.mp hsingle
    obtain rfl := Operator.ofSymbol?_eq_some_iff.mp hop
    subst hkind
    refine ⟨Scanner.read_operator fun hsub => ?_, op.utf8Size_symbol⟩
    subst hsub
    exact Bool.eq_false_iff.mpr fun hsign => hminus ⟨rfl, hsign⟩

/-- What is no token by itself is a minus sign where a number may have one, or it is neither a
parenthesis nor an operator. -/
theorem cases_of_single?_eq_none {c : Char} (hsingle : single? previous c = none) :
    (c = '-' ∧ signAllowed previous = true) ∨
      (c ≠ '(' ∧ c ≠ ')' ∧ Operator.ofSymbol? c = none) := by
  unfold single? at hsingle
  split at hsingle
  · cases hsingle
  split at hsingle
  · cases hsingle
  split at hsingle
  next hminus => exact .inl hminus
  next hopen hclose hminus => exact .inr ⟨hopen, hclose, Option.map_eq_none_iff.mp hsingle⟩

/-- What is no token by itself is taken as it is read. -/
theorem exists_longer?_place {c : Char} (hsingle : single? previous c = none)
    (before text behind : Text) :
    ∃ item after, (place before previous (c :: text) behind).longer? c = some (item, after) ∧
      Takes before behind (Front.read previous c text) item after := by
  rcases cases_of_single?_eq_none hsingle with ⟨rfl, hsign⟩ | ⟨hopen, hclose, hsymbol⟩
  · rw [read_minus hsign]
    exact exists_number?_place before ['-'] text behind previous
  have hminus : c ≠ '-' := by
    rintro rfl
    cases hsymbol
  by_cases hnumeric : isNumeric c = true
  · rw [read_of_isNumeric hnumeric, longer?, if_neg hminus, if_pos hnumeric]
    exact exists_number?_place before [] (c :: text) behind previous
  by_cases hroot : c = '√'
  · subst hroot
    exact exists_root?_place before text behind previous
  · have hread : Front.read previous c text = ⟨.error (.unexpectedCharacter c), [c], text⟩ := by
      simp only [Front.read, hopen, hclose, hminus, hnumeric, hroot, hsymbol, false_and,
        Bool.false_eq_true, if_false]
    rw [hread, longer?, if_neg hminus, if_neg hnumeric, if_neg hroot]
    exact ⟨_, _, rfl, .fault rfl⟩

/-- Whatever stands at the front of the rest, a step takes it as it is read, and has nothing left to
read after a fault. -/
theorem exists_next?_place (before : Text) (previous : Option Char) (c : Char)
    (text behind : Text) :
    ∃ item after, (place before previous (c :: text) behind).next? = some (some item, after) ∧
      Takes before behind (Front.read previous c text) item after ∧
      ∀ fault, item = .error fault → after.rest = [] := by
  cases hsingle : single? previous c with
  | some kind =>
    obtain ⟨hread, hbytes⟩ := read_of_single? hsingle text
    have hadvance := advance?_place before [c] text behind previous
    rw [hbytes, List.singleton_append] at hadvance
    rw [hread]
    refine ⟨.ok ⟨kind, [c], bytes before⟩, place (before ++ [c]) [c].getLast? text behind,
      ?_, .token rfl, fun fault hfault => nomatch hfault⟩
    simp only [next?, rest_place, previous_place, hsingle, hadvance, Option.bind_eq_bind,
      Option.bind_some, offset_place]
  | none =>
    obtain ⟨item, after, hlonger, htakes⟩ := exists_longer?_place hsingle before text behind
    simp only [next?, rest_place, previous_place, hsingle, hlonger, Option.bind_eq_bind,
      Option.bind_some]
    generalize Front.read previous c text = front at htakes ⊢
    cases htakes with
    | token hreading => exact ⟨_, _, rfl, .token hreading, fun fault hfault => nomatch hfault⟩
    | fault hreading => exact ⟨_, _, rfl, .fault hreading, fun fault hfault => rfl⟩

end Cursor

end Surd
