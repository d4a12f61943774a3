import Mathlib
import Surd.Command.Outcome
import Surd.Text.Line

/-!
# Lines of encoded texts

What is written line by line is read line by line: the line feed is a byte of its own in UTF-8, so
the lines of an encoded text are its encoded lines (`Bytes.lines_encode_eq_map`), and each of them
is decoded to the line that was written (`Bytes.decode?_encode`). Behind a line feed the lines begin
anew, whatever comes there (`Bytes.lines_append`, `Bytes.isText_append_feed_iff`).
-/

namespace Surd

/-! ## Cutting at line ends -/

section
variable {α : Type} {isEnd : α → Bool} {line : List α}

/-- What stands before an end and has none in it is the first line. -/
theorem linesOf_append_cons {x : α} (hline : ∀ y ∈ line, isEnd y = false) (hend : isEnd x = true)
    (rest : List α) : linesOf isEnd (line ++ x :: rest) = line :: linesOf isEnd rest := by
  induction line with
  | nil => rw [List.nil_append, linesOf, if_pos hend]
  | cons y line ih =>
    rw [List.forall_mem_cons] at hline
    rw [List.cons_append, linesOf, if_neg (Bool.eq_false_iff.mp hline.1), ih hline.2]

/-- What has no end in it belongs to the first line of what comes after it. -/
theorem linesOf_append_of_forall (hline : ∀ y ∈ line, isEnd y = false) (hne : line ≠ [])
    (rest : List α) : linesOf isEnd (line ++ rest) =
      (line ++ (linesOf isEnd rest).headD []) :: (linesOf isEnd rest).tail := by
  induction line with
  | nil => exact absurd rfl hne
  | cons y line ih =>
    rw [List.forall_mem_cons] at hline
    rw [List.cons_append, linesOf, if_neg (Bool.eq_false_iff.mp hline.1)]
    cases line with
    | nil => cases hlines : linesOf isEnd rest <;> simp [hlines]
    | cons z line => rw [ih hline.2 (List.cons_ne_nil z line)]; rfl

/-- There is no end in a line. -/
theorem eq_false_of_mem_linesOf {list : List α} (hmem : line ∈ linesOf isEnd list) :
    ∀ y ∈ line, isEnd y = false := by
  induction list generalizing line with
  | nil => cases hmem
  | cons x list ih =>
    rw [linesOf] at hmem
    split at hmem
    · rcases List.mem_cons.mp hmem with rfl | hmem
      · exact List.forall_mem_nil _
      · exact ih hmem
    next hx =>
      have hx := Bool.eq_false_iff.mpr hx
      split at hmem
      · obtain rfl := List.mem_singleton.mp hmem
        exact List.forall_mem_singleton.mpr hx
      next first lines hlines =>
        rw [hlines] at ih
        rcases List.mem_cons.mp hmem with rfl | hmem
        · exact List.forall_mem_cons.mpr ⟨hx, ih List.mem_cons_self⟩
        · exact ih (List.mem_cons_of_mem first hmem)

/-- Only the empty list has no lines. -/
theorem linesOf_eq_nil_iff {list : List α} : linesOf isEnd list = [] ↔ list = [] := by
  constructor
  · intro hlines
    cases list with
    | nil => rfl
    | cons x list =>
      rw [linesOf] at hlines
      split at hlines
      · cases hlines
      · split at hlines <;> cases hlines
  · rintro rfl
    rfl

/-- Whether the last line of a list has an end. -/
def EndsLine (isEnd : α → Bool) (list : List α) : Prop := ∀ x ∈ list.getLast?, isEnd x = true

/-- If the last line has an end, it still has one without the first element. -/
theorem EndsLine.of_cons {x : α} {list : List α} (hlist : EndsLine isEnd (x :: list)) :
    EndsLine isEnd list :=
  fun y hy => hlist y (@List.mem_getLast?_append_of_mem_getLast? _ [x] list y hy)

/-- An element that ends no line is not the last one if the last line has an end. -/
theorem EndsLine.ne_nil_of_cons {x : α} {list : List α} (hlist : EndsLine isEnd (x :: list))
    (hx : ¬ isEnd x = true) : list ≠ [] := by
  rintro rfl
  exact hx (hlist x rfl)

/-- After an end the lines begin anew. -/
theorem linesOf_append {first : List α} (hfirst : EndsLine isEnd first) (second : List α) :
    linesOf isEnd (first ++ second) = linesOf isEnd first ++ linesOf isEnd second := by
  induction first with
  | nil => rfl
  | cons x first ih =>
    rw [List.cons_append, linesOf, linesOf, ih hfirst.of_cons]
    split
    · rfl
    next hx =>
      cases hlines : linesOf isEnd first with
      | cons line lines => rfl
      | nil => exact absurd (linesOf_eq_nil_iff.mp hlines) (hfirst.ne_nil_of_cons hx)

/-- There are as many lines as ends. -/
theorem length_linesOf {list : List α} (hlist : EndsLine isEnd list) :
    (linesOf isEnd list).length = list.countP isEnd := by
  induction list with
  | nil => rfl
  | cons x list ih =>
    rw [linesOf, List.countP_cons, ← ih hlist.of_cons]
    split
    · rfl
    next hx =>
      cases hlines : linesOf isEnd list with
      | cons line lines => rfl
      | nil => exact absurd (linesOf_eq_nil_iff.mp hlines) (hlist.ne_nil_of_cons hx)

/-- What stands before an end, or at the end of the list, is the first line if it is not empty. -/
theorem linesOf_append_of_head? (hline : ∀ y ∈ line, isEnd y = false) (hne : line ≠ [])
    {rest : List α} (hrest : ∀ x ∈ rest.head?, isEnd x = true) :
    ∃ lines, linesOf isEnd (line ++ rest) = line :: lines := by
  cases rest with
  | nil => exact ⟨[], by simpa [linesOf] using linesOf_append_of_forall hline hne []⟩
  | cons x rest => exact ⟨_, linesOf_append_cons hline (hrest x rfl) rest⟩

end

namespace Text

/-- There is no line feed in a line. -/
theorem not_mem_of_mem_lines {line text : Text} (hline : line ∈ lines text) : '\n' ∉ line :=
  fun hfeed => absurd (eq_false_of_mem_linesOf hline _ hfeed) (by decide)

/-- The lines of a text are its pieces between line feeds, but for an empty one at the end. -/
theorem splitOn_eq_lines (text : Text) :
    text.splitOn '\n' = lines text ∨ text.splitOn '\n' = lines text ++ [[]] := by
  induction text with
  | nil => exact .inr rfl
  | cons c text ih =>
    rw [List.splitOn_cons_eq_if_modifyHead, lines, linesOf, ← lines]
    by_cases hfeed : c = '\n'
    · rw [if_pos (beq_iff_eq.mpr hfeed), if_pos (decide_eq_true hfeed)]
      exact ih.imp (congrArg _) (congrArg _)
    · rw [if_neg (mt beq_iff_eq.mp hfeed), if_neg (by simp [hfeed])]
      rcases ih with hsplit | hsplit
      · cases hlines : lines text with
        | nil => exact absurd (hsplit.trans hlines) (List.splitOn_ne_nil _ _)
        | cons line rest =>
          rw [hsplit, hlines]
          exact .inl rfl
      · rw [hsplit]
        cases lines text with
        | nil => exact .inl rfl
        | cons line rest => exact .inr rfl

/-- Nothing is taken from a text that begins with no blank character. -/
theorem trimStart_of_head? {text : Text} (hhead : ∀ c ∈ text.head?, isBlank c = false) :
    trimStart text = text := by
  cases text with
  | nil => rfl
  | cons c text =>
    rw [trimStart, List.dropWhile_cons_of_neg]
    rw [hhead c rfl]
    exact Bool.false_ne_true

/-- Trimming adds nothing. -/
theorem mem_of_mem_trim {c : Char} {text : Text} (hc : c ∈ trim text) : c ∈ text := by
  have hreversed := List.dropWhile_subset _ (List.mem_reverse.mp hc)
  exact List.dropWhile_subset _ (List.mem_reverse.mp hreversed)

/-- Blank characters at the end of a text that has no others are not read. -/
theorem trim_append {text blank : Text} (htext : ∀ c ∈ text, isBlank c = false)
    (hblank : ∀ c ∈ blank, isBlank c = true) : trim (text ++ blank) = text := by
  cases text with
  | nil =>
    have hall : trimStart blank = [] := List.dropWhile_eq_nil_iff.mpr hblank
    rw [List.nil_append, trim, hall]
    rfl
  | cons c text =>
    have hfront : trimStart (c :: text ++ blank) = c :: text ++ blank := by
      refine trimStart_of_head? fun d hd => ?_
      cases hd
      exact htext c List.mem_cons_self
    have hback : trimStart (blank.reverse ++ (c :: text).reverse) = (c :: text).reverse := by
      rw [trimStart, List.dropWhile_append_of_pos fun d hd => hblank d (List.mem_reverse.mp hd)]
      exact trimStart_of_head? fun d hd =>
        htext d (List.mem_reverse.mp (List.mem_of_mem_head? hd))
    rw [trim, hfront, List.reverse_append, hback, List.reverse_reverse]

/-! ## Encoding -/

/-- The bytes of a text in UTF-8. -/
def encode (text : Text) : Bytes := text.flatMap String.utf8EncodeChar

/-- The first character is encoded first. -/
theorem encode_cons (c : Char) (text : Text) :
    encode (c :: text) = String.utf8EncodeChar c ++ encode text := List.flatMap_cons

/-- Two texts are encoded one after the other. -/
theorem encode_append (left right : Text) : encode (left ++ right) = encode left ++ encode right :=
  List.flatMap_append

/-- A line feed is the only character with the byte of a line feed. -/
theorem mem_utf8EncodeChar_iff {c : Char} : 10 ∈ String.utf8EncodeChar c ↔ c = '\n' := by
  have hbyte (n : Nat) : 10 = UInt8.ofNat n ↔ n % 256 = 10 := by
    rw [eq_comm, ← UInt8.toNat_inj, UInt8.toNat_ofNat']
    rfl
  have hchar : c = '\n' ↔ c.val.toNat = 10 := by
    rw [← Char.val_inj, ← UInt32.toNat_inj]
    rfl
  -- one case for each number of bytes; only a single byte can be below 128
  fun_cases String.utf8EncodeChar c
  all_goals
    simp only [List.mem_cons, List.not_mem_nil, or_false, hchar, hbyte]
    omega

/-- A line feed is encoded as the byte ten, and no other character has that byte in its encoding. -/
theorem mem_encode_iff {text : Text} : 10 ∈ encode text ↔ '\n' ∈ text := by
  rw [encode, List.mem_flatMap]
  constructor
  · rintro ⟨c, hc, hmem⟩
    rwa [mem_utf8EncodeChar_iff.mp hmem] at hc
  · exact fun hmem => ⟨'\n', hmem, mem_utf8EncodeChar_iff.mpr rfl⟩

/-- A line is encoded as its bytes and a line feed. -/
theorem encode_line (line : Text) : encode (Outcome.line line) = encode line ++ [10] := by
  rw [Outcome.line, encode_append]
  rfl

end Text

namespace Bytes

open Text

/-- An encoded text is decoded to itself. -/
theorem decode?_encode (text : Text) : decode? (encode text) = some text := by
  have hbytes : ByteArray.mk (encode text).toArray = (String.ofList text).toByteArray := by
    apply ByteArray.ext
    rw [String.toByteArray_ofList, List.utf8Encode, List.data_toByteArray]
    rfl
  have hstring : String.fromUTF8? (String.ofList text).toByteArray = some (String.ofList text) :=
    dif_pos (String.ofList text).isValidUTF8
  rw [decode?, hbytes, hstring, Option.map_some, String.toList_ofList]

/-- Only an encoded text is decoded. -/
theorem decode?_eq_some_iff {bytes : Bytes} {text : Text} :
    decode? bytes = some text ↔ bytes = encode text := by
  constructor
  · intro hdecode
    obtain ⟨string, hstring, rfl⟩ := Option.map_eq_some_iff.mp hdecode
    unfold String.fromUTF8? at hstring
    split at hstring
    next hvalid =>
      have harray : ByteArray.mk bytes.toArray = (String.ofList string.toList).toByteArray := by
        rw [String.ofList_toList, ← Option.some.inj hstring]
        rfl
      have hlist := congrArg (fun array => array.data.toList) harray
      rw [String.toByteArray_ofList, List.utf8Encode, List.data_toByteArray] at hlist
      exact hlist
    next => cases hstring
  · rintro rfl
    exact decode?_encode text

/-- Whether a byte string is valid UTF-8. -/
def IsText (bytes : Bytes) : Prop := ∃ text, bytes = encode text

/-- What is encoded from a text is valid. -/
theorem isText_encode (text : Text) : IsText (encode text) := ⟨text, rfl⟩

/-- Decoding fails on byte strings that are not valid, and on no others. -/
theorem decode?_eq_none_iff {bytes : Bytes} : decode? bytes = none ↔ ¬ IsText bytes := by
  simp only [Option.eq_none_iff_forall_ne_some, Ne, decode?_eq_some_iff, IsText, not_exists]

/-- An encoded text is cut at the byte of a line feed if the text is cut at the line feed. -/
theorem encode_eq_append_feed_iff {text : Text} {left right : Bytes} :
    encode text = left ++ 10 :: right ↔
      ∃ first second, text = first ++ '\n' :: second ∧ left = encode first ∧
        right = encode second := by
  constructor
  · intro hcut
    induction text generalizing left with
    | nil => simp [encode] at hcut
    | cons c text ih =>
      rw [encode_cons, List.append_eq_append_iff] at hcut
      rcases hcut with ⟨middle, rfl, hcut⟩ | ⟨middle, hleft, hcut⟩
      · obtain ⟨first, second, rfl, rfl, rfl⟩ := ih hcut
        exact ⟨c :: first, second, rfl, (encode_cons c first).symm, rfl⟩
      cases middle with
      | nil =>
        rw [List.append_nil] at hleft
        obtain ⟨first, second, rfl, hfirst, rfl⟩ := @ih [] hcut.symm
        exact ⟨c :: first, second, rfl, by rw [encode_cons, ← hfirst, hleft, List.append_nil], rfl⟩
      | cons byte middle =>
        -- the byte of a line feed is among those of a character, which is thus a line feed
        obtain ⟨rfl, rfl⟩ := List.cons.inj hcut
        have hfeed : c = '\n' := mem_utf8EncodeChar_iff.mp (by rw [hleft]; simp)
        subst hfeed
        have hone : [10] = left ++ 10 :: middle := hleft
        obtain ⟨rfl, hmiddle⟩ : left = [] ∧ middle = [] := by
          have hlength := congrArg List.length hone
          simp only [List.length_append, List.length_cons, List.length_nil] at hlength
          exact ⟨List.eq_nil_of_length_eq_zero (by omega),
            List.eq_nil_of_length_eq_zero (by omega)⟩
        exact ⟨[], text, rfl, rfl, by rw [hmiddle]; rfl⟩
  · rintro ⟨first, second, rfl, rfl, rfl⟩
    rw [encode_append]
    rfl

/-- Byte strings with a line feed between them are valid if both of them are. -/
theorem isText_append_feed_iff {left right : Bytes} :
    IsText (left ++ 10 :: right) ↔ IsText left ∧ IsText right := by
  constructor
  · rintro ⟨text, htext⟩
    obtain ⟨first, second, -, rfl, rfl⟩ := encode_eq_append_feed_iff.mp htext.symm
    exact ⟨isText_encode first, isText_encode second⟩
  · rintro ⟨⟨first, rfl⟩, second, rfl⟩
    exact ⟨first ++ '\n' :: second, (encode_eq_append_feed_iff.mpr ⟨_, _, rfl, rfl, rfl⟩).symm⟩

/-- Whether a byte string is made of lines that all end at a line feed. -/
def IsComplete (bytes : Bytes) : Prop := ∀ byte ∈ bytes.getLast?, byte = 10

/-- Whether a byte string is complete is seen from its last byte. -/
instance decidableIsComplete : DecidablePred IsComplete :=
  fun bytes => inferInstanceAs (Decidable (∀ byte ∈ bytes.getLast?, byte = 10))

/-- The last line of a complete byte string has its end. -/
theorem IsComplete.endsLine {bytes : Bytes} (hbytes : bytes.IsComplete) :
    EndsLine (fun byte => decide (byte = 10)) bytes :=
  fun byte hbyte => decide_eq_true (hbytes byte hbyte)

/-- Behind a complete byte string the lines begin anew. -/
theorem lines_append {first : Bytes} (hfirst : first.IsComplete) (second : Bytes) :
    lines (first ++ second) = lines first ++ lines second :=
  linesOf_append hfirst.endsLine second

/-- A complete byte string has as many lines as line feeds. -/
theorem length_lines {bytes : Bytes} (hbytes : bytes.IsComplete) :
    (lines bytes).length = bytes.count 10 :=
  length_linesOf hbytes.endsLine

/-- What stands before a line feed, or at the end, is the first line if it is not empty. -/
theorem lines_append_of_head? {line rest : Bytes} (hline : 10 ∉ line) (hne : line ≠ [])
    (hrest : ∀ byte ∈ rest.head?, byte = 10) : ∃ others, lines (line ++ rest) = line :: others :=
  linesOf_append_of_head? (fun _ hbyte => decide_eq_false (ne_of_mem_of_not_mem hbyte hline)) hne
    fun byte hbyte => decide_eq_true (hrest byte hbyte)

/-- The lines of an encoded text are its encoded lines. -/
theorem lines_encode_eq_map (text : Text) : lines (encode text) = (Text.lines text).map encode := by
  induction text with
  | nil => rfl
  | cons c text ih =>
    by_cases hfeed : c = '\n'
    · subst hfeed
      have hlines : Text.lines ('\n' :: text) = [] :: Text.lines text :=
        linesOf_append_cons (List.forall_mem_nil _) rfl text
      have hbytes : lines (10 :: encode text) = [] :: lines (encode text) :=
        linesOf_append_cons (List.forall_mem_nil _) rfl (encode text)
      rw [hlines, List.map_cons, ← ih]
      exact hbytes
    · have hchar : ∀ d ∈ [c], decide (d = '\n') = false :=
        List.forall_mem_singleton.mpr (decide_eq_false hfeed)
      have hends : ∀ byte ∈ String.utf8EncodeChar c, decide (byte = 10) = false :=
        fun byte hbyte => decide_eq_false (ne_of_mem_of_not_mem hbyte
          (mt mem_utf8EncodeChar_iff.mp hfeed))
      have hlines : Text.lines (c :: text) =
          (c :: (Text.lines text).headD []) :: (Text.lines text).tail :=
        linesOf_append_of_forall hchar (List.cons_ne_nil c []) text
      have hbytes : lines (String.utf8EncodeChar c ++ encode text) =
          (String.utf8EncodeChar c ++ (lines (encode text)).headD []) ::
            (lines (encode text)).tail :=
        linesOf_append_of_forall hends String.utf8EncodeChar_ne_nil (encode text)
      rw [encode_cons, hbytes, hlines, ih]
      cases Text.lines text <;> simp [encode]

/-- The lines of encoded lines, whatever bytes come after them. -/
theorem lines_encode {written : List Text} (hwritten : ∀ line ∈ written, '\n' ∉ line)
    (rest : Bytes) :
    lines (encode (written.flatMap Outcome.line) ++ rest) = written.map encode ++ lines rest := by
  induction written with
  | nil => rfl
  | cons line written ih =>
    rw [List.forall_mem_cons] at hwritten
    have hfeed : 10 ∉ encode line := mt mem_encode_iff.mp hwritten.1
    have hends : ∀ byte ∈ encode line, decide (byte = 10) = false :=
      fun byte hbyte => decide_eq_false (ne_of_mem_of_not_mem hbyte hfeed)
    have hfirst := linesOf_append_cons hends (decide_eq_true rfl)
      (encode (written.flatMap Outcome.line) ++ rest)
    rw [List.flatMap_cons, encode_append, encode_line, List.append_assoc, List.append_assoc,
      List.singleton_append, lines, hfirst, List.map_cons, List.cons_append, ← ih hwritten.2, lines]

end Bytes

end Surd
