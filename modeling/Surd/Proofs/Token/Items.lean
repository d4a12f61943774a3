import Surd.Proofs.Token.Concatenation

/-!
# What a scanner yields, item by item

A scanner knows where its stretch of a text begins, but not the text around it. Still the tokens
that it yields lie one behind the other in that text, from the start of the stretch to its end or to
the fault that ends the scan (`Scanner.items_tile`).
-/

namespace Surd

open Front

/-- The argument of a root lies between the four bytes of its opening and the one that closes it. -/
theorem Token.bodySpan?_of_root {token : Token} {source body : Text}
    (hkind : token.kind = .root body) (hliteral : token.literal = rootOpening ++ body ++ [')'])
    (hmarks : token.span.Marks source token.literal) :
    token.bodySpan? = some ⟨token.span.start + 4, token.span.stop - 1⟩ ∧
      Span.Marks ⟨token.span.start + 4, token.span.stop - 1⟩ source body := by
  obtain ⟨before, after, hsource, hspan⟩ := hmarks
  have hopening : Text.bytes rootOpening = 4 := by decide
  have hclosing : Text.bytes [')'] = 1 := by decide
  have hstart : token.offset = Text.bytes before := congrArg Span.start hspan
  have hstop : token.span.stop - 1 = Text.bytes before + 4 + Text.bytes body := by
    simp only [span, Span.of, hliteral, hstart, Text.bytes_append, hopening, hclosing]
    omega
  rw [hstop]
  constructor
  · simp only [bodySpan?, hkind, span, Span.of, hopening, hstart]
  · refine ⟨before ++ rootOpening, ')' :: after, ?_, ?_⟩
    · rw [hsource, hliteral]
      simp only [List.append_assoc, List.cons_append, List.nil_append]
    · simp only [span, Span.of, Text.bytes_append, hopening, hstart]

/-- A text that has characters has bytes. -/
theorem Text.bytes_pos {text : Text} (hsome : text ≠ []) : 0 < Text.bytes text := by
  obtain ⟨c, rest, rfl⟩ := List.exists_cons_of_ne_nil hsome
  exact Nat.add_pos_left c.utf8Size_pos _

/-- `Tiles source start stop items` says that items lie one behind the other in a text, from `start`
up to `stop` unless a fault comes before: each token begins where the one before it ends and covers
its literal, a root has its argument between four bytes and one, and nothing comes after a fault. -/
inductive Tiles (source : Text) : Nat → Nat → List (Except Fault Token) → Prop
  | done (stop : Nat) : Tiles source stop stop []
  | token {stop : Nat} {token : Token} {items : List (Except Fault Token)}
    (hsome : token.span.start < token.span.stop)
    (hliteral : token.span.Marks source token.literal)
    (hbody : ∀ body, token.kind = .root body →
      token.bodySpan? = some ⟨token.span.start + 4, token.span.stop - 1⟩ ∧
        Span.Marks ⟨token.span.start + 4, token.span.stop - 1⟩ source body)
    (hrest : Tiles source token.span.stop stop items) :
    Tiles source token.span.start stop (.ok token :: items)
  | fault {stop : Nat} {fault : Fault} {piece : Text} (hsome : piece ≠ [])
    (hpiece : fault.span.Marks source piece) (hstop : fault.span.stop ≤ stop) :
    Tiles source fault.span.start stop [.error fault]

namespace Scanner

/-- What is read at the front of the rest of a stretch is a piece of the text around it. -/
theorem marks_literal (previous : Option Char) (before : Text) (c : Char) (text after : Text) :
    Span.Marks (.of (Text.bytes before) (read previous c text).literal)
      (before ++ (c :: text) ++ after) (read previous c text).literal := by
  refine ⟨before, (read previous c text).rest ++ after, ?_, rfl⟩
  rw [← literal_append_rest previous c text]
  simp only [List.append_assoc]

/-- A scanner that stands anywhere in a text yields items that tile what it has left to read. -/
theorem tiles_items (previous : Option Char) (before text after : Text) :
    Tiles (before ++ text ++ after) (Text.bytes before) (Text.bytes (before ++ text))
      (items ⟨Text.bytes before, previous, text⟩) := by
  induction hoffset : Text.bytes before, previous, text using scan_induction
    generalizing before with
  | nil offset previous =>
    rw [items_nil, List.append_nil, hoffset]
    exact .done offset
  | fault offset previous c text cause hread =>
    subst hoffset
    rw [items_of_next (next_of_error hread), items_nil]
    refine @Tiles.fault _ _ ⟨cause, _⟩ _ (literal_ne_nil previous c text)
      (marks_literal previous before c text after) ?_
    rw [Text.bytes_append, ← bytes_literal_add previous c text]
    exact Nat.add_le_add_left (Nat.le_add_right _ _) _
  | token offset previous c text kind hread ih =>
    subst hoffset
    have hmarks := marks_literal previous before c text after
    have hrest := ih (before ++ (read previous c text).literal) (Text.bytes_append ..)
    rw [List.append_assoc before, literal_append_rest] at hrest
    rw [items_of_next (next_of_ok hread)]
    refine @Tiles.token _ _ ⟨kind, _, _⟩ _ ?_ hmarks (fun body hkind => ?_) hrest
    · exact Nat.lt_add_of_pos_right (Text.bytes_pos (literal_ne_nil previous c text))
    · subst hkind
      exact Token.bodySpan?_of_root rfl (literal_of_root hread) hmarks

/-- A scanner yields its first item and then the others, or it has none and stays as it is. -/
theorem next_cases (scanner : Scanner) :
    (scanner.next = (none, scanner) ∧ scanner.items = []) ∨
      ∃ item after, scanner.next = (some item, after) ∧ scanner.items = item :: after.items := by
  obtain ⟨offset, previous, rest⟩ := scanner
  cases rest with
  | nil => exact .inl ⟨rfl, items_nil offset previous⟩
  | cons c text =>
    right
    cases hread : (read previous c text).reading with
    | ok kind => exact ⟨_, _, next_of_ok hread, items_of_next (next_of_ok hread)⟩
    | error cause => exact ⟨_, _, next_of_error hread, items_of_next (next_of_error hread)⟩

/-- Asked again and again, a scanner yields its items in order, and behind the last one nothing. -/
theorem next_steps (scanner : Scanner) (n : Nat) :
    (scanner.steps n).next.1 = scanner.items[n]? := by
  induction n generalizing scanner with
  | zero =>
    rcases scanner.next_cases with ⟨hnext, hitems⟩ | ⟨item, after, hnext, hitems⟩
    · rw [steps, hnext, hitems, List.getElem?_nil]
    · rw [steps, hnext, hitems, List.getElem?_cons_zero]
  | succ n ih =>
    rw [steps, ih]
    rcases scanner.next_cases with ⟨hnext, hitems⟩ | ⟨item, after, hnext, hitems⟩
    · rw [hnext, hitems, List.getElem?_nil, List.getElem?_nil]
    · rw [hnext, hitems, List.getElem?_cons_succ]

/-- Over a text, or over any stretch of one that begins and ends between two characters, the items
that a scanner yields tile the stretch: no byte is left out or read twice. Tokens without a fault
reach to its end, a fault begins where the last token ends and is the last item, and asked again
behind the last item the scanner yields nothing. -/
theorem items_tile (before text after : Text) :
    let scanner := start (Text.bytes before) text
    Tiles (before ++ text ++ after) (Text.bytes before) (Text.bytes (before ++ text))
        scanner.items ∧
      ∀ n, (scanner.steps n).next.1 = scanner.items[n]? :=
  ⟨tiles_items none before text after, next_steps _⟩

end Scanner

end Surd
