import Mathlib.Data.List.Chain
import Mathlib.Data.List.Perm.Subperm
import Surd.Proofs.Evaluation.OpenGroups
import Surd.Proofs.Stretch

/-!
# What waits on the stack of operators

An operator is put above another one only if it binds tighter, for all that bind at least as tightly
are applied before it is put there. So from one open group to the next the operators that wait bind
tighter and tighter, and there are never more than three of them. What waits lies in the order in
which it was read, each entry at the place of the very character that it was read from, and the
groups among the entries are the parentheses that are still open (`pending_in_order`).
-/

namespace Surd

open Text Stacks

/-- The character that something on the stack of operators was read from. -/
def Pending.symbol : Pending → Char
  | group => '('
  | operator op => op.symbol

/-- The symbol of anything that waits is one byte long. -/
theorem Pending.utf8Size_symbol (waiting : Pending) : waiting.symbol.utf8Size = 1 := by
  cases waiting with
  | group => rfl
  | operator op => exact op.utf8Size_symbol

/-- A token that something waits for is written as its character. -/
theorem Token.Spelled.literal_eq_symbol {token : Token} (h : token.Spelled) {waiting : Pending}
    (hkind : token.kind = waiting.kind) : token.literal = [waiting.symbol] := by
  cases waiting with
  | group => exact h.leftParen hkind
  | operator op => exact h.operator hkind

/-- Each token of a scan stands behind those before it. -/
theorem Scanner.pairwise_offset (offset : Nat) (previous : Option Char) (text : Text) :
    (scan ⟨offset, previous, text⟩).tokens.Pairwise fun first second =>
      first.offset < second.offset := by
  induction offset, previous, text using scan_induction with
  | nil offset previous =>
    rw [scan_nil]
    exact .nil
  | fault offset previous c text cause hread =>
    rw [scan_of_error hread]
    exact .nil
  | token offset previous c text kind hread ih =>
    rw [scan_of_ok hread]
    refine .cons (fun second hsecond => ?_) ih
    obtain ⟨left, right, -, hplace⟩ := exists_place hsecond
    have hsome := bytes_pos (Front.literal_ne_nil previous c text)
    rw [hplace]
    dsimp only
    omega

/-! ## Operators above operators -/

namespace Stacks

variable {operands : List Float} {pending : List (Pending × Nat)}

/-- Where two operators wait one directly above the other, the upper one binds tighter. -/
def TighterAbove (upper lower : Pending × Nat) : Prop :=
  ∀ op op', upper.1 = .operator op → lower.1 = .operator op' → op'.precedence < op.precedence

/-- Of operators without a group between them each binds tighter than all that wait below it. -/
theorem pairwise_of_isChain (hchain : pending.IsChain TighterAbove)
    {above below : List (Pending × Nat)} {run : List (Operator × Nat)}
    (hpending : pending = above ++ operatorRun run ++ below) :
    run.Pairwise fun upper lower => lower.1.precedence < upper.1.precedence := by
  have hrun : (operatorRun run).IsChain TighterAbove := hchain.infix ⟨above, below, hpending.symm⟩
  rw [operatorRun, List.isChain_map] at hrun
  have hprecedences : (run.map fun entry => entry.1.precedence).IsChain (· > ·) :=
    (List.isChain_map _).mpr (hrun.imp fun upper lower htighter =>
      htighter upper.1 lower.1 rfl rfl)
  exact List.pairwise_map.mp hprecedences.pairwise

/-- There are three precedences, so no more than three operators can bind tighter and tighter. -/
theorem length_le_of_pairwise {run : List (Operator × Nat)}
    (hrun : run.Pairwise fun upper lower => lower.1.precedence < upper.1.precedence) :
    run.length ≤ 3 := by
  have hdistinct : (run.map fun entry => entry.1.precedence).Nodup := by
    rw [List.Nodup, List.pairwise_map]
    exact hrun.imp fun hlower => hlower.ne'
  have hvalues : (run.map fun entry => entry.1.precedence) ⊆ [1, 2, 4] := by
    intro precedence hmem
    obtain ⟨entry, -, rfl⟩ := List.mem_map.mp hmem
    cases entry.1 <;> decide
  have hlength := (hdistinct.subperm hvalues).length_le
  rwa [List.length_map] at hlength

end Stacks

namespace Frame

open Stacks

variable {waiting next : Stacks} {token : Token} {tokens read : List Token}

/-- A token that is read keeps operators above those that bind less tightly. -/
theorem isChain_of_feed (hchain : waiting.pending.IsChain TighterAbove)
    (hfeed : feed evaluate waiting token = .ok next) : next.pending.IsChain TighterAbove := by
  cases reads_of_feed hfeed with
  | number | root => exact hchain
  | leftParen hkind => exact hchain.cons fun lower _ op op' hgroup => by cases hgroup
  | rightParen hkind hclose => exact hchain.suffix (suffix_of_closeGroup hclose)
  | operator hkind hreduce =>
    obtain ⟨run, -, -, hhead⟩ := exists_run_of_reduce hreduce
    refine (hchain.suffix (suffix_of_reduce hreduce)).cons fun lower hlower op op' hop hop' => ?_
    cases hop
    exact hhead lower hlower op' hop'

/-- From empty stacks on, operators wait above those that bind less tightly. -/
theorem isChain_of_feedAll_empty (hfeed : feedAll tokens .empty = .ok next) :
    next.pending.IsChain TighterAbove := by
  have hempty : empty.pending.IsChain TighterAbove := .nil
  exact feedAll_induction (motive := fun _ waiting => waiting.pending.IsChain TighterAbove)
    (fun _ _ _ _ => isChain_of_feed) [] hempty hfeed

end Frame

/-! ## Parentheses that are still open -/

/-- The places of the opening parentheses among tokens that none of the tokens behind them closes,
the last one first. -/
def openPlaces : List Token → List Nat
  | [] => []
  | token :: tokens =>
    openPlaces tokens ++
      if token.kind = .leftParen ∧ (tokenDepth? 0 tokens).isSome then [token.offset] else []

/-- Tokens that close no more than they open leave open what is open before them. -/
theorem openPlaces_append {first second : List Token} {depth : Nat}
    (hdepth : tokenDepth? 0 second = some depth) :
    openPlaces (first ++ second) = openPlaces second ++ openPlaces first := by
  induction first with
  | nil => rw [openPlaces, List.nil_append, List.append_nil]
  | cons token first ih =>
    have hsame : (tokenDepth? 0 (first ++ second)).isSome = (tokenDepth? 0 first).isSome := by
      rw [tokenDepth?_append]
      cases tokenDepth? 0 first with
      | none => rfl
      | some inner =>
        have hmore := tokenDepth?_add hdepth inner
        rw [Nat.zero_add] at hmore
        rw [Option.bind_some, hmore]
        rfl
    rw [List.cons_append, openPlaces, openPlaces, ih, hsame, List.append_assoc]

/-- Tokens that close all that is open, with what they open themselves, leave nothing open. -/
theorem openPlaces_of_closed {tokens : List Token} {depth : Nat}
    (hdepth : tokenDepth? depth tokens = some 0) : openPlaces tokens = [] := by
  induction tokens generalizing depth with
  | nil => rfl
  | cons token tokens ih =>
    rw [tokenDepth?_cons, Option.bind_eq_some_iff] at hdepth
    obtain ⟨inner, hfirst, hrest⟩ := hdepth
    rw [openPlaces, ih hrest, List.nil_append, if_neg]
    rintro ⟨hkind, hopen⟩
    obtain ⟨left, hleft⟩ := Option.isSome_iff_exists.mp hopen
    have hinner : inner = depth + 1 := by
      simp only [tokenDepth?, hkind, Option.some.injEq] at hfirst
      exact hfirst.symm
    have hmore := tokenDepth?_add hleft inner
    rw [Nat.zero_add, hrest, hinner] at hmore
    cases hmore

/-- What tokens leave open are the parentheses that none of the tokens behind them closes. -/
theorem LeavesOpen.eq_openPlaces {tokens : List Token} {places : List Nat}
    (h : LeavesOpen tokens places) : places = openPlaces tokens := by
  induction h with
  | none hdepth => exact (openPlaces_of_closed hdepth).symm
  | @cons before after token places hbefore hkind hafter ih =>
    have hopen : tokenDepth? 0 (token :: after) = some 1 := by
      have hmore := tokenDepth?_add hafter 1
      simp only [tokenDepth?, hkind]
      exact hmore
    rw [openPlaces_append hopen, openPlaces, openPlaces_of_closed hafter, hafter,
      if_pos ⟨hkind, rfl⟩, ih]
    rfl

/-! ## The order of the stack -/

/-- Whatever tokens of a frame have been read, be it the frame of a text or of a root in it at any
depth, three things hold of what waits on the stack of operators. In any stretch without a group the
operators bind tighter the further above they wait, so that there are three of them at most. From
below to above, the entries were read from tokens in the order of these; so their places increase,
and at each place of the text stands the character that was read. And the groups are the parentheses
that were opened and not closed since, in their order. -/
theorem pending_in_order {source : Text} {frame : Frame} {read rest : List Token} {waiting : Stacks}
    (hframe : frame ∈ (Frame.whole source).frames)
    (htokens : frame.scan.tokens = read ++ rest)
    (hfeed : Frame.feedAll read .empty = .ok waiting) :
    (∀ above run below, waiting.pending = above ++ operatorRun run ++ below →
      (run.Pairwise fun upper lower => lower.1.precedence < upper.1.precedence) ∧
        run.length ≤ 3) ∧
    (ReadInOrder read waiting ∧
      (waiting.pending.Pairwise fun upper lower => lower.2 < upper.2) ∧
      ∀ entry ∈ waiting.pending,
        Span.Marks ⟨entry.2, entry.2 + 1⟩ source [entry.1.symbol]) ∧
    groupPlaces waiting.pending = openPlaces read := by
  have horder := Frame.readInOrder_of_feedAll_empty hfeed
  refine ⟨fun above run below hpending => ?_, ⟨horder, ?_, fun entry hentry => ?_⟩, ?_⟩
  · have hrun := pairwise_of_isChain (Frame.isChain_of_feedAll_empty hfeed) hpending
    exact ⟨hrun, length_le_of_pairwise hrun⟩
  · have hscan : (read ++ rest).Pairwise fun first second => first.offset < second.offset :=
      htokens ▸ Scanner.pairwise_offset frame.offset none frame.text
    have hread : (read.map fun token => (token.kind, token.offset)).Pairwise fun first second =>
        first.2 < second.2 :=
      List.pairwise_map.mpr (List.pairwise_append.mp hscan).1
    exact List.pairwise_map.mp (List.pairwise_reverse.mp (hread.sublist horder))
  · obtain ⟨token, htoken, hkind, hoffset⟩ := horder.readFrom entry hentry
    have hmem : token ∈ frame.scan.tokens := htokens ▸ List.mem_append_left rest htoken
    have hwhole : (Frame.whole source).span.Marks source source :=
      ⟨[], [], (List.append_nil _).symm, rfl⟩
    have hmarks := Frame.marks_of_mem_tokens (Frame.marks_of_mem_frames hwhole hframe) hmem
    rw [Token.span, (Scanner.spelled_of_mem hmem).literal_eq_symbol hkind, hoffset, Span.of,
      bytes_cons, entry.1.utf8Size_symbol] at hmarks
    exact hmarks
  · exact (Frame.leavesOpen_of_feedAll_empty hfeed).eq_openPlaces

/-- In a root, where three operators wait below an open group and two above it. -/
theorem pending_in_order_nested :
    let read := (Frame.mk 6 "2+3*4^(5-6/8)".toList).scan.tokens.take 11
    let pending := [(Pending.operator .div, 16), (.operator .sub, 14), (.group, 12),
      (.operator .pow, 11), (.operator .mul, 9), (.operator .add, 7)]
    (Frame.feedAll read .empty).map Stacks.pending = .ok pending ∧
      ([(Operator.pow, 11), (.mul, 9), (.add, 7)].Pairwise fun upper lower =>
        lower.1.precedence < upper.1.precedence) ∧
      (∀ entry ∈ pending,
        Span.Marks ⟨entry.2, entry.2 + 1⟩ "7*√(2+3*4^(5-6/8))".toList [entry.1.symbol]) ∧
      openPlaces read = [12] := by
  intro read pending
  have hfeed : (Frame.feedAll read .empty).map Stacks.pending = .ok pending := by decide +kernel
  have hargument : Frame.mk 6 "2+3*4^(5-6/8)".toList ∈
      (Frame.whole "7*√(2+3*4^(5-6/8))".toList).arguments :=
    Frame.mem_arguments_iff.mpr
      ⟨⟨.root "2+3*4^(5-6/8)".toList, "√(2+3*4^(5-6/8))".toList, 2⟩, by decide +kernel, _, rfl, rfl⟩
  have hframe := Frame.mem_frames_iff.mpr (.inr ⟨_, hargument, Frame.self_mem_frames _⟩)
  refine ⟨hfeed, ?_⟩
  cases hwaiting : Frame.feedAll read .empty with
  | error fault =>
    rw [hwaiting] at hfeed
    cases hfeed
  | ok waiting =>
    rw [hwaiting] at hfeed
    have hpending : waiting.pending = pending := Except.ok.inj hfeed
    obtain ⟨hruns, ⟨-, -, hmarks⟩, hgroups⟩ :=
      pending_in_order hframe (List.take_append_drop 11 _).symm hwaiting
    rw [hpending] at hruns hmarks hgroups
    exact ⟨(hruns [(.operator .div, 16), (.operator .sub, 14), (.group, 12)] _ [] rfl).1, hmarks,
      hgroups.symm⟩

end Surd
