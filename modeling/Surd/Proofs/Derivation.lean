import Surd.Proofs.Expression
import Surd.Proofs.Grammar
import Surd.Proofs.Token.Tiling

/-!
# Trees of calculations

The grammar of calculations says nothing about tiers, so it derives a text in many ways. One of them
groups as the tiers require: two trees with an operator between them can always be regrouped into
one (`Written.exists_grouped_binary`). So every calculation is the text of a grouped tree
(`exists_written_of_isCalculation`).
-/

namespace Surd

open Front

namespace Written

/-- What is of the tier of an operator, or of one below it, is a binary operation. -/
theorem exists_binary {written : Written} {op : Operator}
    (hle : written.tier ≤ Expression.tier op) :
    ∃ op' left right, written = binary op' left right := by
  have hop : Expression.tier op < 4 := by cases op <;> decide
  cases written with
  | binary op' left right => exact ⟨op', left, right, rfl⟩
  | number | group | root =>
    have hle : 4 ≤ Expression.tier op := hle
    omega

/-- Two trees with an operator between them are regrouped into one that is of the lowest tier of the
three. -/
theorem exists_grouped_binary (op : Operator) {left right : Written} (hleft : left.Grouped)
    (hright : right.Grouped) : ∃ written : Written, written.Grouped ∧
      written.text = left.text ++ op.symbol :: right.text ∧
      (Expression.tier op ≤ written.tier ∨ left.tier ≤ written.tier ∨
        right.tier ≤ written.tier) := by
  by_cases hlast : right.tier ≤ Expression.tier op ∧ right.tier ≤ left.tier
  · -- the operator of the right tree is applied last
    obtain ⟨op', middle, last, rfl⟩ := exists_binary hlast.1
    obtain ⟨hmiddle, hlastTier, hmiddleGrouped, hlastGrouped⟩ := hright
    obtain ⟨front, hfront, htext, htier⟩ := exists_grouped_binary op hleft hmiddleGrouped
    refine ⟨binary op' front last, ⟨?_, hlastTier, hfront, hlastGrouped⟩, ?_, ?_⟩
    · have hlast : Expression.tier op' ≤ Expression.tier op ∧ Expression.tier op' ≤ left.tier :=
        hlast
      omega
    · simp [text, htext]
    · exact .inr (.inr le_rfl)
  by_cases hfirst : left.tier < Expression.tier op ∧ left.tier < right.tier
  · -- the operator of the left tree is applied last
    obtain ⟨op', first, middle, rfl⟩ := exists_binary hfirst.1.le
    obtain ⟨hfirstTier, hmiddle, hfirstGrouped, hmiddleGrouped⟩ := hleft
    obtain ⟨tail, htail, htext, htier⟩ := exists_grouped_binary op hmiddleGrouped hright
    refine ⟨binary op' first tail, ⟨hfirstTier, ?_, hfirstGrouped, htail⟩, ?_, ?_⟩
    · have hfirst : Expression.tier op' < Expression.tier op ∧ Expression.tier op' < right.tier :=
        hfirst
      omega
    · simp [text, htext]
    · exact .inr (.inl le_rfl)
  · exact ⟨binary op left right, ⟨by omega, by omega, hleft, hright⟩, rfl, .inl le_rfl⟩
termination_by sizeOf left + sizeOf right

end Written

/-- A calculation is the text of a tree that is grouped as its tiers require. -/
theorem exists_written_of_isCalculation {tokens : List Token} (h : IsCalculation tokens)
    (hspelled : ∀ token ∈ tokens, token.Spelled) :
    ∃ written : Written, written.Grouped ∧ written.text = Token.join tokens := by
  induction h with
  | @number token value hnumber =>
    obtain ⟨lexeme, hkind, htext⟩ := hspelled token List.mem_cons_self
    rw [hnumber] at hkind
    cases lexeme with
    | number literal =>
      refine ⟨.number literal, trivial, ?_⟩
      simp [Token.join, ← htext, Written.text, Lexeme.text]
    | leftParen | rightParen | operator | root => cases hkind
  | @root token body scan hroot hscan hsound _ ih =>
    have hspelling := (hspelled token List.mem_cons_self).root hroot
    subst hscan
    obtain ⟨written, hgrouped, htext⟩ := ih fun token hmem => Scanner.spelled_of_mem hmem
    have hbody : written.text = body := htext.trans (Scanner.join_tokens hsound)
    refine ⟨.root written, hgrouped, ?_⟩
    simp [Token.join, hspelling.1, Written.text, hbody, Token.rootOpening]
  | @group opening closing tokens hleft hright _ ih =>
    obtain ⟨written, hgrouped, htext⟩ := ih fun token hmem => hspelled token (by simp [hmem])
    refine ⟨.group written, hgrouped, ?_⟩
    have hopening := (hspelled opening (by simp)).leftParen hleft
    have hclosing := (hspelled closing (by simp)).rightParen hright
    simp [Token.join, Written.text, hopening, hclosing, htext]
  | @binary left right token op hoperator _ _ ihleft ihright =>
    obtain ⟨leftWritten, hleft, hleftText⟩ :=
      ihleft fun token hmem => hspelled token (by simp [hmem])
    obtain ⟨rightWritten, hright, hrightText⟩ :=
      ihright fun token hmem => hspelled token (by simp [hmem])
    obtain ⟨written, hgrouped, htext, -⟩ := Written.exists_grouped_binary op hleft hright
    have hsymbol := (hspelled token (by simp)).operator hoperator
    refine ⟨written, hgrouped, ?_⟩
    simp [Token.join, htext, hleftText, hrightText, hsymbol]

end Surd
