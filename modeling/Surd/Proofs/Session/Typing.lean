import Surd.Proofs.LeadingMinus
import Surd.Proofs.Session.Filter
import Surd.Proofs.Splice

/-!
# Typing a text key by key

The keys that are typed into a buffer at rest are written one behind the other, but for zeros: a
buffer that holds a zero is at rest again, so the next key replaces it (`typed`). The zeros that are
lost in this way are leading zeros of the first number, or all of that number
(`Session.submit_run_append`).
-/

namespace Surd

/-- What keys leave in a buffer at rest: keys that are a zero are replaced up to the first other
key. -/
def typed : List Text → Text
  | [] => ['0']
  | key :: keys => if key = ['0'] then typed keys else key ++ keys.flatten

/-- Nothing but zeros in front is lost of the keys. -/
theorem exists_flatten_eq {keys : List Text} (hkeys : keys ≠ []) :
    ∃ n, keys.flatten = zeros n ++ typed keys := by
  induction keys with
  | nil => exact absurd rfl hkeys
  | cons key keys ih =>
    by_cases hzero : key = ['0']
    · subst hzero
      cases keys with
      | nil => exact ⟨0, rfl⟩
      | cons next keys =>
        obtain ⟨n, hflatten⟩ := ih (List.cons_ne_nil _ _)
        refine ⟨n + 1, ?_⟩
        rw [List.flatten_cons, hflatten]
        rfl
    · exact ⟨0, by simp [typed, hzero, zeros]⟩

/-- A buffer with characters that keys type is at rest only if it holds a zero. -/
theorem InputBuffer.isResting_eq_false {buffer : InputBuffer}
    (haccepts : accepts buffer.text = true) (hzero : buffer.text ≠ ['0']) :
    buffer.isResting = false := by
  have hletter : buffer.text ≠ ['E', 'r', 'r', 'o', 'r'] := by
    intro htext
    rw [htext] at haccepts
    exact absurd haccepts (by decide)
  simp [isResting, hzero, hletter]

namespace Session

variable {session : Session} {keys : List Text}

/-- Keys are written behind a text that is no zero. -/
theorem text_run_append_of_ne (haccepts : accepts (session.input.text ++ keys.flatten) = true)
    (hne : ∀ key ∈ keys, key ≠ []) (htext : session.input.text ≠ [])
    (hzero : session.input.text ≠ ['0']) :
    (session.run (keys.map .append)).input.text = session.input.text ++ keys.flatten := by
  induction keys generalizing session with
  | nil => simp
  | cons key keys ih =>
    rw [List.flatten_cons, ← List.append_assoc] at haccepts ⊢
    have hparts := haccepts
    rw [accepts, List.all_append, List.all_append, Bool.and_eq_true, Bool.and_eq_true] at hparts
    have happend : (session.perform (.append key)).2.input.text = session.input.text ++ key := by
      simp [perform, InputBuffer.append, InputBuffer.isResting_eq_false hparts.1.1 hzero]
    have hkey := hne key List.mem_cons_self
    have hgrown : session.input.text ++ key ≠ ['0'] := by
      intro hsame
      rcases List.append_eq_singleton_iff.mp hsame with ⟨h, -⟩ | ⟨-, h⟩
      · exact htext h
      · exact hkey h
    rw [List.map_cons, run_cons, ih _ (fun key hmem => hne key (List.mem_cons_of_mem _ hmem)),
      happend]
    · rw [happend]
      exact List.append_ne_nil_of_left_ne_nil htext _
    · rwa [happend]
    · rwa [happend]

/-- What keys leave in a buffer at rest. -/
theorem text_run_append (hresting : session.input = .initial) (hne : ∀ key ∈ keys, key ≠ [])
    (haccepts : accepts keys.flatten = true) :
    (session.run (keys.map .append)).input.text = typed keys := by
  induction keys generalizing session with
  | nil =>
    rw [List.map_nil, run_nil, hresting]
    rfl
  | cons key keys ih =>
    have happend : (session.perform (.append key)).2.input = ⟨key⟩ := by
      simp [perform, hresting, InputBuffer.append, InputBuffer.isResting, InputBuffer.initial]
    have hrest : ∀ key ∈ keys, key ≠ [] := fun key hmem => hne key (List.mem_cons_of_mem _ hmem)
    rw [List.map_cons, run_cons, typed]
    split
    next hzero =>
      rw [List.flatten_cons, accepts, List.all_append, Bool.and_eq_true] at haccepts
      exact ih (by rw [happend, hzero]; rfl) hrest haccepts.2
    next hzero =>
      rw [text_run_append_of_ne (by rwa [happend]) hrest, happend]
      · rw [happend]
        exact hne key List.mem_cons_self
      · rwa [happend]

/-- Keys that together are a text with a value, typed into a buffer at rest, leave that text without
the zeros in front that were keys of their own, and a submission gives what is left its value.

That is the value of the text if no zero is lost, or if a number is left in front. If a minus sign
with a number is left there, the values of a calculation are the same up to the sign of a zero,
unless the number is the base of a power. If anything else is left in front, there is no value. -/
theorem submit_run_append {value : Float} (hresting : session.input = .initial) (hkeys : keys ≠ [])
    (hne : ∀ key ∈ keys, key ≠ []) (haccepts : accepts keys.flatten = true)
    (hvalue : evaluate keys.flatten = .ok value) :
    let after := session.run (keys.map .append)
    let left := typed keys
    after.input.text = left ∧
      after.submit.1 = (evaluate left).mapError (fun diagnostic => .ofCause diagnostic.cause) ∧
      (left = keys.flatten ∨ beginsNumber left = true → after.submit.1 = .ok value) ∧
      (∀ rest, left = '-' :: rest → beginsNumber rest = true → beginsPower rest = false →
        IsCalculation (Frame.whole (normalize keys.flatten)).scan.tokens →
        ∃ other, after.submit.1 = .ok other ∧ Binary64.SameUpToZero other value) ∧
      (left ≠ keys.flatten → beginsNumber left = false →
        (∀ rest, left = '-' :: rest → beginsNumber rest = false) →
        ∃ notice, after.submit.1 = .error notice) := by
  intro after left
  have htext : after.input.text = left := text_run_append hresting hne haccepts
  have hok {other : Float} (h : evaluate left = .ok other) : after.submit.1 = .ok other :=
    fst_submit_eq_ok_iff.mpr (htext.symm ▸ h)
  obtain ⟨n, hflatten⟩ := exists_flatten_eq hkeys
  change keys.flatten = zeros n ++ left at hflatten
  have hblank : ∀ c ∈ left, isBlank c = false := by
    intro c hc
    rw [accepts_iff, hflatten] at haccepts
    exact isBlank_of_isKey (haccepts c (List.mem_append_right _ hc))
  rw [hflatten] at hvalue ⊢
  refine ⟨htext, by rw [fst_submit, htext], ?_, ?_, ?_⟩
  · rintro (hleft | hbegins)
    · exact hok (hleft ▸ hvalue)
    · exact hok (evaluate_of_zeros hblank hbegins hvalue)
  · intro rest hrest hbegins hpower hcalculation
    cases n with
    | zero => exact ⟨value, hok hvalue, .inl rfl⟩
    | succ n =>
      rw [hrest] at hcalculation hvalue hblank
      obtain ⟨other, hother, hsame⟩ := evaluate_of_zeros_minus
        (fun c hc => hblank c (List.mem_cons_of_mem _ hc)) hbegins hpower hcalculation hvalue
      exact ⟨other, hok (hrest ▸ hother), hsame⟩
  · intro hleft hbegins hminus
    cases n with
    | zero => exact absurd rfl hleft
    | succ n =>
      cases hfault : evaluate left with
      | ok other => exact absurd hfault (evaluate_ne_ok_of_zeros hblank hbegins hminus hvalue other)
      | error diagnostic =>
        rw [← htext] at hfault
        exact ⟨_, congrArg Prod.fst (submit_of_error hfault)⟩

/-- A zero in front of a number is not missed, nor is one that a product is subtracted from. -/
theorem submit_run_append_number_and_minus :
    (initial.run (["0", "0.", "5*sqrt(", "16)"].map fun key => .append key.toList)).submit.1 =
        .ok 2 ∧
      ∃ other, (initial.run (["0", "-5", "*2"].map fun key => .append key.toList)).submit.1 =
        .ok other ∧ Binary64.SameUpToZero other (-10) := by
  have hnumber := @submit_run_append initial ["0".toList, "0.".toList, "5*sqrt(".toList,
    "16)".toList] 2 rfl (by decide) (by decide) (by decide) (by decide +kernel)
  have hminus := @submit_run_append initial ["0".toList, "-5".toList, "*2".toList] (-10) rfl
    (by decide) (by decide) (by decide) (by decide +kernel)
  have htokens : (Frame.whole (normalize
      ["0".toList, "-5".toList, "*2".toList].flatten)).scan.tokens =
      [⟨.number 0, "0".toList, 0⟩] ++ ⟨.operator .sub, "-".toList, 1⟩ ::
        ([⟨.number 5, "5".toList, 2⟩] ++ ⟨.operator .mul, "*".toList, 3⟩ ::
          [⟨.number 2, "2".toList, 4⟩]) := by decide +kernel
  refine ⟨hnumber.2.2.1 (.inr (by decide)), hminus.2.2.2.1 "5*2".toList (by decide) (by decide)
    (by decide) ?_⟩
  rw [htokens]
  exact .binary rfl (.number rfl) (.binary rfl (.number rfl) (.number rfl))

/-- A zero that a product begins with is lost when it is a key of its own. -/
theorem submit_run_append_of_lost_zero :
    accepts "0*5".toList = true ∧ evaluate "0*5".toList = .ok 0 ∧
      ["0".toList, "*5".toList].flatten = "0*5".toList ∧
      ∀ value, (initial.run [.append "0".toList, .append "*5".toList]).submit.1 ≠ .ok value := by
  refine ⟨by decide, by decide +kernel, by decide, fun value hvalue => ?_⟩
  have hnone : (evaluate "*5".toList).toOption = none := by decide +kernel
  have hvalue : evaluate "*5".toList = .ok value := fst_submit_eq_ok_iff.mp hvalue
  rw [hvalue] at hnone
  cases hnone

end Session

end Surd
