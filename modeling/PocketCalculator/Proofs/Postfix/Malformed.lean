import PocketCalculator.Proofs.Expression.Spacing
import PocketCalculator.Proofs.Float.Sign
import PocketCalculator.Proofs.Postfix.TreeEvaluation
import PocketCalculator.Proofs.Postfix.Unopened

/-!
# What makes an expression malformed

The numbers of an expression are numerals, and each numeral is read as a float that is at least zero
(`Token.IsSpelled.exists_value`). So no number makes an expression malformed: a parenthesis does
that nothing opened, an operator that lacks an operand, or an operand that is left over
(`exists_value_and_malformed_iff`).
-/

namespace PocketCalculator

theorem Decimal.nonneg_toFloat (d : Decimal) : ¬ d.toFloat.isNaN ∧ 0 ≤ d.toFloat :=
  nonneg_ofScientific d.coefficient _ _

theorem Token.IsSpelled.exists_value {text : String} (h : (Token.number text).IsSpelled) :
    ∃ x, (Token.number text).value = .ok x ∧ ¬ x.isNaN ∧ 0 ≤ x := by
  obtain ⟨d, hd⟩ := exists_spells h
  have hvalue := hd.value_eq
  rw [String.ofList_toList] at hvalue
  exact ⟨d.toFloat, hvalue, d.nonneg_toFloat⟩

/-! ### Failing steps -/

def Arity.operandCount : Arity → Nat
  | unary => 1
  | binary => 2

namespace Postfix

variable {t : Token} {ts : List Token} {values : List Float} {e : CalculationError}

theorem push_eq_malformed_iff (hspelled : t.IsSpelled) (hplain : t.isParenthesis = false) :
    push values t = .error .malformed ↔
      ∃ op, t = .operator op ∧ values.length < op.arity.operandCount := by
  cases t with
  | openParenthesis | closeParenthesis => cases hplain
  | number text =>
    obtain ⟨x, hx, -⟩ := hspelled.exists_value
    rw [push_number, hx]
    simp
  | operator op =>
    simp only [Token.operator.injEq, exists_eq_left']
    constructor
    · intro h
      by_contra henough
      cases hop : op.arity with
      | unary =>
        match values with
        | [] => simp [hop, Arity.operandCount] at henough
        | x :: below =>
          rw [push_unary hop, Except.bind_eq_error_iff] at h
          obtain hfail | ⟨_, _, hdone⟩ := h
          · exact Operator.ne_malformed_of_unaryValue hop hfail rfl
          · cases hdone
      | binary =>
        match values with
        | [] | [_] => simp [hop, Arity.operandCount] at henough
        | y :: x :: below =>
          rw [push_binary hop, Except.bind_eq_error_iff] at h
          obtain hfail | ⟨_, _, hdone⟩ := h
          · exact Operator.ne_malformed_of_binaryValue hop hfail rfl
          · cases hdone
    · intro hfew
      apply push_operator_of_too_few
      · intro hop
        rw [hop] at hfew
        exact List.length_eq_zero_iff.mp (Nat.lt_one_iff.mp hfew)
      · intro hop
        rwa [hop] at hfew

theorem conclude_eq_malformed_iff : conclude values = .error .malformed ↔ values.length ≠ 1 := by
  match values with
  | [] | _ :: _ :: _ => simp [conclude]
  | [x] => exact iff_of_false (conclude_singleton_ne_error (by decide) x) (by simp)

/-- Where there is a token, the last one leaves a value. -/
theorem run_eq_ok_nil_iff : run [] ts = .ok [] ↔ ts = [] := by
  constructor
  · intro h
    rcases List.eq_nil_or_concat ts with rfl | ⟨before, t, rfl⟩
    · rfl
    · rw [List.concat_eq_append, run_append] at h
      obtain ⟨found, -, hlast⟩ := Except.bind_eq_ok_iff.mp h
      rw [run_cons] at hlast
      obtain ⟨next, hpush, hdone⟩ := Except.bind_eq_ok_iff.mp hlast
      obtain ⟨v, below, -, rfl⟩ := exists_reduce_of_push hpush
      cases hdone
  · rintro rfl
    rfl

/-- Some operator finds fewer values than it takes operands, or there is no token at all. -/
def LacksOperand (ts : List Token) : Prop :=
  ts = [] ∨ ∃ before op after values, ts = before ++ .operator op :: after ∧
    run [] before = .ok values ∧ values.length < op.arity.operandCount

/-- Besides the result an operand is left over. -/
def LeavesOperand (ts : List Token) : Prop :=
  ∃ values, run [] ts = .ok values ∧ 1 < values.length

theorem run_eq_malformed_iff (hspelled : ∀ t ∈ ts, t.IsSpelled)
    (hplain : ∀ t ∈ ts, t.isParenthesis = false) :
    run [] ts = .error .malformed ↔ ∃ before op after values, ts = before ++ .operator op :: after ∧
      run [] before = .ok values ∧ values.length < op.arity.operandCount := by
  rw [run_eq_error_iff]
  constructor
  · rintro ⟨before, t, after, values, rfl, hrun, hfail⟩
    have hmem : t ∈ before ++ t :: after := by simp
    obtain ⟨op, rfl, hfew⟩ :=
      (push_eq_malformed_iff (hspelled t hmem) (hplain t hmem)).mp hfail
    exact ⟨before, op, after, values, rfl, hrun, hfew⟩
  · rintro ⟨before, op, after, values, rfl, hrun, hfew⟩
    have hmem : Token.operator op ∈ before ++ .operator op :: after := by simp
    exact ⟨before, .operator op, after, values, rfl, hrun,
      (push_eq_malformed_iff (hspelled _ hmem) (hplain _ hmem)).mpr ⟨op, rfl, hfew⟩⟩

theorem evaluate_eq_malformed_iff (hspelled : ∀ t ∈ ts, t.IsSpelled)
    (hplain : ∀ t ∈ ts, t.isParenthesis = false) :
    evaluate ts = .error .malformed ↔ LacksOperand ts ∨ LeavesOperand ts := by
  rw [evaluate, Except.bind_eq_error_iff, run_eq_malformed_iff hspelled hplain]
  simp only [conclude_eq_malformed_iff]
  constructor
  · rintro (hlacks | ⟨values, hrun, hlength⟩)
    · exact .inl (.inr hlacks)
    · rcases Nat.lt_or_gt_of_ne hlength with hfew | hmany
      · rw [List.length_eq_zero_iff.mp (Nat.lt_one_iff.mp hfew)] at hrun
        exact .inl (.inl (run_eq_ok_nil_iff.mp hrun))
      · exact .inr ⟨values, hrun, hmany⟩
  · rintro ((rfl | hlacks) | ⟨values, hrun, hmany⟩)
    · exact .inr ⟨[], rfl, Nat.zero_ne_one⟩
    · exact .inl hlacks
    · exact .inr ⟨values, hrun, hmany.ne'⟩

theorem ofExpression_eq_malformed_iff {expression : String} :
    ofExpression expression = .error .malformed ↔ Unopened (tokenize expression) := by
  rw [ofExpression, ofInfix_eq_error_iff, unopened_iff]
  exact and_iff_left rfl

end Postfix

/-- Each number of an expression, and each number that it has in postfix order, is read as a number
or infinity, and not below zero. So an expression is malformed exactly where a parenthesis closes
that nothing opened, where an operand is missing, or where one is left over. -/
theorem exists_value_and_malformed_iff (expression : String) :
    (∀ text, (.number text ∈ tokenize expression ∨ ∃ postfixed,
        Postfix.ofExpression expression = .ok postfixed ∧ .number text ∈ postfixed) →
      ∃ x, (Token.number text).value = .ok x ∧ ¬ x.isNaN ∧ 0 ≤ x) ∧
    (calculate expression = .error .malformed ↔
      Unopened (tokenize expression) ∨ ∃ postfixed,
        Postfix.ofExpression expression = .ok postfixed ∧
          (Postfix.LacksOperand postfixed ∨ Postfix.LeavesOperand postfixed)) := by
  constructor
  · rintro text (hmem | ⟨postfixed, hconvert, hmem⟩)
    · exact (Token.isSpelled_of_mem_tokenize hmem).exists_value
    · exact (Postfix.isSpelled_of_ofExpression hconvert _ hmem).exists_value
  · rw [calculate, Except.bind_eq_error_iff, Postfix.ofExpression_eq_malformed_iff]
    apply or_congr_right
    apply exists_congr
    intro postfixed
    apply and_congr_right
    intro hconvert
    exact Postfix.evaluate_eq_malformed_iff (Postfix.isSpelled_of_ofExpression hconvert)
      (Postfix.isParenthesis_eq_false_of_ofInfix hconvert)

/-- The number `1.E+0999` is read as infinity. -/
theorem calculate_number_beyond_floats :
    (∃ x, (Token.number "1.E+0999").value = .ok x ∧ ¬ x.isNaN ∧ 0 ≤ x) ∧
      calculate "00 / (1.E+0999) 7." = .error .malformed := by
  obtain ⟨hvalue, hmalformed⟩ := exists_value_and_malformed_iff "00 / (1.E+0999) 7."
  have htokens : tokenize "00 / (1.E+0999) 7." = [.number "00", .operator .divide,
      .openParenthesis, .number "1.E+0999", .closeParenthesis, .number "7."] := by
    decide +kernel
  refine ⟨hvalue "1.E+0999" (.inl (by simp [htokens])), hmalformed.mpr (.inr ?_)⟩
  have hpostfixed : Postfix.ofExpression "00 / (1.E+0999) 7." = .ok [.number "00",
      .number "1.E+0999", .number "7.", .operator .divide] := by
    rw [Postfix.ofExpression, htokens]
    rfl
  refine ⟨_, hpostfixed, .inr ⟨[1 / 0, 0], ?_, by simp⟩⟩
  decide +kernel

end PocketCalculator
