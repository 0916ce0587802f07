import PocketCalculator.Proofs.Postfix.Minus

/-!
# An operator after a percent sign

The percent sign binds loosest. A product, quotient or power that is written behind it comes first,
and the hundredth is taken of what comes of that: `X % * Y` is converted as `( X * Y ) %` is
(`Operand.ofInfix_percent_operator`). Rounding and overflow tell this from the product of the
hundredth, and for a power the two differ altogether.
-/

namespace PocketCalculator

variable {op : Operator} {left right : Operand} {ts handedOut : List Token}

/-- The operators that bind tighter than a percent sign and have an operand written before them. -/
def Operator.bindingTighter : List Operator :=
  [.multiply, .divide, .power]

namespace Operator

variable (h : op ∈ bindingTighter)
include h

theorem not_appliesBefore_of_mem_bindingTighter : ¬ percent.AppliesBefore op := by
  cases op <;> first | decide | exact absurd h (by decide)

theorem arity_of_mem_bindingTighter : op.arity = .binary := by
  cases op <;> first | rfl | exact absurd h (by decide)

theorem omittedOperand?_of_mem_bindingTighter (previous : Option Token) :
    omittedOperand? previous op = none := by
  apply omittedOperand?_eq_none
  · rintro rfl
    exact absurd h (by decide)
  · rintro rfl
    exact absurd h (by decide)

end Operator

/-! ### Tokens in postfix order -/

namespace Operand

/-- The operation on two operands, in parentheses. -/
def joined (left : Operand) (op : Operator) (right : Operand) : Operand :=
  group (left.tokens ++ .operator op :: right.tokens)
    (left.balanced_tokens.append (right.balanced_tokens.cons_operator op))

theorem converted_joined (hop : op ≠ .root) :
    (left.joined op right).converted = left.converted ++ right.converted ++ [.operator op] := by
  apply Except.ok.inj
  rw [joined, ← ofInfix_contents, List.append_cons]
  exact Conversion.ofInfix_append_operand (Conversion.run_operand_operator left hop) right

/-- The percent sign waits until the operator has its operands. -/
theorem ofInfix_percent_operator (left right : Operand) (h : op ∈ Operator.bindingTighter) :
    Postfix.ofInfix (left.tokens ++ .operator .percent :: .operator op :: right.tokens) =
      .ok (left.converted ++ right.converted ++ [.operator op, .operator .percent]) := by
  have hrelease : Pending.release op [.operator .percent] = ([], [.operator .percent]) := by
    rw [Pending.release, if_neg (Operator.not_appliesBefore_of_mem_bindingTighter h)]
  have hoperator : (Conversion.afterOperator .percent []).run [.operator op] =
      .ok ([], Conversion.afterOperator op [.operator .percent]) := by
    rw [Conversion.run_singleton, Conversion.step_operator,
      Operator.omittedOperand?_of_mem_bindingTighter h, Conversion.afterOperator, hrelease]
    rfl
  obtain ⟨previous, hright, -⟩ :=
    right.run_tokens (Conversion.afterOperator op [.operator .percent])
  have hpercent : Operator.percent ≠ .root := by decide
  have hall := Postfix.ofInfix_of_run (Conversion.run_append_of_ok
    (Conversion.run_append_of_ok (Conversion.run_operand_operator left hpercent) hoperator) hright)
  simpa [Conversion.finish, Conversion.afterOperator, Pending.closeAll, Pending.token?] using hall

theorem ofInfix_closed_operator (left right : Operand) (h : op ∈ Operator.bindingTighter) :
    Postfix.ofInfix ((left.closed .percent).tokens ++ .operator op :: right.tokens) =
      .ok (left.converted ++ .operator .percent :: right.converted ++ [.operator op]) := by
  have hroot : op ≠ .root := by
    rintro rfl
    exact absurd h (by decide)
  have hall := Conversion.ofInfix_append_operand
    (Conversion.run_operand_operator (left.closed .percent) hroot) right
  rw [left.converted_closed (by decide)] at hall
  simpa using hall

end Operand

/-! ### Outcomes -/

namespace OperatorTree

theorem evaluate_percent_operator (h : op.arity = .binary) (a b : OperatorTree) :
    Postfix.evaluate (unary .percent rfl (binary op h a b)).listing = (do
      let x ← a.value
      let y ← b.value
      let z ← op.binaryValue x y
      Postfix.conclude [z / 100]) := by
  rw [evaluate_listing]
  simp only [value, bind_assoc]
  rfl

theorem evaluate_closed_operator (h : op.arity = .binary) (a b : OperatorTree) :
    Postfix.evaluate (binary op h (unary .percent rfl a) b).listing = (do
      let x ← a.value
      let y ← b.value
      let z ← op.binaryValue (x / 100) y
      Postfix.conclude [z]) := by
  rw [evaluate_listing]
  simp only [value, bind_assoc]
  rfl

theorem percent_operator_iff (h : op.arity = .binary) (a b : OperatorTree) :
    Postfix.evaluate (unary .percent rfl (binary op h a b)).listing =
        Postfix.evaluate (binary op h (unary .percent rfl a) b).listing ↔
      ∀ x y, a.value = .ok x → b.value = .ok y →
        (do Postfix.conclude [(← op.binaryValue x y) / 100]) =
          (do Postfix.conclude [← op.binaryValue (x / 100) y]) := by
  rw [evaluate_percent_operator, evaluate_closed_operator]
  cases ha : a.value with
  | error e => simp
  | ok x =>
    cases hb : b.value with
    | error e => simp
    | ok y => simp

end OperatorTree

namespace Operand

/-- A product, quotient or power behind a percent sign belongs to the operand of the percent sign.
This is the outcome for the percent sign alone in parentheses only if the hundredth of the result is
the result for the hundredth, or both fail alike. -/
theorem outcome_percent_operator (left right : Operand) (op : Operator)
    (h : op ∈ Operator.bindingTighter) :
    outcome (left.tokens ++ .operator .percent :: .operator op :: right.tokens) =
        outcome (.openParenthesis :: left.tokens ++ .operator op :: right.tokens ++
          [.closeParenthesis, .operator .percent]) ∧
      ∀ a b : OperatorTree, a.listing = left.converted → b.listing = right.converted →
        (outcome (left.tokens ++ .operator .percent :: .operator op :: right.tokens) =
            outcome (.openParenthesis :: left.tokens ++ .operator .percent :: .closeParenthesis ::
              .operator op :: right.tokens) ↔
          ∀ x y, a.value = .ok x → b.value = .ok y →
            (do Postfix.conclude [(← op.binaryValue x y) / 100]) =
              (do Postfix.conclude [← op.binaryValue (x / 100) y])) := by
  have hbinary := Operator.arity_of_mem_bindingTighter h
  have hroot : op ≠ .root := by
    rintro rfl
    exact absurd h (by decide)
  have hpercent := outcome_of_ofInfix (ofInfix_percent_operator left right h)
  have hclosed := outcome_of_ofInfix (ofInfix_closed_operator left right h)
  have hjoined := outcome_of_ofInfix (Postfix.ofInfix_of_run
    (Conversion.run_operand_operator (left.joined op right) (by decide : Operator.percent ≠ .root)))
  have htokens : (left.joined op right).tokens ++ [.operator .percent] =
      .openParenthesis :: left.tokens ++ .operator op :: right.tokens ++
        [.closeParenthesis, .operator .percent] := by
    simp [joined, tokens]
  have hconverted : (left.joined op right).converted ++ [.operator .percent] =
      left.converted ++ right.converted ++ [.operator op, .operator .percent] := by
    simp [converted_joined hroot]
  have hgroup : (left.closed .percent).tokens ++ .operator op :: right.tokens =
      .openParenthesis :: left.tokens ++ .operator .percent :: .closeParenthesis ::
        .operator op :: right.tokens := by
    simp [closed, tokens]
  rw [htokens] at hjoined
  rw [hgroup] at hclosed
  refine ⟨?_, ?_⟩
  · rw [hpercent, hjoined, ← hconverted]
    rfl
  · intro a b ha hb
    have hlisting : left.converted ++ right.converted ++ [.operator op, .operator .percent] =
        (OperatorTree.unary .percent rfl (.binary op hbinary a b)).listing := by
      simp [OperatorTree.listing, ha, hb]
    have hlisting' : left.converted ++ .operator .percent :: right.converted ++ [.operator op] =
        (OperatorTree.binary op hbinary (.unary .percent rfl a) b).listing := by
      simp [OperatorTree.listing, ha, hb]
    rw [hpercent, hclosed, hlisting, hlisting', OperatorTree.percent_operator_iff]

/-- Here the hundredth of 100 is twice the hundredth of 50. -/
theorem outcome_fifty_percent_doubled :
    Operator.multiply ∈ Operator.bindingTighter ∧
      outcome [.number "50", .operator .percent, .operator .multiply, .number "2"] =
        outcome [.openParenthesis, .number "50", .operator .multiply, .number "2",
          .closeParenthesis, .operator .percent] ∧
      outcome [.number "50", .operator .percent, .operator .multiply, .number "2"] =
        outcome [.openParenthesis, .number "50", .operator .percent, .closeParenthesis,
          .operator .multiply, .number "2"] := by
  have hmultiply : Operator.multiply ∈ Operator.bindingTighter := by decide
  obtain ⟨hjoined, hclosed⟩ :=
    outcome_percent_operator (.number "50") (.number "2") .multiply hmultiply
  refine ⟨hmultiply, hjoined, (hclosed (.number "50") (.number "2") rfl rfl).mpr ?_⟩
  have hfifty : (OperatorTree.number "50").value = .ok 50 := by decide +kernel
  have htwo : (OperatorTree.number "2").value = .ok 2 := by decide +kernel
  intro x y hx hy
  cases hfifty.symm.trans hx
  cases htwo.symm.trans hy
  decide +kernel

/-- The product is too great for a float before the hundredth is taken. -/
theorem not_forall_outcome_percent_operator :
    ¬ ∀ (left right : Operand) (op : Operator), op ∈ Operator.bindingTighter →
      outcome (left.tokens ++ .operator .percent :: .operator op :: right.tokens) =
        outcome (.openParenthesis :: left.tokens ++ .operator .percent :: .closeParenthesis ::
          .operator op :: right.tokens) := by
  intro h
  have hread : outcome [.number "1e308", .operator .percent, .operator .multiply, .number "10"] =
      .error .notFinite := by
    decide +kernel
  have hgroup : (outcome [.openParenthesis, .number "1e308", .operator .percent,
      .closeParenthesis, .operator .multiply, .number "10"]).isOk := by
    decide +kernel
  have heq := h (.number "1e308") (.number "10") .multiply (by decide)
  have hvalues := congrArg Except.isOk (hread.symm.trans heq)
  exact absurd (hvalues.trans hgroup) (by decide)

end Operand

end PocketCalculator
