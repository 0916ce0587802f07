import PocketCalculator.Calculation
import PocketCalculator.Proofs.Postfix.Group
import PocketCalculator.Proofs.Postfix.TreeEvaluation

/-!
# A minus after an operator

A minus that directly follows an operator hands out a zero, and then releases that operator, since
no operator binds looser than a minus (`Operator.appliesBefore_subtract`). So the operator takes
the zero as its own right operand, and the minus subtracts from what comes of that.
-/

namespace PocketCalculator

def outcome (tokens : List Token) : Except CalculationError Float := do
  Postfix.evaluate (← Postfix.ofInfix tokens)

/-- What becomes of an expression depends on its tokens alone. -/
theorem calculate_eq_outcome (expression : String) :
    calculate expression = outcome (tokenize expression) := rfl

theorem outcome_of_ofInfix {ts converted : List Token} (h : Postfix.ofInfix ts = .ok converted) :
    outcome ts = Postfix.evaluate converted := by
  rw [outcome, h, Except.ok_bind]

theorem Operator.arity_subtract : Operator.subtract.arity = .binary := rfl

theorem Operator.appliesBefore_subtract (op : Operator) : op.AppliesBefore .subtract := by
  cases op <;> decide

/-! ### Tokens in postfix order -/

namespace Conversion

variable {ts handedOut : List Token} {op : Operator}

theorem run_operand_operator (operand : Operand) (hop : op ≠ .root) :
    start.run (operand.tokens ++ [.operator op]) =
      .ok (operand.converted, afterOperator op []) := by
  obtain ⟨previous, hrun, hdue⟩ := operand.run_tokens start
  have homitted : omittedOperand? (some previous) op = none := by
    by_cases hsubtract : op = .subtract
    · rw [hsubtract, omittedOperand?_subtract, hdue]
      rfl
    · exact omittedOperand?_eq_none _ hsubtract hop
  have hlast : (Conversion.mk [] (some previous)).run [.operator op] =
      .ok ([], afterOperator op []) := by
    rw [run_singleton, step_operator, homitted]
    rfl
  rw [run_append_of_ok hrun hlast, List.append_nil]

theorem ofInfix_append_operand (h : start.run ts = .ok (handedOut, afterOperator op []))
    (operand : Operand) :
    Postfix.ofInfix (ts ++ operand.tokens) =
      .ok (handedOut ++ operand.converted ++ [.operator op]) := by
  obtain ⟨previous, hrun, -⟩ := operand.run_tokens (afterOperator op [])
  exact Postfix.ofInfix_of_run (run_append_of_ok h hrun)

theorem ofInfix_append_minus (h : start.run ts = .ok (handedOut, afterOperator op []))
    (operand : Operand) :
    Postfix.ofInfix (ts ++ .operator .subtract :: operand.tokens) =
      .ok (handedOut ++ .number "0" :: .operator op :: operand.converted ++
        [.operator .subtract]) := by
  -- The zero is handed out first, so it is the right operand of the operator released after it.
  have hrelease : Pending.release .subtract [.operator op] = ([.operator op], []) := by
    rw [Pending.release, if_pos op.appliesBefore_subtract]
    rfl
  have hminus : (afterOperator op []).run [.operator .subtract] =
      .ok ([.number "0", .operator op], afterOperator .subtract []) := by
    rw [run_singleton, step_operator, afterOperator, hrelease]
    rfl
  have hall := ofInfix_append_operand (run_append_of_ok h hminus) operand
  simpa using hall

end Conversion

/-- What stands in front of a minus that has no value before it. -/
inductive Opening
  | operand (left : Operand) (op : Operator)
      (h : op ∈ [Operator.add, .subtract, .multiply, .divide, .power])
  | root
  | minus

namespace Opening

def tokens : Opening → List Token
  | operand left op _ => left.tokens ++ [.operator op]
  | root => [.operator .root]
  | minus => [.operator .subtract]

def operator : Opening → Operator
  | operand _ op _ => op
  | root => .root
  | minus => .subtract

def left : Opening → List Token
  | operand left _ _ => left.converted
  | root => [.number "2"]
  | minus => [.number "0"]

theorem arity_operator (opening : Opening) : opening.operator.arity = .binary := by
  cases opening with
  | operand left op h => cases op <;> first | rfl | exact absurd h (by decide)
  | root | minus => rfl

theorem run_tokens (opening : Opening) :
    Conversion.start.run opening.tokens =
      .ok (opening.left, Conversion.afterOperator opening.operator []) := by
  cases opening with
  | operand left op h =>
    apply Conversion.run_operand_operator
    rintro rfl
    exact absurd h (by decide)
  | root | minus => rfl

end Opening

namespace Operand

variable {op : Operator}

def negated (operand : Operand) : Operand :=
  group (.operator .subtract :: operand.tokens) (operand.balanced_tokens.cons_operator .subtract)

theorem converted_negated (operand : Operand) :
    operand.negated.converted = .number "0" :: operand.converted ++ [.operator .subtract] := by
  apply Except.ok.inj
  rw [negated, ← ofInfix_contents]
  exact Conversion.ofInfix_append_operand Opening.minus.run_tokens operand

def closed (operand : Operand) (op : Operator) : Operand :=
  group (operand.tokens ++ [.operator op]) (operand.balanced_tokens.append_operator op)

theorem converted_closed (operand : Operand) (hop : op ≠ .root) :
    (operand.closed op).converted = operand.converted ++ [.operator op] := by
  apply Except.ok.inj
  rw [closed, ← ofInfix_contents]
  exact Postfix.ofInfix_of_run (Conversion.run_operand_operator operand hop)

end Operand

/-! ### Outcomes -/

namespace OperatorTree

variable {op : Operator}

def zero : OperatorTree := .number "0"

theorem zero_value : zero.value = .ok 0 := by rfl

/-- The operator takes a zero, and `b` is subtracted from what comes of it. -/
def subtractedOutside (op : Operator) (h : op.arity = .binary) (a b : OperatorTree) :
    OperatorTree :=
  binary .subtract Operator.arity_subtract (binary op h a zero) b

/-- The operator takes the negated `b`. -/
def subtractedInside (op : Operator) (h : op.arity = .binary) (a b : OperatorTree) :
    OperatorTree :=
  binary op h a (binary .subtract Operator.arity_subtract zero b)

theorem evaluate_subtractedOutside (h : op.arity = .binary) (a b : OperatorTree) :
    Postfix.evaluate (subtractedOutside op h a b).listing = (do
      let x ← a.value
      let z ← op.binaryValue x 0
      let y ← b.value
      Postfix.conclude [z - y]) := by
  rw [evaluate_listing]
  simp only [subtractedOutside, value, zero_value, bind_assoc, Except.ok_bind]
  rfl

theorem evaluate_subtractedInside (h : op.arity = .binary) (a b : OperatorTree) :
    Postfix.evaluate (subtractedInside op h a b).listing = (do
      let x ← a.value
      let y ← b.value
      let z ← op.binaryValue x (0 - y)
      Postfix.conclude [z]) := by
  rw [evaluate_listing]
  simp only [subtractedInside, value, zero_value, bind_assoc, Except.ok_bind]
  rfl

theorem divide_zero (x : Float) : Operator.divide.binaryValue x 0 = .error .divisionByZero := by
  rfl

theorem exists_binaryValue_zero (h : op.arity = .binary) (hop : op ≠ .divide) (x : Float) :
    ∃ z, op.binaryValue x 0 = .ok z := by
  cases op with
  | add | subtract | multiply | power => exact ⟨_, rfl⟩
  | divide => exact absurd rfl hop
  | root =>
    have hzero : ¬ (0 : Float) < 0 := by decide
    exact ⟨Float.pow 0 (1 / x), by rw [Operator.binaryValue, if_neg hzero]⟩
  | factorial | percent => cases h

theorem subtracted_divide_iff (h : Operator.divide.arity = .binary) (a b : OperatorTree) :
    Postfix.evaluate (subtractedOutside .divide h a b).listing =
        Postfix.evaluate (subtractedInside .divide h a b).listing ↔
      ∀ x, a.value = .ok x →
        b.value = .error .divisionByZero ∨ ∃ y, b.value = .ok y ∧ (0 - y == 0) := by
  rw [evaluate_subtractedOutside, evaluate_subtractedInside]
  cases ha : a.value with
  | error e => simp
  | ok x =>
    cases hb : b.value with
    | error e =>
      rw [Except.ok_bind, Except.ok_bind, divide_zero]
      simp only [Except.error_bind, Except.error.injEq, reduceCtorEq, false_and, exists_false,
        or_false, Except.ok.injEq, forall_eq']
      exact eq_comm
    | ok y =>
      have hinside : (do
          let z ← Operator.divide.binaryValue x (0 - y)
          Postfix.conclude [z]) = .error .divisionByZero ↔ (0 - y == 0) := by
        by_cases hzero : 0 - y == 0
        · simp [Operator.binaryValue, hzero]
        · have hfinite : Postfix.conclude [x / (0 - y)] ≠ .error .divisionByZero :=
            Postfix.conclude_singleton_ne_error (by decide) _
          simp [Operator.binaryValue, hzero, hfinite]
      rw [Except.ok_bind, Except.ok_bind, divide_zero, Except.error_bind, Except.ok_bind,
        eq_comm, hinside]
      simp

theorem subtracted_iff (h : op.arity = .binary) (hop : op ≠ .divide) (a b : OperatorTree) :
    Postfix.evaluate (subtractedOutside op h a b).listing =
        Postfix.evaluate (subtractedInside op h a b).listing ↔
      ∀ x y, a.value = .ok x → b.value = .ok y →
        (do Postfix.conclude [(← op.binaryValue x 0) - y]) =
          (do Postfix.conclude [← op.binaryValue x (0 - y)]) := by
  rw [evaluate_subtractedOutside, evaluate_subtractedInside]
  cases ha : a.value with
  | error e => simp
  | ok x =>
    obtain ⟨z, hz⟩ := exists_binaryValue_zero h hop x
    cases hb : b.value with
    | error e => simp [hz]
    | ok y => simp

end OperatorTree

open OperatorTree

namespace Opening

/-- A minus behind an operator does not negate. The operator takes a zero, and the minus subtracts
from what comes of it, so that the outcome is that of the negated operand in parentheses only if
that subtraction has the same value, or fails alike. -/
theorem outcome_minus_eq_iff (opening : Opening) (operand : Operand) :
    outcome (opening.tokens ++ .operator .subtract :: operand.tokens) =
        Postfix.evaluate (opening.left ++ .number "0" :: .operator opening.operator ::
          operand.converted ++ [.operator .subtract]) ∧
      outcome (opening.tokens ++ .openParenthesis :: .operator .subtract :: operand.tokens ++
          [.closeParenthesis]) =
        Postfix.evaluate (opening.left ++ .number "0" :: operand.converted ++
          [.operator .subtract, .operator opening.operator]) ∧
      ∀ a b : OperatorTree, a.listing = opening.left → b.listing = operand.converted →
        (outcome (opening.tokens ++ .operator .subtract :: operand.tokens) =
            outcome (opening.tokens ++ .openParenthesis :: .operator .subtract :: operand.tokens ++
              [.closeParenthesis]) ↔
          ∀ x, a.value = .ok x →
            (opening.operator = .divide →
              b.value = .error .divisionByZero ∨ ∃ y, b.value = .ok y ∧ (0 - y == 0)) ∧
            (opening.operator ≠ .divide → ∀ y, b.value = .ok y →
              (do Postfix.conclude [(← opening.operator.binaryValue x 0) - y]) =
                (do Postfix.conclude [← opening.operator.binaryValue x (0 - y)]))) := by
  have hminus := outcome_of_ofInfix (Conversion.ofInfix_append_minus opening.run_tokens operand)
  have hnegated :=
    outcome_of_ofInfix (Conversion.ofInfix_append_operand opening.run_tokens operand.negated)
  have htokens : opening.tokens ++ operand.negated.tokens =
      opening.tokens ++ .openParenthesis :: .operator .subtract :: operand.tokens ++
        [.closeParenthesis] := by
    simp [Operand.negated, Operand.tokens]
  rw [htokens, operand.converted_negated] at hnegated
  refine ⟨hminus, by simpa using hnegated, ?_⟩
  intro a b ha hb
  rw [hminus, hnegated]
  have houtside : opening.left ++ .number "0" :: .operator opening.operator ::
      operand.converted ++ [.operator .subtract] =
        (subtractedOutside opening.operator opening.arity_operator a b).listing := by
    simp [subtractedOutside, listing, zero, ha, hb]
  have hinside : opening.left ++ (.number "0" :: operand.converted ++ [.operator .subtract]) ++
      [.operator opening.operator] =
        (subtractedInside opening.operator opening.arity_operator a b).listing := by
    simp [subtractedInside, listing, zero, ha, hb]
  rw [houtside, hinside]
  by_cases hop : opening.operator = .divide
  · simp only [hop, true_imp_iff, not_true, ne_eq, false_imp_iff, and_true]
    exact subtracted_divide_iff rfl a b
  · simp only [hop, false_imp_iff, not_false_iff, ne_eq, true_imp_iff, true_and]
    rw [subtracted_iff opening.arity_operator hop]
    exact ⟨fun h x hx y hy ↦ h x y hx hy, fun h x y hx hy ↦ h x hx y hy⟩

theorem outcome_divide_minus_zero :
    outcome [.openParenthesis, .number "1", .closeParenthesis, .operator .divide,
        .operator .subtract, .number "0"] =
      outcome [.openParenthesis, .number "1", .closeParenthesis, .operator .divide,
        .openParenthesis, .operator .subtract, .number "0", .closeParenthesis] := by
  have h := (outcome_minus_eq_iff
    (.operand (.group [.number "1"] (by decide)) .divide (by decide)) (.number "0")).2.2
      (.number "1") (.number "0") rfl rfl
  refine h.mpr fun x _ ↦ ⟨fun _ ↦ ?_, fun hdivide ↦ absurd rfl hdivide⟩
  exact .inr ⟨0, rfl, by decide⟩

/-- `2 * - 3` is `2 * 0 - 3`. -/
theorem not_forall_outcome_minus_eq :
    ¬ ∀ (opening : Opening) (operand : Operand),
      outcome (opening.tokens ++ .operator .subtract :: operand.tokens) =
        outcome (opening.tokens ++ .openParenthesis :: .operator .subtract :: operand.tokens ++
          [.closeParenthesis]) := by
  intro h
  have hread : outcome [.number "2", .operator .multiply, .operator .subtract, .number "3"] =
      .ok (-3) := by
    decide +kernel
  have hnegated : outcome [.number "2", .operator .multiply, .openParenthesis,
      .operator .subtract, .number "3", .closeParenthesis] = .ok (-6) := by
    decide +kernel
  have heq := h (.operand (.number "2") .multiply (by decide)) (.number "3")
  have hvalues : Except.ok (-3) = (Except.ok (-6) : Except CalculationError Float) :=
    hread.symm.trans (heq.trans hnegated)
  exact absurd hvalues (by decide +kernel)

end Opening

/-! ### A minus behind an operator that already has its operand -/

namespace Operator

variable {op : Operator}

theorem ne_root_of_unary (h : op.arity = .unary) : op ≠ .root := by
  rintro rfl
  cases h

theorem exists_unaryValue_zero (h : op.arity = .unary) : ∃ z, op.unaryValue 0 = .ok z := by
  cases op with
  | factorial => exact ⟨1, by rfl⟩
  | percent => exact ⟨_, rfl⟩
  | add | subtract | multiply | divide | power | root => cases h

end Operator

namespace OperatorTree

variable {op : Operator}

theorem evaluate_pair (t u : OperatorTree) :
    Postfix.evaluate (t.listing ++ u.listing) = (do
      let _ ← t.value
      let _ ← u.value
      .error .malformed) := by
  have hlisting : t.listing ++ u.listing = rowListing [u, t] := by simp [rowListing]
  rw [Postfix.evaluate, hlisting, run_rowListing, rowValues, rowValues, rowValues]
  cases t.value with
  | error e => rfl
  | ok x => cases u.value <;> rfl

theorem evaluate_leftOver (h : op.arity = .unary) (a b : OperatorTree) :
    Postfix.evaluate (a.listing ++ (binary .subtract rfl (unary op h zero) b).listing) = (do
      let _ ← a.value
      let _ ← b.value
      .error .malformed) := by
  obtain ⟨z, hz⟩ := Operator.exists_unaryValue_zero h
  rw [evaluate_pair]
  simp only [value, zero_value, Except.ok_bind, hz, bind_assoc]
  cases b.value <;> rfl

theorem evaluate_subtract_unary (h : op.arity = .unary) (a b : OperatorTree) :
    Postfix.evaluate (binary .subtract rfl (unary op h a) b).listing = (do
      let x ← a.value
      let z ← op.unaryValue x
      let y ← b.value
      Postfix.conclude [z - y]) := by
  rw [evaluate_listing]
  simp only [value, bind_assoc]
  rfl

theorem leftOver_iff (h : op.arity = .unary) (a b : OperatorTree) :
    Postfix.evaluate (a.listing ++ (binary .subtract rfl (unary op h zero) b).listing) =
        Postfix.evaluate (binary .subtract rfl (unary op h a) b).listing ↔
      ∀ x, a.value = .ok x →
        ∃ e, b.value = .error e ∧ ∀ e', op.unaryValue x = .error e' → e' = e := by
  rw [evaluate_leftOver, evaluate_subtract_unary]
  cases ha : a.value with
  | error e => simp
  | ok x =>
    simp only [Except.ok_bind, Except.ok.injEq, forall_eq']
    cases hz : op.unaryValue x with
    | error e' =>
      have hne := Operator.ne_malformed_of_unaryValue h hz
      cases hb : b.value with
      | error e => simp [eq_comm]
      | ok y => simp [hne.symm]
    | ok z =>
      cases hb : b.value with
      | error e => simp
      | ok y =>
        have hvalue : Postfix.conclude [z - y] ≠ .error .malformed :=
          Postfix.conclude_singleton_ne_error (by decide) _
        simp [hvalue.symm]

end OperatorTree

namespace Operand

/-- A minus behind a factorial or percent sign hands out a zero that the sign takes, and the operand
before the sign is left over. -/
theorem outcome_unary_minus_eq_iff (left right : Operand) (op : Operator)
    (h : op.arity = .unary) :
    outcome (left.tokens ++ .operator op :: .operator .subtract :: right.tokens) =
        Postfix.evaluate (left.converted ++ .number "0" :: .operator op :: right.converted ++
          [.operator .subtract]) ∧
      outcome (.openParenthesis :: left.tokens ++ .operator op :: .closeParenthesis ::
          .operator .subtract :: right.tokens) =
        Postfix.evaluate (left.converted ++ .operator op :: right.converted ++
          [.operator .subtract]) ∧
      ∀ a b : OperatorTree, a.listing = left.converted → b.listing = right.converted →
        outcome (left.tokens ++ .operator op :: .operator .subtract :: right.tokens) = (do
            let _ ← a.value
            let _ ← b.value
            .error .malformed) ∧
          (outcome (left.tokens ++ .operator op :: .operator .subtract :: right.tokens) =
              outcome (.openParenthesis :: left.tokens ++ .operator op :: .closeParenthesis ::
                .operator .subtract :: right.tokens) ↔
            ∀ x, a.value = .ok x →
              ∃ e, b.value = .error e ∧ ∀ e', op.unaryValue x = .error e' → e' = e) := by
  have hroot := Operator.ne_root_of_unary h
  have hminus := outcome_of_ofInfix
    (Conversion.ofInfix_append_minus (Conversion.run_operand_operator left hroot) right)
  rw [List.append_assoc, List.singleton_append] at hminus
  have hgroup := outcome_of_ofInfix (Conversion.ofInfix_append_operand
    (Conversion.run_operand_operator (left.closed op) (by decide : Operator.subtract ≠ .root))
    right)
  have htokens : (left.closed op).tokens ++ [.operator .subtract] ++ right.tokens =
      .openParenthesis :: left.tokens ++ .operator op :: .closeParenthesis ::
        .operator .subtract :: right.tokens := by
    simp [closed, tokens]
  have hconverted : (left.closed op).converted ++ right.converted ++ [.operator .subtract] =
      left.converted ++ .operator op :: right.converted ++ [.operator .subtract] := by
    simp [left.converted_closed hroot]
  rw [htokens, hconverted] at hgroup
  refine ⟨hminus, hgroup, ?_⟩
  intro a b ha hb
  rw [hminus, hgroup]
  have hleftOver : left.converted ++ .number "0" :: .operator op :: right.converted ++
      [.operator .subtract] =
        a.listing ++ (binary .subtract rfl (unary op h zero) b).listing := by
    simp [listing, zero, ha, hb]
  have hsubtract : left.converted ++ .operator op :: right.converted ++ [.operator .subtract] =
      (binary .subtract rfl (unary op h a) b).listing := by
    simp [listing, ha, hb]
  rw [hleftOver, hsubtract]
  exact ⟨evaluate_leftOver h a b, leftOver_iff h a b⟩

theorem outcome_factorial_minus :
    Operator.factorial.arity = .unary ∧
      outcome [.number "5", .operator .factorial, .operator .subtract, .number "3"] =
        .error .malformed :=
  ⟨rfl, ((outcome_unary_minus_eq_iff (.number "5") (.number "3") .factorial rfl).2.2
    (.number "5") (.number "3") rfl rfl).1.trans (by rfl)⟩

/-- `(5 !) - 3` is `120 - 3`. -/
theorem not_forall_outcome_unary_minus_eq :
    ¬ ∀ (left right : Operand) (op : Operator), op.arity = .unary →
      outcome (left.tokens ++ .operator op :: .operator .subtract :: right.tokens) =
        outcome (.openParenthesis :: left.tokens ++ .operator op :: .closeParenthesis ::
          .operator .subtract :: right.tokens) := by
  intro h
  have hread : outcome [.number "5", .operator .factorial, .operator .subtract, .number "3"] =
      .error .malformed := by
    decide +kernel
  have hgroup : outcome [.openParenthesis, .number "5", .operator .factorial, .closeParenthesis,
      .operator .subtract, .number "3"] = .ok 117 := by
    decide +kernel
  have heq := h (.number "5") (.number "3") .factorial rfl
  have hvalues : Except.error .malformed = (Except.ok 117 : Except CalculationError Float) :=
    hread.symm.trans (heq.trans hgroup)
  cases hvalues

end Operand

end PocketCalculator
