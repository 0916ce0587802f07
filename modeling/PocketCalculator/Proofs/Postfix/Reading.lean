import PocketCalculator.Postfix.Conversion
import PocketCalculator.Proofs.Sequencing

/-!
# Single tokens of a conversion

What the two functions on the waiting operators do to a list of which one part is known, when an
operand counts as left out, all that reading one token can do (`Conversion.exists_of_step`), and how
readings of token lists are put together.
-/

namespace PocketCalculator

def Token.isOperator : Token → Bool
  | operator _ => true
  | _ => false

namespace Pending

variable {next : Operator} {pending inner : List Pending} {waiting : List Operator}

theorem release_map_append (h : ∀ op ∈ waiting, op.AppliesBefore next) (pending : List Pending) :
    release next (waiting.map .operator ++ pending) =
      (waiting.map .operator ++ (release next pending).1, (release next pending).2) := by
  induction waiting with
  | nil => rfl
  | cons op waiting ih =>
    have hrest := ih fun other hother ↦ h other (List.mem_cons_of_mem op hother)
    rw [List.map_cons, List.cons_append, release, if_pos (h op List.mem_cons_self), hrest]
    rfl

theorem release_append_group (next : Operator) (inner outer : List Pending) :
    release next (inner ++ .group :: outer) =
      ((release next inner).1, (release next inner).2 ++ .group :: outer) := by
  fun_induction release next inner with
  | case1 op rest happlies released kept heq ih =>
    rw [List.cons_append, release, if_pos happlies, ih, heq]
  | case2 op rest happlies =>
    rw [List.cons_append, release, if_neg happlies]
  | case3 rest hrest =>
    match rest with
    | [] | .group :: _ => rfl
    | .operator op :: rest => exact absurd rfl (hrest op rest)

theorem close?_append_group (h : .group ∉ inner) (outer : List Pending) :
    close? (inner ++ .group :: outer) = some (closeAll inner, outer) := by
  induction inner with
  | nil => rfl
  | cons p rest ih =>
    rw [List.mem_cons, not_or] at h
    cases p with
    | group => exact absurd rfl h.1
    | operator op =>
      rw [List.cons_append, close?, ih h.2]
      rfl

theorem close?_append {kept : List Pending} {released : List Token}
    (h : close? inner = some (released, kept)) (outer : List Pending) :
    close? (inner ++ outer) = some (released, kept ++ outer) := by
  induction inner generalizing released with
  | nil => cases h
  | cons p rest ih =>
    cases p with
    | group =>
      cases h
      rfl
    | operator op =>
      obtain ⟨⟨r, k⟩, hrest, heq⟩ := Option.map_eq_some_iff.mp h
      cases heq
      rw [List.cons_append, close?, ih hrest]
      rfl

theorem closeAll_map (waiting : List Operator) :
    closeAll (waiting.map .operator) = waiting.map .operator := by
  induction waiting with
  | nil => rfl
  | cons op waiting ih => exact congrArg (Token.operator op :: ·) ih

theorem isOperator_of_mem_closeAll {t : Token} (h : t ∈ closeAll pending) : t.isOperator := by
  obtain ⟨p, -, hp⟩ := List.mem_filterMap.mp h
  cases p <;> cases hp
  rfl

theorem group_notMem_map (waiting : List Operator) :
    Pending.group ∉ waiting.map Pending.operator := by
  intro hmem
  obtain ⟨op, -, hop⟩ := List.mem_map.mp hmem
  cases hop

end Pending

/-! ### Operands that are left out -/

/-- Whether an operand is still to come after the token read last. -/
def operandDue : Option Token → Bool
  | none | some (.operator _) | some .openParenthesis => true
  | some (.number _) | some .closeParenthesis => false

theorem omittedOperand?_subtract (previous : Option Token) :
    omittedOperand? previous .subtract =
      if operandDue previous then some (.number "0") else none := by
  match previous with
  | none | some (.operator _) | some .openParenthesis => rfl
  | some (.number _) | some .closeParenthesis => rfl

theorem omittedOperand?_root {previous : Option Token} (h : operandDue previous) :
    omittedOperand? previous .root = some (.number "2") := by
  match previous with
  | none | some (.operator _) | some .openParenthesis => rfl
  | some (.number _) | some .closeParenthesis => cases h

theorem omittedOperand?_eq_none (previous : Option Token) {op : Operator}
    (hsubtract : op ≠ .subtract) (hroot : op ≠ .root) : omittedOperand? previous op = none := by
  unfold omittedOperand?
  split <;> simp_all

/-! ### What a single token does -/

/-- What a token of an infix list brings, with the operand left out in front of it. -/
def broughtBy (previous : Option Token) : Token → List Token
  | .number text => [.number text]
  | .operator op => (omittedOperand? previous op).toList ++ [.operator op]
  | .openParenthesis | .closeParenthesis => []

theorem isNumber_of_mem_omittedOperand? {previous : Option Token} {op : Operator} {t : Token}
    (h : t ∈ (omittedOperand? previous op).toList) : t.isNumber := by
  rw [Option.mem_toList] at h
  unfold omittedOperand? at h
  split at h <;> cases h <;> rfl

theorem filter_isNumber_broughtBy_operator (previous : Option Token) (op : Operator) :
    (broughtBy previous (.operator op)).filter Token.isNumber =
      (omittedOperand? previous op).toList := by
  have homitted : (omittedOperand? previous op).toList.filter Token.isNumber =
      (omittedOperand? previous op).toList := by
    apply List.filter_eq_self.mpr
    intro t ht
    exact isNumber_of_mem_omittedOperand? ht
  simp [broughtBy, homitted, Token.isNumber]

theorem filter_isOperator_broughtBy_operator (previous : Option Token) (op : Operator) :
    (broughtBy previous (.operator op)).filter Token.isOperator = [.operator op] := by
  have homitted : (omittedOperand? previous op).toList.filter Token.isOperator = [] := by
    apply List.filter_eq_nil_iff.mpr
    intro t ht
    have hnumber := isNumber_of_mem_omittedOperand? ht
    cases t <;> simp_all [Token.isNumber, Token.isOperator]
  simp [broughtBy, homitted, Token.isOperator]

namespace Conversion

variable {c next : Conversion} {t : Token} {handedOut : List Token}

/-- A step hands out the number that the token brings and then the innermost of the operators that
wait. The operator that the token brings waits from then on. -/
theorem exists_of_step (h : c.step t = .ok (handedOut, next)) :
    ∃ released kept, released ++ kept = c.finish ∧
      handedOut = (broughtBy c.previous t).filter Token.isNumber ++ released ∧
      next.finish = (broughtBy c.previous t).filter Token.isOperator ++ kept ∧
      next.previous = some t := by
  cases t with
  | number text =>
    cases h
    exact ⟨[], c.finish, rfl, rfl, rfl, rfl⟩
  | openParenthesis =>
    cases h
    exact ⟨[], c.finish, rfl, rfl, rfl, rfl⟩
  | closeParenthesis =>
    simp only [step] at h
    split at h
    · next released kept hclose =>
      cases h
      exact ⟨handedOut, _, Pending.append_closeAll_of_close? hclose, rfl, rfl, rfl⟩
    · cases h
  | operator op =>
    cases h
    refine ⟨_, _, Pending.release_append_closeAll op c.pending, ?_, ?_, rfl⟩
    · rw [filter_isNumber_broughtBy_operator]
    · rw [filter_isOperator_broughtBy_operator]
      rfl

theorem previous_of_step (h : c.step t = .ok (handedOut, next)) : next.previous = some t := by
  obtain ⟨-, -, -, -, -, hprevious⟩ := exists_of_step h
  exact hprevious

end Conversion

/-! ### Readings put together -/

namespace Conversion

variable {c middle last : Conversion} {ts us first second : List Token}

theorem run_singleton (c : Conversion) (t : Token) : c.run [t] = c.step t := by
  cases h : c.step t with
  | error e => exact run_cons_of_error h []
  | ok stepped =>
    rw [run_cons_of_ok h, run_nil]
    exact congrArg Except.ok (Prod.ext (List.append_nil _) rfl)

theorem run_append_of_ok (hfirst : c.run ts = .ok (first, middle))
    (hsecond : middle.run us = .ok (second, last)) :
    c.run (ts ++ us) = .ok (first ++ second, last) := by
  rw [run_append, hfirst]
  show (middle.run us).bind _ = _
  rw [hsecond]
  rfl

def afterOperator (op : Operator) (pending : List Pending) : Conversion :=
  ⟨.operator op :: pending, some (.operator op)⟩

theorem step_operator (c : Conversion) (op : Operator) :
    c.step (.operator op) =
      .ok ((omittedOperand? c.previous op).toList ++ (Pending.release op c.pending).1,
        afterOperator op (Pending.release op c.pending).2) :=
  rfl

/-- All that a conversion hands out from here to the end. -/
def complete (c : Conversion) (ts : List Token) : Except CalculationError (List Token) := do
  let (handedOut, last) ← c.run ts
  return handedOut ++ last.finish

theorem complete_append (c : Conversion) (ts us : List Token) :
    c.complete (ts ++ us) = do
      let (earlier, middle) ← c.run ts
      return earlier ++ (← middle.complete us) := by
  rw [complete, run_append]
  cases c.run ts with
  | error e => rfl
  | ok read =>
    obtain ⟨earlier, middle⟩ := read
    simp only [Except.ok_bind, complete]
    cases middle.run us with
    | error e => rfl
    | ok rest => exact congrArg Except.ok (List.append_assoc _ _ _)

theorem complete_cons_of_error {t : Token} {e : CalculationError} (h : c.step t = .error e)
    (ts : List Token) : c.complete (t :: ts) = .error e := by
  rw [complete, run_cons_of_error h, Except.error_bind]

theorem complete_cons_of_ok {t : Token} (h : c.step t = .ok (first, middle)) (ts : List Token) :
    c.complete (t :: ts) = (middle.complete ts).map (first ++ ·) := by
  have hread : c.run [t] = .ok (first, middle) := by rw [run_singleton, h]
  rw [← List.singleton_append, complete_append, hread, Except.ok_bind]
  rfl

end Conversion

theorem Postfix.ofInfix_of_run {ts handedOut : List Token} {last : Conversion}
    (h : Conversion.start.run ts = .ok (handedOut, last)) :
    ofInfix ts = .ok (handedOut ++ last.finish) := by
  rw [ofInfix, h]
  rfl

end PocketCalculator
