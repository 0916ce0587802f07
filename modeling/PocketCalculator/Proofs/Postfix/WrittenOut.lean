import PocketCalculator.Proofs.Postfix.Reading

/-!
# Operands written out

Where an operand is left out in writing, writing it in its place changes nothing for the conversion
(`Postfix.ofInfix_writtenOut`), and leaves nothing more to be written out.
-/

namespace PocketCalculator

/-- What is left out in front of a token: a zero before a minus that no value precedes, a two before
a root that no number precedes. -/
def unwritten (previous : Option Token) : Token → List Token
  | .operator .subtract => if operandDue previous then [.number "0"] else []
  | .operator .root => if previous.any Token.isNumber then [] else [.number "2"]
  | _ => []

/-- A token, and in front of it what is left out there. -/
def withUnwritten (previous : Option Token) (t : Token) : List Token :=
  unwritten previous t ++ [t]

def writtenOutAfter (previous : Option Token) : List Token → List Token
  | [] => []
  | t :: ts => withUnwritten previous t ++ writtenOutAfter (some t) ts

/-- The tokens with everything that is left out written in its place. -/
def writtenOut (ts : List Token) : List Token :=
  writtenOutAfter none ts

variable {previous : Option Token} {t : Token} {ts us : List Token}

/-! ### Single tokens -/

theorem unwritten_operator (previous : Option Token) (op : Operator) :
    unwritten previous (.operator op) = (omittedOperand? previous op).toList := by
  cases op with
  | subtract =>
    rw [omittedOperand?_subtract, unwritten]
    split <;> rfl
  | root => rcases previous with _ | _ | _ | _ | _ <;> rfl
  | add | multiply | divide | power | factorial | percent =>
    rw [omittedOperand?_eq_none previous (by decide) (by decide)]
    rfl

/-- Behind a number nothing is left out. -/
theorem unwritten_number (text : String) (t : Token) : unwritten (some (.number text)) t = [] := by
  cases t with
  | number text' | openParenthesis | closeParenthesis => rfl
  | operator op => cases op <;> rfl

theorem withUnwritten_cases (previous : Option Token) (t : Token) :
    unwritten previous t = [] ∧ withUnwritten previous t = [t] ∨
      ∃ text op, t = .operator op ∧ (omittedOperand? previous op).toList = [.number text] ∧
        withUnwritten previous t = [.number text, t] := by
  cases t with
  | number text | openParenthesis | closeParenthesis => exact .inl ⟨rfl, rfl⟩
  | operator op =>
    cases homitted : omittedOperand? previous op with
    | none =>
      have hnone : unwritten previous (.operator op) = [] := by
        rw [unwritten_operator, homitted, Option.toList_none]
      exact .inl ⟨hnone, by rw [withUnwritten, hnone, List.nil_append]⟩
    | some operand =>
      have hnumber : operand.isNumber :=
        isNumber_of_mem_omittedOperand? (Option.mem_toList.mpr homitted)
      cases operand with
      | number text =>
        have htext : (omittedOperand? previous op).toList = [.number text] := by
          rw [homitted, Option.toList_some]
        refine .inr ⟨text, op, rfl, htext, ?_⟩
        rw [withUnwritten, unwritten_operator, htext, List.singleton_append]
      | operator sign | openParenthesis | closeParenthesis => cases hnumber

theorem number_mem_unwritten {text : String} (h : .number text ∈ unwritten previous t) :
    text = "0" ∨ text = "2" := by
  unfold unwritten at h
  split at h
  · split at h
    · cases List.mem_singleton.mp h
      exact .inl rfl
    · cases h
  · split at h
    · cases h
    · cases List.mem_singleton.mp h
      exact .inr rfl
  · cases h

theorem number_mem_of_mem_writtenOutAfter {text : String}
    (h : .number text ∈ writtenOutAfter previous ts) :
    .number text ∈ ts ∨ text = "0" ∨ text = "2" := by
  induction ts generalizing previous with
  | nil => cases h
  | cons t ts ih =>
    rcases List.mem_append.mp h with hmem | hlater
    · rcases List.mem_append.mp hmem with hunwritten | htoken
      · exact .inr (number_mem_unwritten hunwritten)
      · rw [List.mem_singleton.mp htoken]
        exact .inl List.mem_cons_self
    · exact (ih hlater).imp_left (List.mem_cons_of_mem t)

/-! ### The conversion of tokens written out -/

theorem Conversion.run_withUnwritten (c : Conversion) (t : Token) :
    c.run (withUnwritten c.previous t) = c.step t := by
  rcases withUnwritten_cases c.previous t with ⟨-, halone⟩ | ⟨text, op, rfl, homitted, htwo⟩
  · rw [halone, run_singleton]
  · have hread : c.step (.number text) = .ok ([.number text], ⟨c.pending, some (.number text)⟩) :=
      rfl
    have hnone : (omittedOperand? (some (.number text)) op).toList = [] := by
      rw [← unwritten_operator, unwritten_number]
    rw [htwo, run_cons_of_ok hread, run_singleton, step_operator, step_operator, homitted, hnone]
    rfl

/-- The operand is handed out at the same moment, whether it is read or left out. -/
theorem Conversion.run_writtenOutAfter (c : Conversion) (ts : List Token) :
    c.run (writtenOutAfter c.previous ts) = c.run ts := by
  induction ts generalizing c with
  | nil => rfl
  | cons t ts ih =>
    rw [writtenOutAfter, run_append, run_withUnwritten, run]
    cases hstep : c.step t with
    | error e => rfl
    | ok stepped =>
      obtain ⟨first, next⟩ := stepped
      have hrest := ih next
      rw [previous_of_step hstep] at hrest
      simp only [Except.ok_bind, hrest]

/-! ### Nothing is left out twice -/

/-- Nothing is left out in front of any token. -/
def IsWrittenOut (previous : Option Token) : List Token → Prop
  | [] => True
  | t :: ts => unwritten previous t = [] ∧ IsWrittenOut (some t) ts

theorem isWrittenOut_writtenOutAfter (previous : Option Token) (ts : List Token) :
    IsWrittenOut previous (writtenOutAfter previous ts) := by
  induction ts generalizing previous with
  | nil => trivial
  | cons t ts ih =>
    rcases withUnwritten_cases previous t with ⟨hnone, halone⟩ | ⟨text, op, -, -, htwo⟩
    · rw [writtenOutAfter, halone]
      exact ⟨hnone, ih (some t)⟩
    · rw [writtenOutAfter, htwo]
      exact ⟨rfl, unwritten_number text t, ih (some t)⟩

namespace IsWrittenOut

theorem writtenOutAfter_eq (h : IsWrittenOut previous ts) : writtenOutAfter previous ts = ts := by
  induction ts generalizing previous with
  | nil => rfl
  | cons t ts ih =>
    obtain ⟨hnone, hrest⟩ := h
    rw [writtenOutAfter, withUnwritten, hnone, ih hrest]
    rfl

theorem unwritten_eq_nil (h : IsWrittenOut previous (ts ++ t :: us)) :
    unwritten (ts.getLast?.or previous) t = [] := by
  induction ts generalizing previous with
  | nil => exact h.1
  | cons s ts ih =>
    have hlast : (s :: ts).getLast?.or previous = ts.getLast?.or (some s) := by
      rw [List.getLast?_cons]
      cases ts.getLast? <;> rfl
    rw [hlast]
    exact ih h.2

end IsWrittenOut

/-- Writing out what is left out changes neither the outcome of the conversion nor its failure, and
no operator of the tokens written out has an operand left out in front of it. -/
theorem Postfix.ofInfix_writtenOut (ts : List Token) :
    ofInfix (writtenOut ts) = ofInfix ts ∧ writtenOut (writtenOut ts) = writtenOut ts ∧
      ∀ before op after, writtenOut ts = before ++ .operator op :: after →
        omittedOperand? before.getLast? op = none := by
  have hwritten : IsWrittenOut none (writtenOut ts) := isWrittenOut_writtenOutAfter none ts
  refine ⟨?_, hwritten.writtenOutAfter_eq, ?_⟩
  · have hrun := Conversion.start.run_writtenOutAfter ts
    rw [ofInfix, ofInfix, ← hrun]
    rfl
  · intro before op after hsplit
    rw [hsplit] at hwritten
    have hnone := hwritten.unwritten_eq_nil
    rwa [Option.or_none, unwritten_operator, Option.toList_eq_nil_iff] at hnone

/-- In `-√(3)√4` three operands are left out, one of them behind a closing parenthesis. -/
theorem Postfix.ofInfix_writtenOut_nested_roots :
    writtenOut [.operator .subtract, .operator .root, .openParenthesis, .number "3",
        .closeParenthesis, .operator .root, .number "4"] =
      [.number "0", .operator .subtract, .number "2", .operator .root, .openParenthesis,
        .number "3", .closeParenthesis, .number "2"] ++ .operator .root :: [.number "4"] ∧
    omittedOperand? [Token.number "0", .operator .subtract, .number "2", .operator .root,
      .openParenthesis, .number "3", .closeParenthesis, .number "2"].getLast? .root = none := by
  have hsplit : writtenOut [.operator .subtract, .operator .root, .openParenthesis, .number "3",
        .closeParenthesis, .operator .root, .number "4"] =
      [.number "0", .operator .subtract, .number "2", .operator .root, .openParenthesis,
        .number "3", .closeParenthesis, .number "2"] ++ .operator .root :: [.number "4"] := by
    decide
  exact ⟨hsplit, (ofInfix_writtenOut _).2.2 _ _ _ hsplit⟩

end PocketCalculator
