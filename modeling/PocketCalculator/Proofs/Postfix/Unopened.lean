import PocketCalculator.Calculation
import PocketCalculator.Proofs.Expression.Partition
import PocketCalculator.Proofs.Postfix.Group

/-!
# Parentheses that nothing opened

A conversion fails on exactly the token lists of which some beginning closes more parentheses than
it opens (`openAfter?_eq_none_iff`). Whatever is written behind such a beginning does not undo it,
since no text changes the tokens before a parenthesis that stands in front of it
(`prefix_tokenize_append`).
-/

namespace PocketCalculator

/-- Some beginning closes more parentheses than it opens. -/
def Unopened (ts : List Token) : Prop :=
  ∃ read, read <+: ts ∧ read.count .openParenthesis < read.count .closeParenthesis

/-! ### Counting parentheses -/

variable {ts : List Token} {t : Token} {count after : Nat}

theorem count_of_openStep? (h : openStep? count t = some after) :
    count + [t].count .openParenthesis = after + [t].count .closeParenthesis := by
  cases t with
  | number text | operator op =>
    cases h
    rfl
  | openParenthesis =>
    cases h
    rfl
  | closeParenthesis =>
    cases count with
    | zero => cases h
    | succ count =>
      cases h
      rfl

theorem eq_zero_of_openStep?_eq_none (h : openStep? count t = none) :
    count = 0 ∧ t = .closeParenthesis := by
  cases t with
  | number text | operator op | openParenthesis => cases h
  | closeParenthesis =>
    cases count with
    | zero => exact ⟨rfl, rfl⟩
    | succ count => cases h

theorem openAfter?_eq_none_iff :
    openAfter? count ts = none ↔ ∃ read, read <+: ts ∧
      count + read.count .openParenthesis < read.count .closeParenthesis := by
  induction ts generalizing count with
  | nil =>
    constructor
    · intro h
      cases h
    · rintro ⟨read, hread, hcount⟩
      rw [List.prefix_nil.mp hread] at hcount
      cases hcount
  | cons t ts ih =>
    cases hstep : openStep? count t with
    | none =>
      obtain ⟨rfl, rfl⟩ := eq_zero_of_openStep?_eq_none hstep
      refine iff_of_true (by rw [openAfter?_cons, hstep, Option.bind_none]) ?_
      exact ⟨[.closeParenthesis], List.prefix_append [_] ts, by decide⟩
    | some after =>
      have hcount := count_of_openStep? hstep
      rw [openAfter?_cons, hstep, Option.bind_some, ih]
      constructor
      · rintro ⟨read, hread, hexcess⟩
        refine ⟨t :: read, List.cons_prefix_cons.mpr ⟨rfl, hread⟩, ?_⟩
        rw [← List.singleton_append, List.count_append, List.count_append]
        omega
      · rintro ⟨read, hread, hexcess⟩
        rcases List.prefix_cons_iff.mp hread with rfl | ⟨later, rfl, hlater⟩
        · cases hexcess
        · refine ⟨later, hlater, ?_⟩
          rw [← List.singleton_append, List.count_append, List.count_append] at hexcess
          omega

theorem unopened_iff : Unopened ts ↔ openAfter? 0 ts = none := by
  rw [openAfter?_eq_none_iff, Unopened]
  simp only [Nat.zero_add]

theorem exists_append_of_openAfter?_eq_none (h : openAfter? count ts = none) :
    ∃ read rest, ts = read ++ .closeParenthesis :: rest ∧ openAfter? count read = some 0 := by
  induction ts generalizing count with
  | nil => cases h
  | cons t ts ih =>
    cases hstep : openStep? count t with
    | none =>
      obtain ⟨rfl, rfl⟩ := eq_zero_of_openStep?_eq_none hstep
      exact ⟨[], ts, rfl, rfl⟩
    | some after =>
      rw [openAfter?_cons, hstep, Option.bind_some] at h
      obtain ⟨read, rest, rfl, hread⟩ := ih h
      refine ⟨t :: read, rest, rfl, ?_⟩
      rw [openAfter?_cons, hstep, Option.bind_some, hread]

/-- The beginning may be taken to end with the parenthesis that nothing opened. -/
theorem exists_prefix_of_openAfter?_eq_none (h : openAfter? count ts = none) :
    ∃ read, read ++ [.closeParenthesis] <+: ts ∧
      openAfter? count (read ++ [.closeParenthesis]) = none := by
  obtain ⟨read, rest, rfl, hread⟩ := exists_append_of_openAfter?_eq_none h
  refine ⟨read, ⟨rest, by simp⟩, ?_⟩
  rw [openAfter?_append, hread]
  rfl

namespace Postfix

theorem ofInfix_of_openAfter?_eq_none (h : openAfter? 0 ts = none) :
    ofInfix ts = .error .malformed := by
  have hrun := Conversion.run_of_openAfter?_eq_none (c := .start) h
  rw [ofInfix, hrun, Except.error_bind]

theorem ofInfix_eq_error_iff {e : CalculationError} :
    ofInfix ts = .error e ↔ openAfter? 0 ts = none ∧ e = .malformed := by
  cases hopen : openAfter? 0 ts with
  | none =>
    rw [ofInfix_of_openAfter?_eq_none hopen]
    simp [eq_comm]
  | some count =>
    obtain ⟨converted, hconverted⟩ := exists_ofInfix_eq_ok hopen
    rw [hconverted]
    simp

end Postfix

/-! ### Text in front of a parenthesis -/

/-- Tokens up to a closing parenthesis stay the same, whatever text follows. -/
theorem prefix_tokenize_append {read : List Token} {u : String}
    (h : read ++ [.closeParenthesis] <+: tokenize u) (v : String) :
    read ++ [.closeParenthesis] <+: tokenize (u ++ v) := by
  obtain ⟨later, hlater⟩ := h
  rw [List.append_assoc, tokenize_eq] at hlater
  obtain ⟨before, after, hcut, hread, -⟩ := Lexeme.exists_of_filterMap_token? hlater.symm
  -- The text is cut in front of the parenthesis, and cut there again with the new text behind it.
  have htext : u.toList = before.flatMap Lexeme.text ++ ')' :: after.flatMap Lexeme.text := by
    rw [← Lexeme.flatMap_text_ofChars u.toList, hcut, List.flatMap_append, List.flatMap_cons]
    rfl
  have happend : Lexeme.ofChars (u ++ v).toList = before ++
      .token .closeParenthesis :: Lexeme.ofChars (after.flatMap Lexeme.text ++ v.toList) := by
    rw [String.toList_append, htext, List.append_assoc, List.cons_append,
      Lexeme.ofChars_append_separator (by decide), Lexeme.ofChars_flatMap_text_of_append hcut,
      Lexeme.ofChars_cons_of_isDigit_eq_false (by decide)]
    rfl
  refine ⟨(Lexeme.ofChars (after.flatMap Lexeme.text ++ v.toList)).filterMap Lexeme.token?, ?_⟩
  rw [tokenize_eq, happend, List.filterMap_append, hread, List.append_assoc]
  rfl

/-- A conversion fails exactly where a closing parenthesis has none to close, and a calculation that
meets one fails the same way, whatever stands before it and behind it. -/
theorem ofInfix_fails_iff_unopened :
    (∀ ts, (∃ e, Postfix.ofInfix ts = .error e) ↔ Unopened ts) ∧
    (∀ ts e, Postfix.ofInfix ts = .error e → e = .malformed) ∧
    ∀ u v : String, Unopened (tokenize u) →
      calculate (u ++ v) = .error .malformed ∧
        Readout.ofExpression (u ++ v) = .error .malformed := by
  refine ⟨?_, ?_, ?_⟩
  · intro ts
    rw [unopened_iff]
    constructor
    · rintro ⟨e, he⟩
      exact (Postfix.ofInfix_eq_error_iff.mp he).1
    · intro h
      exact ⟨.malformed, Postfix.ofInfix_of_openAfter?_eq_none h⟩
  · intro ts e he
    exact (Postfix.ofInfix_eq_error_iff.mp he).2
  · intro u v h
    obtain ⟨read, hread, hnone⟩ := exists_prefix_of_openAfter?_eq_none (unopened_iff.mp h)
    obtain ⟨later, hlater⟩ := prefix_tokenize_append hread v
    have hopen : openAfter? 0 (tokenize (u ++ v)) = none := by
      rw [← hlater, openAfter?_append, hnone, Option.bind_none]
    have hcalculate : calculate (u ++ v) = .error .malformed := by
      rw [calculate, Postfix.ofExpression, Postfix.ofInfix_of_openAfter?_eq_none hopen,
        Except.error_bind]
    refine ⟨hcalculate, ?_⟩
    rw [Readout.ofExpression, hcalculate]
    rfl

/-- The division by zero in front of the parenthesis is never reached. -/
theorem calculate_division_before_unopened :
    Unopened (tokenize "1 / 0)") ∧ calculate ("1 / 0)" ++ "(5e2") = .error .malformed := by
  have hunopened : Unopened (tokenize "1 / 0)") := by
    refine ⟨tokenize "1 / 0)", List.prefix_rfl, ?_⟩
    decide +kernel
  exact ⟨hunopened, (ofInfix_fails_iff_unopened.2.2 "1 / 0)" "(5e2" hunopened).1⟩

end PocketCalculator
