import PocketCalculator.Calculation
import PocketCalculator.Proofs.Expression.Digits
import PocketCalculator.Proofs.Expression.Partition
import PocketCalculator.Proofs.Postfix.Conservation

/-!
# Tokens with spaces between them

A space ends every numeral, so that tokens written with spaces between them are cut into the same
tokens again (`Token.tokenize_joinTexts`), provided that the texts of numbers are numerals. The
tokens of an expression are of this kind, and stay so in postfix order: conversion brings in only
the operands left out in writing (`Postfix.number_mem_of_ofInfix`).
-/

namespace PocketCalculator

/-! ### Single tokens -/

namespace Token

/-- Whether a text can have this token: the text of a number has to be a numeral. -/
def IsSpelled : Token → Prop
  | number text => Numeral.IsNumeral text.toList
  | _ => True

variable {t : Token} {ts : List Token}

theorem IsSpelled.ofChars_text (h : t.IsSpelled) :
    Lexeme.ofChars t.text.toList = [.token t] := by
  cases t with
  | number text =>
    have hchars := Lexeme.ofChars_numeral h
    rwa [String.ofList_toList] at hchars
  | operator op => cases op <;> decide +kernel
  | openParenthesis | closeParenthesis => decide +kernel

/-! ### Lists of tokens -/

theorem toList_joinTexts_cons_cons (t u : Token) (ts : List Token) :
    (joinTexts (t :: u :: ts)).toList = t.text.toList ++ ' ' :: (joinTexts (u :: ts)).toList := by
  rw [joinTexts, joinTexts]
  simp [String.intercalate_cons_cons]

theorem tokenize_joinTexts (h : ∀ t ∈ ts, t.IsSpelled) : tokenize (joinTexts ts) = ts := by
  induction ts with
  | nil => decide +kernel
  | cons t ts ih =>
    obtain ⟨ht, hts⟩ := List.forall_mem_cons.mp h
    cases ts with
    | nil =>
      have hjoin : joinTexts [t] = t.text := by simp [joinTexts]
      rw [hjoin, tokenize_eq, ht.ofChars_text]
      rfl
    | cons u ts =>
      rw [tokenize_eq, toList_joinTexts_cons_cons, Lexeme.ofChars_append_separator (by decide),
        ht.ofChars_text, Lexeme.ofChars_cons_of_isDigit_eq_false (by decide)]
      exact congrArg (t :: ·) ((tokenize_eq _).symm.trans (ih hts))

/-! ### The tokens of an expression -/

theorem isSpelled_of_mem_tokenize {expression : String} (h : t ∈ tokenize expression) :
    t.IsSpelled := by
  rw [tokenize_eq] at h
  obtain ⟨lexeme, hmem, htoken⟩ := List.mem_filterMap.mp h
  obtain ⟨before, after, hchars⟩ := List.append_of_mem hmem
  have hcut := Lexeme.isLongestCut_of_ofChars hchars
  cases lexeme with
  | skipped c => cases htoken
  | token u =>
    cases htoken
    cases t with
    | number text => exact hcut.2.1
    | operator op | openParenthesis | closeParenthesis => trivial

end Token

/-! ### Numbers in postfix order -/

theorem Postfix.number_mem_of_ofInfix {ts postfixed : List Token} {text : String}
    (h : Postfix.ofInfix ts = .ok postfixed) (hmem : .number text ∈ postfixed) :
    .number text ∈ ts ∨ text = "0" ∨ text = "2" := by
  have hfilter : .number text ∈ postfixed.filter Token.isNumber := List.mem_filter.mpr ⟨hmem, rfl⟩
  rw [Postfix.filter_isNumber_of_ofInfix h] at hfilter
  exact number_mem_of_mem_writtenOutAfter (List.mem_filter.mp hfilter).1

theorem isNumeral_omitted {text : String} (h : text = "0" ∨ text = "2") :
    Numeral.IsNumeral text.toList := by
  rcases h with rfl | rfl
  · exact Numeral.isNumeral_span (c := '0') [] (by decide)
  · exact Numeral.isNumeral_span (c := '2') [] (by decide)

theorem Postfix.isSpelled_of_ofExpression {expression : String} {postfixed : List Token}
    (h : Postfix.ofExpression expression = .ok postfixed) : ∀ t ∈ postfixed, t.IsSpelled := by
  intro t ht
  cases t with
  | number text =>
    rcases Postfix.number_mem_of_ofInfix h ht with hread | homitted
    · exact Token.isSpelled_of_mem_tokenize hread
    · exact isNumeral_omitted homitted
  | operator op | openParenthesis | closeParenthesis => trivial

/-- Writing tokens with spaces and cutting the text into tokens are inverse. So the postfix tokens
of an expression can be written out and read again: evaluating what is read calculates the
expression. -/
theorem tokenize_joinTexts_of_isSpelled :
    (∀ ts : List Token, (∀ t ∈ ts, t.IsSpelled) → tokenize (Token.joinTexts ts) = ts) ∧
    ∀ (expression : String) (postfixed : List Token),
      Postfix.ofExpression expression = .ok postfixed →
        Postfix.evaluate (tokenize (Token.joinTexts postfixed)) = calculate expression := by
  refine ⟨fun _ ↦ Token.tokenize_joinTexts, ?_⟩
  intro expression postfixed h
  rw [Token.tokenize_joinTexts (Postfix.isSpelled_of_ofExpression h), calculate, h]
  rfl

/-- `1.e5√-(7` is written as `1.e5 0 √ 7 -` in postfix order. -/
theorem tokenize_joinTexts_negative_radicand :
    tokenize (Token.joinTexts [.number "1.e5", .operator .root, .number "2E-10", .number "007."]) =
        [.number "1.e5", .operator .root, .number "2E-10", .number "007."] ∧
      Postfix.evaluate (tokenize (Token.joinTexts
        [.number "1.e5", .number "0", .operator .root, .number "7", .operator .subtract])) =
          calculate "1.e5√-(7" := by
  have hall := tokenize_joinTexts_of_isSpelled
  constructor
  · apply hall.1
    have hspelled : ∀ text : String, text ∈ ["1.e5", "2E-10", "007."] →
        Numeral.IsNumeral text.toList := by
      intro text htext
      simp only [List.mem_cons, List.not_mem_nil, or_false] at htext
      rcases htext with rfl | rfl | rfl
      · exact Numeral.isNumeral_span (c := '1') ['.', 'e', '5'] (by decide)
      · exact Numeral.isNumeral_span (c := '2') ['E', '-', '1', '0'] (by decide)
      · exact Numeral.isNumeral_span (c := '0') ['0', '7', '.'] (by decide)
    intro t ht
    cases t with
    | number text =>
      apply hspelled
      simpa using ht
    | operator op | openParenthesis | closeParenthesis => trivial
  · apply hall.2
    decide +kernel

end PocketCalculator
