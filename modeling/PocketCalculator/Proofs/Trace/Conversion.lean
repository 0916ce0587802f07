import PocketCalculator.Proofs.Postfix.Parentheses

/-!
# The log of a conversion retells its text

Each record of a conversion stands for a piece of the text: a character passed over, or a token. Put
together in order the pieces are the text that was read, up to the end or to the first parenthesis
that nothing opened (`Log.ofExpression_retells`). Nothing is reported of what stands behind it.

Which parenthesis that is can be told from the characters alone, since a parenthesis stands in no
number and is never passed over (`Lexeme.openAfter?_flatMap_text`).
-/

namespace PocketCalculator

open Lexeme (text token? ofChars)

variable {s rest : List Char} {lexeme : Lexeme} {before after lexemes : List Lexeme}
  {ts : List Token} {count : ℕ}

/-! ### Parentheses among characters -/

theorem openAfter?_of_forall_isParenthesis (h : ∀ t ∈ ts, t.isParenthesis = false) (count : ℕ) :
    openAfter? count ts = some count := by
  induction ts with
  | nil => rfl
  | cons t ts ih =>
    obtain ⟨ht, hts⟩ := List.forall_mem_cons.mp h
    cases t with
    | number text | operator op => exact ih hts
    | openParenthesis | closeParenthesis => cases ht

/-- Each symbol is counted as often among the characters as among the tokens they stand for. -/
theorem Token.count_filterMap_ofSymbol? {c : Char} {t : Token} (h : ofSymbol? c = some t)
    (s : List Char) : (s.filterMap ofSymbol?).count t = s.count c := by
  rw [List.count_filterMap, List.count_eq_countP]
  apply List.countP_congr
  intro d _
  rw [beq_iff_eq, beq_iff_eq]
  constructor
  · intro hd
    have htext := (text_of_ofSymbol? hd).symm.trans (text_of_ofSymbol? h)
    rw [Char.toString_eq_singleton, Char.toString_eq_singleton] at htext
    exact String.singleton_inj.mp htext
  · rintro rfl
    exact h

/-- No character of a numeral is a parenthesis. -/
theorem Numeral.IsNumeral.isParenthesis_eq_false {numeral : List Char}
    (h : Numeral.IsNumeral numeral) :
    ∀ t ∈ numeral.filterMap Token.ofSymbol?, t.isParenthesis = false := by
  intro t ht
  obtain ⟨c, hc, hsymbol⟩ := List.mem_filterMap.mp ht
  have hseparator := h.isSeparator_eq_false c hc
  unfold Token.ofSymbol? at hsymbol
  split at hsymbol
  · cases hseparator
  · cases hseparator
  · obtain ⟨op, -, rfl⟩ := Option.map_eq_some_iff.mp hsymbol
    rfl

namespace Lexeme

theorem openAfter?_text (h : lexeme.IsLongestCut rest) (count : ℕ) :
    openAfter? count (lexeme.text.filterMap Token.ofSymbol?) =
      openAfter? count lexeme.token?.toList := by
  cases lexeme with
  | skipped c =>
    have hnone : Token.ofSymbol? c = none := by
      cases hsymbol : Token.ofSymbol? c with
      | none => rfl
      | some t => exact absurd (Token.mem_symbols_of_ofSymbol? hsymbol) h.2
    rw [text, List.filterMap_cons_none hnone]
    rfl
  | token t =>
    cases t with
    | number numeral => exact openAfter?_of_forall_isParenthesis h.2.1.isParenthesis_eq_false count
    | operator op => cases op <;> rfl
    | openParenthesis | closeParenthesis => rfl

/-- The parentheses open after some lexemes are those open after their characters. -/
theorem openAfter?_flatMap_text (h : ofChars s = before ++ after) (count : ℕ) :
    openAfter? count ((before.flatMap text).filterMap Token.ofSymbol?) =
      openAfter? count (before.filterMap token?) := by
  induction before generalizing s count with
  | nil => rfl
  | cons lexeme before ih =>
    obtain ⟨s', hs'⟩ : ∃ s', ofChars s' = before ++ after := by
      cases s with
      | nil => simp at h
      | cons c s =>
        rw [ofChars_cons, List.cons_append] at h
        exact ⟨_, (List.cons.inj h).2⟩
    have hfirst : ofChars s = [] ++ lexeme :: (before ++ after) := h
    have hlexeme := openAfter?_text (isLongestCut_of_ofChars hfirst) count
    have htokens : (lexeme :: before).filterMap token? =
        lexeme.token?.toList ++ before.filterMap token? := by
      cases lexeme <;> rfl
    rw [List.flatMap_cons, List.filterMap_append, openAfter?_append, hlexeme, htokens,
      openAfter?_append]
    cases openAfter? count lexeme.token?.toList with
    | none => rfl
    | some middle => exact ih hs' middle

end Lexeme

/-- A closing parenthesis with these characters before it is the first that closes none: up to it no
beginning closes more than it opens, and all that was opened is closed. -/
def ClosesAll (before : List Char) : Prop :=
  before.count '(' = before.count ')' ∧
    ∀ read, read <+: before → read.count ')' ≤ read.count '('

theorem closesAll_of_openAfter? (h : openAfter? 0 (s.filterMap Token.ofSymbol?) = some 0) :
    ClosesAll s := by
  obtain ⟨hunopened, hcount⟩ := openAfter?_eq_some_iff.mp h
  have hopen := Token.count_filterMap_ofSymbol? (c := '(') rfl
  have hclose := Token.count_filterMap_ofSymbol? (c := ')') rfl
  rw [hopen, hclose] at hcount
  refine ⟨hcount, ?_⟩
  intro read hread
  by_contra hexcess
  apply hunopened
  refine ⟨read.filterMap Token.ofSymbol?, hread.filterMap _, ?_⟩
  rw [hopen, hclose]
  exact Nat.lt_of_not_le hexcess

/-! ### What the records stand for -/

/-- The piece of text that a record of a conversion stands for. -/
def Record.source? : Record → Option (List Char)
  | skipping c _ => some [c]
  | converting t _ => some t.text.toList
  | _ => none

namespace Log

/-- Each of the records stands for a piece of text, and in order the pieces are the text. -/
def Retells (records : List Record) (s : List Char) : Prop :=
  ∃ pieces : List (List Char), records.map Record.source? = pieces.map some ∧ pieces.flatten = s

theorem Retells.append {records more : List Record} {t : List Char} (h : Retells records s)
    (hmore : Retells more t) : Retells (records ++ more) (s ++ t) := by
  obtain ⟨pieces, hpieces, rfl⟩ := h
  obtain ⟨others, hothers, rfl⟩ := hmore
  exact ⟨pieces ++ others, by simp [hpieces, hothers], List.flatten_append⟩

theorem retells_singleton {record : Record} (h : record.source? = some s) : Retells [record] s :=
  ⟨[s], by simp [h], by simp⟩

/-- As long as the tokens are accepted, every lexeme leaves the record that stands for it. -/
theorem retells_conversion {c : Conversion} {result : List Token × Conversion}
    (h : c.run (lexemes.filterMap token?) = .ok result) (start : ℕ) :
    Retells (conversion c (Lexeme.withOffsets start lexemes)) (lexemes.flatMap text) := by
  induction lexemes generalizing c start result with
  | nil => exact ⟨[], rfl, rfl⟩
  | cons lexeme lexemes ih =>
    rw [Lexeme.withOffsets]
    cases lexeme with
    | skipped d =>
      rw [List.filterMap_cons_none rfl] at h
      exact (retells_singleton (s := [d]) rfl).append (ih h _)
    | token t =>
      change c.run (t :: lexemes.filterMap token?) = .ok result at h
      obtain ⟨first, next, later, hstep, hrun, -⟩ := Conversion.exists_of_run_cons h
      rw [conversion, hstep]
      exact (retells_singleton (s := t.text.toList) rfl).append (ih hrun _)

end Log

/-- The records of a conversion retell the text: the whole text if the conversion succeeds, and
else the text up to the first parenthesis that nothing opened. The record of this parenthesis is
followed by one that says so, and nothing is reported of what stands behind it. -/
theorem Log.ofExpression_retells (expression : String) :
    (∀ tokens, Postfix.ofExpression expression = .ok tokens →
      ∃ records, ofExpression expression = records ++ [.converted expression tokens] ∧
        Retells records expression.toList) ∧
    ∀ e, Postfix.ofExpression expression = .error e →
      ∃ records before rest, expression.toList = before ++ ')' :: rest ∧ ClosesAll before ∧
        ofExpression expression = records ++ [.unopenedParenthesis] ∧
        Record.unopenedParenthesis.message =
          "Found a closing parenthesis without an opening one" ∧
        Retells records (before ++ [')']) := by
  have hpieces := Lexeme.flatMap_text_ofChars expression.toList
  have hlexemes := Cursor.lexemes_ofExpression expression
  constructor
  · intro tokens h
    obtain ⟨result, hrun, -⟩ := Except.bind_eq_ok_iff.mp h
    rw [tokenize_eq] at hrun
    have hretells := retells_conversion hrun 0
    rw [hpieces, ← hlexemes] at hretells
    exact ⟨_, by rw [ofExpression, h], hretells⟩
  · intro e h
    obtain ⟨hopen, -⟩ := Postfix.ofInfix_eq_error_iff.mp h
    rw [tokenize_eq] at hopen
    obtain ⟨read, rest, htokens, hread⟩ := exists_append_of_openAfter?_eq_none hopen
    obtain ⟨before, after, hchars, hbefore, -⟩ := Lexeme.exists_of_filterMap_token? htokens
    rw [← hbefore] at hread
    obtain ⟨handedOut, c, hrun, hdepth⟩ :=
      Conversion.run_of_openAfter?_eq_some (c := .start) hread
    have hrefused : c.step .closeParenthesis = .error .malformed := by
      apply Conversion.step_of_openStep?_eq_none
      rw [hdepth]
      rfl
    have htext : expression.toList = before.flatMap text ++ ')' :: after.flatMap text := by
      rw [← hpieces, hchars, List.flatMap_append, List.flatMap_cons]
      rfl
    have hcloses : ClosesAll (before.flatMap text) := by
      apply closesAll_of_openAfter?
      rw [Lexeme.openAfter?_flatMap_text hchars, hread]
    refine ⟨conversion .start (Lexeme.withOffsets 0 before) ++
      [.converting .closeParenthesis c.pending], _, _, htext, hcloses, ?_, rfl,
      (retells_conversion hrun 0).append (retells_singleton rfl)⟩
    rw [ofExpression, h, hlexemes, hchars, conversion_append hrun, Lexeme.withOffsets, conversion,
      hrefused]
    simp

/-- In `√2e + é` the letters and the spaces are passed over, one letter behind the last token. Of
`(é2e5)1) ÷ 0)` nothing is reported behind the second closing parenthesis. -/
theorem Log.ofExpression_retells_unopened :
    Postfix.ofExpression "√2e + é" =
      .ok [.number "2", .number "2", .operator .root, .operator .add] ∧
    (∃ records, ofExpression "√2e + é" = records ++ [.converted "√2e + é"
        [.number "2", .number "2", .operator .root, .operator .add]] ∧
      Retells records "√2e + é".toList) ∧
    Postfix.ofExpression "(é2e5)1) ÷ 0)" = .error .malformed ∧
    ∃ records before rest, "(é2e5)1) ÷ 0)".toList = before ++ ')' :: rest ∧ ClosesAll before ∧
      ofExpression "(é2e5)1) ÷ 0)" = records ++ [.unopenedParenthesis] ∧
      Record.unopenedParenthesis.message =
        "Found a closing parenthesis without an opening one" ∧
      Retells records (before ++ [')']) := by
  have hconverted : Postfix.ofExpression "√2e + é" =
      .ok [.number "2", .number "2", .operator .root, .operator .add] := by
    decide +kernel
  have hrefused : Postfix.ofExpression "(é2e5)1) ÷ 0)" = .error .malformed := by
    decide +kernel
  exact ⟨hconverted, (ofExpression_retells _).1 _ hconverted, hrefused,
    (ofExpression_retells _).2 _ hrefused⟩

end PocketCalculator
