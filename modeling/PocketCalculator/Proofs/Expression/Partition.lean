import PocketCalculator.Proofs.Expression.Lexeme
import PocketCalculator.Proofs.Expression.NumeralForm
import PocketCalculator.Trace.Log

/-!
# How a text is cut

The lexemes of a text are cut off its front one after another, so that those from any place on are
the lexemes of the text from there on (`Lexeme.ofChars_of_append`). Each is the longest that can
stand at its place (`Lexeme.IsLongestCut`), and nothing between two of them is lost.

A separator is a lexeme of its own or passed over, and splits the work: what stands behind it does
not change the lexemes before it (`Lexeme.ofChars_append_separator`).
-/

namespace PocketCalculator

/-! ### Symbols -/

namespace Token

def symbols : List Char :=
  ['(', ')', '+', '-', '*', '/', '^', '√', '!', '%']

theorem mem_symbols_of_ofSymbol? {c : Char} {t : Token} (h : ofSymbol? c = some t) :
    c ∈ symbols := by
  unfold ofSymbol? at h
  split at h
  · decide
  · decide
  · obtain ⟨op, hop, rfl⟩ := Option.map_eq_some_iff.mp h
    rw [← Operator.ofSymbol?_eq_some_iff.mp hop]
    cases op <;> decide

theorem notMem_symbols_of_ofSymbol? {c : Char} (h : ofSymbol? c = none) : c ∉ symbols := by
  intro hmem
  simp only [symbols, List.mem_cons, List.not_mem_nil, or_false] at hmem
  rcases hmem with rfl | rfl | rfl | rfl | rfl | rfl | rfl | rfl | rfl | rfl <;> cases h

end Token

namespace Lexeme

variable {s t : List Char} {before after : List Lexeme} {lexeme : Lexeme} {c : Char}

/-! ### Single lexemes -/

/-- Where a token stands among the tokens, lexemes can be cut in front of it. -/
theorem exists_of_filterMap_token? {lexemes : List Lexeme} {read rest : List Token} {t : Token}
    (h : lexemes.filterMap token? = read ++ t :: rest) :
    ∃ before after, lexemes = before ++ token t :: after ∧ before.filterMap token? = read ∧
      after.filterMap token? = rest := by
  obtain ⟨before, behind, rfl, hbefore, hbehind⟩ := List.filterMap_eq_append_iff.mp h
  obtain ⟨gap, lexeme, after, rfl, hgap, hlexeme, hafter⟩ := List.filterMap_eq_cons_iff.mp hbehind
  obtain rfl : lexeme = token t := by
    cases lexeme with
    | token u => exact congrArg token (Option.some.inj hlexeme)
    | skipped c => cases hlexeme
  refine ⟨before ++ gap, after, by rw [List.append_assoc], ?_, hafter⟩
  rw [List.filterMap_append, hbefore, List.filterMap_eq_nil_iff.mpr hgap, List.append_nil]

/-- The lexemes behind any place are those of the text behind it. -/
theorem ofChars_of_append (h : ofChars s = before ++ after) :
    ofChars (after.flatMap text) = after := by
  induction before generalizing s with
  | nil =>
    rw [List.nil_append] at h
    rw [← h, flatMap_text_ofChars]
  | cons lexeme before ih =>
    cases s with
    | nil => simp at h
    | cons c s =>
      rw [ofChars_cons, List.cons_append] at h
      exact ih (List.cons.inj h).2

/-- Longest match: a number is the longest numeral where it stands, every other token is one symbol,
and no digit or symbol is passed over. -/
def IsLongestCut (rest : List Char) : Lexeme → Prop
  | token (.number text) =>
    text.toList <+: rest ∧ Numeral.IsNumeral text.toList ∧
      ∀ numeral, numeral <+: rest → Numeral.IsNumeral numeral → numeral.length ≤ text.length
  | token t => ∃ c ∈ Token.symbols, t.text.toList = [c] ∧ [c] <+: rest
  | skipped c => c.isDigit = false ∧ c ∉ Token.symbols

theorem isLongestCut_first (c : Char) (s : List Char) : (first c s).1.IsLongestCut (c :: s) := by
  unfold first
  split
  · next hc =>
    refine ⟨?_, ?_, ?_⟩
    · rw [String.toList_ofList]
      exact ⟨_, Numeral.span_append (c :: s)⟩
    · rw [String.toList_ofList]
      exact Numeral.isNumeral_span s hc
    · intro numeral hprefix hnumeral
      obtain ⟨rest, hrest⟩ := hprefix
      have hspan := Numeral.prefix_span hnumeral rest
      rw [hrest] at hspan
      simpa using hspan.length_le
  · next hc =>
    split
    · next t ht =>
      have htext := Token.text_of_ofSymbol? ht
      have hcut : ∃ d ∈ Token.symbols, t.text.toList = [d] ∧ [d] <+: c :: s :=
        ⟨c, Token.mem_symbols_of_ofSymbol? ht, by rw [htext, Char.toString_eq_singleton]; simp,
          List.prefix_append [c] s⟩
      cases t with
      | number text =>
        -- No symbol is a number.
        unfold Token.ofSymbol? at ht
        split at ht
        · cases ht
        · cases ht
        · obtain ⟨op, -, hop⟩ := Option.map_eq_some_iff.mp ht
          cases hop
      | operator op | openParenthesis | closeParenthesis => exact hcut
    · next ht =>
      exact ⟨Bool.eq_false_iff.mpr hc, Token.notMem_symbols_of_ofSymbol? ht⟩

theorem isLongestCut_of_ofChars (h : ofChars s = before ++ lexeme :: after) :
    lexeme.IsLongestCut ((lexeme :: after).flatMap text) := by
  have hrest := ofChars_of_append h
  cases hchars : (lexeme :: after).flatMap text with
  | nil =>
    rw [hchars, ofChars_nil] at hrest
    cases hrest
  | cons c rest =>
    rw [hchars, ofChars_cons] at hrest
    rw [← (List.cons.inj hrest).1]
    exact isLongestCut_first c rest

theorem ofChars_cons_of_isDigit_eq_false (hc : c.isDigit = false) (s : List Char) :
    ofChars (c :: s) = ofSymbol c :: ofChars s := by
  rw [ofChars_cons, first_of_isDigit_eq_false hc]

/-! ### Texts cut off behind a lexeme -/

/-- A lexeme stays the same when less text follows. -/
theorem exists_first_of_append {rest later : List Char}
    (h : first c s = (lexeme, rest ++ later)) :
    ∃ w, lexeme.text = c :: w ∧ first c (w ++ rest) = (lexeme, rest) := by
  by_cases hc : c.isDigit
  · rw [first_of_isDigit hc, Prod.mk.injEq] at h
    obtain ⟨rfl, hrest⟩ := h
    have hspan : Numeral.span (c :: s) = ((Numeral.span (c :: s)).1, rest ++ later) :=
      Prod.ext rfl hrest
    have hnumeral := Numeral.isNumeral_span s hc
    have happend := Numeral.span_append (c :: s)
    generalize (Numeral.span (c :: s)).1 = numeral at *
    obtain ⟨d, w, rfl, -⟩ := hnumeral.exists_cons
    rw [hrest] at happend
    obtain rfl : d = c := (List.cons.inj happend).1
    rw [← happend] at hspan
    refine ⟨w, by rw [text, Token.text, String.toList_ofList], ?_⟩
    rw [first_of_isDigit hc, ← List.cons_append, hnumeral.span_append_of_append hspan]
  · rw [Bool.not_eq_true] at hc
    rw [first_of_isDigit_eq_false hc, Prod.mk.injEq] at h
    obtain ⟨rfl, rfl⟩ := h
    exact ⟨[], text_ofSymbol c, first_of_isDigit_eq_false hc rest⟩

/-- The lexemes before any place are those of the text before it. -/
theorem ofChars_flatMap_text_of_append (h : ofChars s = before ++ after) :
    ofChars (before.flatMap text) = before := by
  induction before generalizing s with
  | nil => simp
  | cons lexeme before ih =>
    cases s with
    | nil => simp at h
    | cons c s =>
      rw [ofChars_cons, List.cons_append, List.cons.injEq] at h
      have hrest : (first c s).2 = before.flatMap text ++ after.flatMap text := by
        rw [← flatMap_text_ofChars (first c s).2, h.2, List.flatMap_append]
      obtain ⟨w, hw, hfirst⟩ := exists_first_of_append (Prod.ext h.1 hrest)
      rw [List.flatMap_cons, hw, List.cons_append, ofChars_cons, hfirst, ih h.2]

/-! ### Separators -/

theorem first_append_separator (hc : Numeral.isSeparator c) (d : Char) (s t : List Char) :
    first d (s ++ c :: t) = ((first d s).1, (first d s).2 ++ c :: t) := by
  have hspan := Numeral.span_append_separator hc (d :: s) t
  rw [List.cons_append] at hspan
  unfold first
  split
  · rw [hspan]
  · split <;> rfl

/-- What follows a separator does not change the lexemes before it. -/
theorem ofChars_append_separator (hc : Numeral.isSeparator c) (s t : List Char) :
    ofChars (s ++ c :: t) = ofChars s ++ ofChars (c :: t) := by
  fun_induction ofChars s with
  | case1 => rfl
  | case2 d s ih =>
    rw [List.cons_append, ofChars_cons, first_append_separator hc, List.cons_append, ih]

end Lexeme

/-! ### Offsets in the log -/

namespace Log

open Lexeme (text token? ofChars)

variable {ch : Char} {offset : Nat} {c : Conversion} {cut : List (Nat × Lexeme)}

/-- A character that is reported as passed over stands at the reported offset. -/
theorem mem_of_skipping_mem_conversion (h : .skipping ch offset ∈ conversion c cut) :
    (offset, .skipped ch) ∈ cut := by
  induction cut generalizing c with
  | nil => cases h
  | cons head cut ih =>
    obtain ⟨start, lexeme⟩ := head
    cases lexeme with
    | skipped d =>
      rw [conversion, List.mem_cons] at h
      rcases h with heq | hmem
      · cases heq
        exact List.mem_cons_self
      · exact List.mem_cons_of_mem _ (ih hmem)
    | token t =>
      rw [conversion, List.mem_cons] at h
      rcases h with heq | hmem
      · cases heq
      · split at hmem
        · exact List.mem_cons_of_mem _ (ih hmem)
        · simp at hmem

/-- Behind tokens that are accepted, the log goes on as that of the conversion after them. -/
theorem conversion_append {before : List Lexeme} {handedOut : List Token} {next : Conversion}
    (h : c.run (before.filterMap token?) = .ok (handedOut, next)) (start : Nat)
    (after : List Lexeme) :
    conversion c (Lexeme.withOffsets start (before ++ after)) =
      conversion c (Lexeme.withOffsets start before) ++
        conversion next (Lexeme.withOffsets (start + byteCount (before.flatMap text)) after) := by
  induction before generalizing c start handedOut with
  | nil =>
    cases h
    rfl
  | cons lexeme before ih =>
    rw [List.cons_append, List.flatMap_cons, byteCount_append, ← Nat.add_assoc,
      Lexeme.withOffsets, Lexeme.withOffsets]
    cases lexeme with
    | skipped d =>
      rw [List.filterMap_cons_none rfl] at h
      simp only [List.cons_append, conversion, ih h]
    | token t =>
      change c.run (t :: before.filterMap token?) = .ok (handedOut, next) at h
      obtain ⟨first, middle, later, hstep, hrun, -⟩ := Conversion.exists_of_run_cons h
      simp only [List.cons_append, conversion, hstep, ih hrun]

/-- A character that is passed over is reported, unless a token before it was refused. -/
theorem skipping_mem_conversion {before : List Lexeme} {result : List Token × Conversion}
    (h : c.run (before.filterMap token?) = .ok result) (ch : Char) (start : Nat)
    (after : List Lexeme) :
    .skipping ch (start + byteCount (before.flatMap text)) ∈
      conversion c (Lexeme.withOffsets start (before ++ .skipped ch :: after)) := by
  rw [conversion_append h]
  exact List.mem_append_right _ List.mem_cons_self

end Log

open Lexeme (text token? ofChars)

/-- Cutting a text into tokens and characters passed over loses nothing, and each piece is the
longest that can stand at its place. A piece is a slice between two characters, and one passed over
is reported with the number of bytes before it. -/
theorem tokenize_longestMatch (s : String) :
    tokenize s = (ofChars s.toList).filterMap token? ∧
    (Cursor.ofExpression s).lexemes = Lexeme.withOffsets 0 (ofChars s.toList) ∧
    (ofChars s.toList).flatMap text = s.toList ∧
    (∀ before lexeme after, ofChars s.toList = before ++ lexeme :: after →
      lexeme.IsLongestCut ((lexeme :: after).flatMap text) ∧
      ∃ start stop : s.Pos, start.offset.byteIdx = byteCount (before.flatMap text) ∧
        stop.offset.byteIdx = byteCount (before.flatMap text) + byteCount lexeme.text ∧
          s.extract start stop = String.ofList lexeme.text) ∧
    (∀ c offset, .skipping c offset ∈ Log.ofExpression s →
      ∃ before after, ofChars s.toList = before ++ .skipped c :: after ∧
        offset = byteCount (before.flatMap text)) ∧
    ∀ before c after result, ofChars s.toList = before ++ .skipped c :: after →
      Conversion.start.run (before.filterMap token?) = .ok result →
        .skipping c (byteCount (before.flatMap text)) ∈ Log.ofExpression s := by
  have hlexemes := Cursor.lexemes_ofExpression s
  refine ⟨tokenize_eq s, hlexemes, Lexeme.flatMap_text_ofChars s.toList, ?_, ?_, ?_⟩
  · intro before lexeme after h
    refine ⟨Lexeme.isLongestCut_of_ofChars h, ?_⟩
    have hs : s = String.ofList (before.flatMap text) ++ String.ofList lexeme.text ++
        String.ofList (after.flatMap text) := by
      rw [← String.ofList_append, ← String.ofList_append, ← String.toList_inj, String.toList_ofList,
        ← Lexeme.flatMap_text_ofChars s.toList, h]
      simp
    exact exists_extract_eq hs
  · intro c offset h
    rw [Log.ofExpression, List.mem_append] at h
    rcases h with hmem | hmem
    · have hcut := Log.mem_of_skipping_mem_conversion hmem
      rw [hlexemes] at hcut
      obtain ⟨before, after, hchars, hoffset⟩ := Lexeme.exists_of_mem_withOffsets hcut
      exact ⟨before, after, hchars, by rw [hoffset, Nat.zero_add]⟩
    · split at hmem
      · simp at hmem
      · cases hmem
  · intro before c after result hchars hrun
    have hmem := Log.skipping_mem_conversion hrun c 0 after
    rw [Nat.zero_add, ← hchars, ← hlexemes] at hmem
    exact List.mem_append_left _ hmem

/-- In `é2e+√` no digit follows the marker, which is passed over at the fourth byte. -/
theorem tokenize_marker_without_digits :
    ofChars "é2e+√".toList =
        [.skipped 'é'] ++ .token (.number "2") ::
          [.skipped 'e', .token (.operator .add), .token (.operator .root)] ∧
      (Lexeme.token (.number "2")).IsLongestCut "2e+√".toList ∧
      .skipping 'e' 3 ∈ Log.ofExpression "é2e+√" := by
  have hchars : ofChars "é2e+√".toList =
      [.skipped 'é'] ++ .token (.number "2") ::
        [.skipped 'e', .token (.operator .add), .token (.operator .root)] := by
    decide +kernel
  have hall := tokenize_longestMatch "é2e+√"
  refine ⟨hchars, (hall.2.2.2.1 _ _ _ hchars).1, ?_⟩
  exact hall.2.2.2.2.2 [.skipped 'é', .token (.number "2")] 'e' _ _ hchars rfl

end PocketCalculator
