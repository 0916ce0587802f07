import PocketCalculator.Proofs.Expression.Partition
import PocketCalculator.Text.Blank

/-!
# Separators between tokens

A separator can stand in no numeral, so the texts on its two sides are cut apart from each other. It
is a symbol, or it is passed over (`tokenize_push_append`). What is passed over next to a separator
may as well be left out, and where something that is always passed over stands already, more of it
changes nothing (`tokenize_between_separators`).
-/

namespace PocketCalculator

open Lexeme (ofChars ofSymbol text token?)

/-- Whether a character is passed over wherever it stands. -/
def isIgnored (c : Char) : Bool :=
  Numeral.isSeparator c && (Token.ofSymbol? c).isNone

variable {c : Char}

theorem isDigit_eq_false_of_isSeparator (hc : Numeral.isSeparator c) : c.isDigit = false := by
  simp_all [Numeral.isSeparator]

theorem isSeparator_of_isIgnored (hc : isIgnored c) : Numeral.isSeparator c :=
  (Bool.and_eq_true_iff.mp hc).1

theorem ofSymbol_of_isIgnored (hc : isIgnored c) : ofSymbol c = .skipped c := by
  rw [ofSymbol, Option.isNone_iff_eq_none.mp (Bool.and_eq_true_iff.mp hc).2]
  rfl

/-- The symbols that are no signs of numerals. -/
theorem isSome_ofSymbol?_iff (hc : Numeral.isSeparator c) :
    (Token.ofSymbol? c).isSome ↔ c ∈ ['(', ')', '*', '/', '^', '√', '!', '%'] := by
  constructor
  · intro h
    obtain ⟨t, ht⟩ := Option.isSome_iff_exists.mp h
    have hmem := Token.mem_symbols_of_ofSymbol? ht
    simp_all [Token.symbols, Numeral.isSeparator]
  · intro hmem
    simp only [List.mem_cons, List.not_mem_nil, or_false] at hmem
    rcases hmem with rfl | rfl | rfl | rfl | rfl | rfl | rfl | rfl <;> rfl

theorem isBlank_eq_false_of_isDigit (hc : c.isDigit) : isBlank c = false := by
  have hrange : 48 ≤ c.toNat ∧ c.toNat ≤ 57 := Char.isDigit_iff_toNat.mp hc
  simp only [isBlank, Bool.or_eq_false_iff, Bool.and_eq_false_iff, decide_eq_false_iff_not,
    beq_eq_false_iff_ne]
  omega

theorem isIgnored_of_isBlank (hc : isBlank c) : isIgnored c := by
  have hother : ∀ d ∈ '.' :: 'e' :: 'E' :: Token.symbols, c ≠ d := by
    rintro d hd rfl
    have hall : ('.' :: 'e' :: 'E' :: Token.symbols).all (!isBlank ·) := by decide
    have hblank := List.all_eq_true.mp hall c hd
    rw [hc] at hblank
    cases hblank
  have hdigit : c.isDigit = false := by
    by_contra h
    rw [isBlank_eq_false_of_isDigit (Bool.not_eq_false _ ▸ h)] at hc
    cases hc
  have hnone : Token.ofSymbol? c = none := by
    by_contra h
    obtain ⟨t, ht⟩ := Option.ne_none_iff_exists'.mp h
    exact hother c (by simp [Token.mem_symbols_of_ofSymbol? ht]) rfl
  simp only [Token.symbols, List.forall_mem_cons] at hother
  simp [isIgnored, Numeral.isSeparator, Numeral.isExponentMarker, hdigit, hnone, hother]

/-! ### Cutting at a separator -/

theorem tokenize_empty : tokenize "" = [] := by
  rw [tokenize_eq, String.toList_empty, Lexeme.ofChars_nil, List.filterMap_nil]

theorem tokenize_push_append (hc : Numeral.isSeparator c) (u v : String) :
    tokenize (u.push c ++ v) = tokenize u ++ (Token.ofSymbol? c).toList ++ tokenize v := by
  have hchars : (u.push c ++ v).toList = u.toList ++ c :: v.toList := by simp
  simp only [tokenize_eq]
  rw [hchars, Lexeme.ofChars_append_separator hc,
    Lexeme.ofChars_cons_of_isDigit_eq_false (isDigit_eq_false_of_isSeparator hc),
    List.filterMap_append, List.filterMap_cons, Lexeme.token?_ofSymbol, List.append_assoc]
  cases Token.ofSymbol? c <;> rfl

/-- What is passed over around a separator may be left out. -/
theorem tokenize_without_skipped {s : String} {before gap gap' after : List Lexeme}
    (hc : Numeral.isSeparator c)
    (h : ofChars s.toList = before ++ gap ++ ofSymbol c :: gap' ++ after)
    (hgap : ∀ lexeme ∈ gap ++ gap', lexeme.token? = none) :
    tokenize (String.ofList ((before ++ ofSymbol c :: after).flatMap text)) = tokenize s := by
  have hbefore : ofChars (before.flatMap text) = before := by
    rw [List.append_assoc, List.append_assoc] at h
    exact Lexeme.ofChars_flatMap_text_of_append h
  have hafter : ofChars (after.flatMap text) = after := Lexeme.ofChars_of_append h
  obtain ⟨hleft, hright⟩ := List.forall_mem_append.mp hgap
  rw [tokenize_eq, tokenize_eq, h, String.toList_ofList, List.flatMap_append, List.flatMap_cons,
    Lexeme.text_ofSymbol, List.singleton_append, Lexeme.ofChars_append_separator hc,
    Lexeme.ofChars_cons_of_isDigit_eq_false (isDigit_eq_false_of_isSeparator hc), hbefore, hafter]
  simp only [List.filterMap_append, List.filterMap_cons, List.filterMap_eq_nil_iff.mpr hleft,
    List.filterMap_eq_nil_iff.mpr hright, List.append_nil]
  cases (ofSymbol c).token? <;> simp

/-! ### Runs of what is always passed over -/

theorem ofChars_append_of_isIgnored {gap : List Char} (h : ∀ c ∈ gap, isIgnored c)
    (s : List Char) : ofChars (gap ++ s) = gap.map .skipped ++ ofChars s := by
  induction gap with
  | nil => rfl
  | cons c gap ih =>
    obtain ⟨hc, hgap⟩ := List.forall_mem_cons.mp h
    have hdigit := isDigit_eq_false_of_isSeparator (isSeparator_of_isIgnored hc)
    rw [List.cons_append, Lexeme.ofChars_cons_of_isDigit_eq_false hdigit, ofSymbol_of_isIgnored hc,
      ih hgap]
    rfl

theorem tokenize_append_ignored_append {gap : String} (hne : gap ≠ "")
    (h : ∀ c ∈ gap.toList, isIgnored c) (u v : String) :
    tokenize (u ++ gap ++ v) = tokenize u ++ tokenize v := by
  obtain ⟨c, rest, hgap⟩ := List.exists_cons_of_ne_nil (mt String.toList_eq_nil_iff.mp hne)
  have hskipped := ofChars_append_of_isIgnored h v.toList
  rw [hgap, List.forall_mem_cons] at h
  have hcut : ofChars (u ++ gap ++ v).toList =
      ofChars u.toList ++ gap.toList.map .skipped ++ ofChars v.toList := by
    rw [String.toList_append, String.toList_append, List.append_assoc, List.append_assoc,
      ← hskipped, hgap, List.cons_append,
      Lexeme.ofChars_append_separator (isSeparator_of_isIgnored h.1)]
  have hnone : (gap.toList.map Lexeme.skipped).filterMap token? = [] := by
    simp [List.filterMap_map, token?]
  rw [tokenize_eq, tokenize_eq, tokenize_eq, hcut, List.filterMap_append, List.filterMap_append,
    hnone, List.append_nil]

theorem tokenize_append_ignored {gap : String} (h : ∀ c ∈ gap.toList, isIgnored c) (u : String) :
    tokenize (u ++ gap) = tokenize u := by
  by_cases hne : gap = ""
  · rw [hne, String.append_empty]
  · have happend := tokenize_append_ignored_append hne h u ""
    rwa [String.append_empty, tokenize_empty, List.append_nil] at happend

theorem tokenize_ignored_append {gap : String} (h : ∀ c ∈ gap.toList, isIgnored c) (v : String) :
    tokenize (gap ++ v) = tokenize v := by
  by_cases hne : gap = ""
  · rw [hne, String.empty_append]
  · have happend := tokenize_append_ignored_append hne h "" v
    rwa [String.empty_append, tokenize_empty, List.nil_append] at happend

/-- A text is cut at each separator, which is a symbol or passed over. So what is passed over next
to a separator may be left out, white space of every kind among it; and in place of white space may
stand any other amount of it. -/
theorem tokenize_between_separators :
    (∀ (u v : String) (c : Char), Numeral.isSeparator c →
      tokenize (u.push c ++ v) = tokenize u ++ (Token.ofSymbol? c).toList ++ tokenize v ∧
        ((Token.ofSymbol? c).isSome ↔ c ∈ ['(', ')', '*', '/', '^', '√', '!', '%'])) ∧
    (∀ (u v gap gap' : String) (c : Char), Numeral.isSeparator c →
      (∀ d ∈ gap.toList ++ gap'.toList, isIgnored d) →
        tokenize ((u ++ gap).push c ++ (gap' ++ v)) = tokenize (u.push c ++ v)) ∧
    (∀ (s : String) (before gap : List Lexeme) (c : Char) (gap' after : List Lexeme),
      Numeral.isSeparator c → ofChars s.toList = before ++ gap ++ ofSymbol c :: gap' ++ after →
        (∀ lexeme ∈ gap ++ gap', lexeme.token? = none) →
          tokenize (String.ofList ((before ++ ofSymbol c :: after).flatMap text)) = tokenize s) ∧
    (∀ c, isBlank c → isIgnored c) ∧
    ∀ u v gap gap' : String, gap ≠ "" → gap' ≠ "" →
      (∀ c ∈ gap.toList ++ gap'.toList, isIgnored c) →
        tokenize (u ++ gap ++ v) = tokenize (u ++ gap' ++ v) := by
  refine ⟨fun u v c hc ↦ ⟨tokenize_push_append hc u v, isSome_ofSymbol?_iff hc⟩, ?_,
    fun s before gap c gap' after ↦ tokenize_without_skipped, fun c ↦ isIgnored_of_isBlank, ?_⟩
  · intro u v gap gap' c hc hgap
    obtain ⟨hleft, hright⟩ := List.forall_mem_append.mp hgap
    rw [tokenize_push_append hc, tokenize_push_append hc, tokenize_append_ignored hleft,
      tokenize_ignored_append hright]
  · intro u v gap gap' hne hne' hgap
    obtain ⟨hleft, hright⟩ := List.forall_mem_append.mp hgap
    rw [tokenize_append_ignored_append hne hleft, tokenize_append_ignored_append hne' hright]

/-- In `2.e*.3` a marker and a point are passed over around the sign. An exponent that is only
started ends with the text as it ends before a parenthesis. -/
theorem tokenize_started_exponent :
    tokenize ("2e+".push '(' ++ "3") = tokenize "2e+" ++ [.openParenthesis] ++ tokenize "3" ∧
      tokenize (("1." ++ "\u00a0").push '√' ++ ("\t " ++ "9")) = tokenize ("1.".push '√' ++ "9") ∧
      tokenize "2.*3" = tokenize "2.e*.3" ∧
      tokenize ("1" ++ " " ++ "2") = tokenize ("1" ++ "\u2003\n" ++ "2") := by
  obtain ⟨hsplit, haround, hskipped, -, hrun⟩ := tokenize_between_separators
  refine ⟨(hsplit "2e+" "3" '(' (by decide)).1,
    haround _ _ _ _ '√' (by decide) (List.all_eq_true.mp (by decide)), ?_,
    hrun _ _ _ _ (by decide) (by decide) (List.all_eq_true.mp (by decide))⟩
  exact hskipped "2.e*.3" [.token (.number "2.")] [.skipped 'e'] '*' [.skipped '.']
    [.token (.number "3")] (by decide) (by decide +kernel) (by decide)

end PocketCalculator
