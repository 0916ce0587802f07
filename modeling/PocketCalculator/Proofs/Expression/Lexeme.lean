import PocketCalculator.Expression.Cursor

/-!
# The lexemes of a text

What a cursor moves over can be told from the characters behind it alone (`Lexeme.ofChars`): the
slice that is the text of a number consists of the longest numeral there (`Cursor.slice_eq`), and
before each lexeme stand the bytes of those that were cut off before it (`Cursor.lexemes_eq`).
-/

namespace PocketCalculator

/-! ### Bytes -/

@[simp] theorem byteCount_append (s t : List Char) :
    byteCount (s ++ t) = byteCount s + byteCount t := by
  rw [byteCount, String.ofList_append, String.utf8ByteSize_append]
  rfl

/-- A slice that starts and stops where a part of the string does is that part. -/
theorem extract_eq_of_eq_append {s first middle last : String} (h : s = first ++ middle ++ last)
    {start stop : s.Pos} (hstart : start.offset.byteIdx = first.utf8ByteSize)
    (hstop : stop.offset.byteIdx = first.utf8ByteSize + middle.utf8ByteSize) :
    s.extract start stop = middle := by
  subst h
  have hshift := ByteArray.extract_append_size_add (a := first.toByteArray)
    (b := middle.toByteArray ++ last.toByteArray) (i := 0) (j := middle.toByteArray.size)
  rw [Nat.add_zero] at hshift
  apply String.toByteArray_inj.mp
  rw [String.toByteArray_extract, hstart, hstop, String.toByteArray_append,
    String.toByteArray_append, ByteArray.append_assoc]
  exact hshift.trans (ByteArray.extract_append_eq_left rfl)

/-- What stands between two other parts of a string is a slice of it, between two positions that
are boundaries of characters. -/
theorem exists_extract_eq {s first middle last : String} (h : s = first ++ middle ++ last) :
    ∃ start stop : s.Pos, start.offset.byteIdx = first.utf8ByteSize ∧
      stop.offset.byteIdx = first.utf8ByteSize + middle.utf8ByteSize ∧
        s.extract start stop = middle := by
  have hstart : first.rawEndPos.IsValid s := String.Pos.Raw.isValid_iff_exists_append.mpr
    ⟨first, middle ++ last, by rw [h, String.append_assoc], rfl⟩
  have hstop : (first ++ middle).rawEndPos.IsValid s :=
    String.Pos.Raw.isValid_iff_exists_append.mpr ⟨first ++ middle, last, h, rfl⟩
  have hsize : (first ++ middle).utf8ByteSize = first.utf8ByteSize + middle.utf8ByteSize :=
    String.utf8ByteSize_append
  exact ⟨⟨_, hstart⟩, ⟨_, hstop⟩, rfl, hsize, extract_eq_of_eq_append h rfl hsize⟩

/-! ### Lexemes cut off characters -/

namespace Lexeme

variable {lexeme : Lexeme} {lexemes : List Lexeme} {c : Char} {start offset : Nat}

def text : Lexeme → List Char
  | token t => t.text.toList
  | skipped c => [c]

/-- The lexeme that starts with `c`, followed by `s`, and the text after it. -/
def first (c : Char) (s : List Char) : Lexeme × List Char :=
  if c.isDigit then
    let numeral := Numeral.span (c :: s)
    (token (.number (String.ofList numeral.1)), numeral.2)
  else
    match Token.ofSymbol? c with
    | some t => (token t, s)
    | none => (skipped c, s)

@[simp] theorem token?_ofSymbol (c : Char) : (ofSymbol c).token? = Token.ofSymbol? c := by
  unfold ofSymbol
  cases Token.ofSymbol? c <;> rfl

@[simp] theorem text_ofSymbol (c : Char) : (ofSymbol c).text = [c] := by
  unfold ofSymbol
  cases h : Token.ofSymbol? c with
  | none => rfl
  | some t => simp [text, Token.text_of_ofSymbol? h]

theorem first_of_isDigit (hc : c.isDigit) (s : List Char) :
    first c s = (token (.number (String.ofList (Numeral.span (c :: s)).1)),
      (Numeral.span (c :: s)).2) :=
  if_pos hc

theorem first_of_isDigit_eq_false (hc : c.isDigit = false) (s : List Char) :
    first c s = (ofSymbol c, s) := by
  rw [first, if_neg (by simp [hc]), ofSymbol]
  cases Token.ofSymbol? c <;> rfl

theorem text_first_append (c : Char) (s : List Char) :
    (first c s).1.text ++ (first c s).2 = c :: s := by
  cases hc : c.isDigit with
  | true => simp [first_of_isDigit hc, text, Token.text]
  | false => simp [first_of_isDigit_eq_false hc]

theorem length_first_lt (c : Char) (s : List Char) : (first c s).2.length < (c :: s).length := by
  cases hc : c.isDigit with
  | true =>
    rw [first_of_isDigit hc]
    exact Numeral.length_span_lt s hc
  | false =>
    rw [first_of_isDigit_eq_false hc]
    exact Nat.lt_succ_self _

def ofChars : List Char → List Lexeme
  | [] => []
  | c :: s => (first c s).1 :: ofChars (first c s).2
termination_by s => s.length
decreasing_by exact length_first_lt c s

@[simp] theorem ofChars_nil : ofChars [] = [] := by
  rw [ofChars]

theorem ofChars_cons (c : Char) (s : List Char) :
    ofChars (c :: s) = (first c s).1 :: ofChars (first c s).2 := by
  rw [ofChars]

/-- Cutting a text loses nothing. -/
@[simp] theorem flatMap_text_ofChars (s : List Char) : (ofChars s).flatMap text = s := by
  fun_induction ofChars s with
  | case1 => rfl
  | case2 c s ih => rw [List.flatMap_cons, ih, text_first_append]

/-! ### Offsets -/

/-- Lexemes, the first of which has `start` bytes before it, each with the bytes before it. -/
def withOffsets (start : Nat) : List Lexeme → List (Nat × Lexeme)
  | [] => []
  | lexeme :: lexemes => (start, lexeme) :: withOffsets (start + byteCount lexeme.text) lexemes

@[simp] theorem map_snd_withOffsets (start : Nat) (lexemes : List Lexeme) :
    (withOffsets start lexemes).map Prod.snd = lexemes := by
  induction lexemes generalizing start with
  | nil => rfl
  | cons lexeme lexemes ih => rw [withOffsets, List.map_cons, ih]

theorem exists_of_mem_withOffsets (h : (offset, lexeme) ∈ withOffsets start lexemes) :
    ∃ before after, lexemes = before ++ lexeme :: after ∧
      offset = start + byteCount (before.flatMap text) := by
  induction lexemes generalizing start with
  | nil => cases h
  | cons head lexemes ih =>
    rcases List.mem_cons.mp h with heq | hmem
    · cases heq
      exact ⟨[], lexemes, rfl, rfl⟩
    · obtain ⟨before, after, rfl, rfl⟩ := ih hmem
      refine ⟨head :: before, after, rfl, ?_⟩
      rw [List.flatMap_cons, byteCount_append, Nat.add_assoc]

end Lexeme

/-! ### Cursors -/

namespace Cursor

variable {cursor after : Cursor} {lexeme : Lexeme} {c : Char} {s read rest : List Char}

/-- The slice over the characters that are read consists of them. -/
theorem slice_eq (h : cursor.rest = read ++ rest) :
    cursor.slice read rest h = String.ofList read := by
  obtain ⟨before, hsource, hoffset⟩ := cursor.placed
  rw [h, String.ofList_append, ← String.append_assoc] at hsource
  apply extract_eq_of_eq_append hsource
  · exact hoffset
  · exact congrArg (· + byteCount read) hoffset

theorem lexeme?_of_rest_eq_nil (h : cursor.rest = []) : cursor.lexeme? = none := by
  unfold lexeme?
  split
  · rfl
  · next heq => cases h.symm.trans heq

theorem lexeme?_of_isDigit (h : cursor.rest = c :: s) (hc : c.isDigit) :
    cursor.lexeme? = some (.token (.number (String.ofList (Numeral.span (c :: s)).1)),
      cursor.past _ _ (h.trans (Numeral.span_append (c :: s)).symm)) := by
  unfold lexeme?
  split
  · next heq => cases h.symm.trans heq
  · next heq =>
    cases h.symm.trans heq
    rw [if_pos hc, ← slice_eq (h.trans (Numeral.span_append (c :: s)).symm)]

theorem lexeme?_of_isDigit_eq_false (h : cursor.rest = c :: s) (hc : c.isDigit = false) :
    cursor.lexeme? = some (.ofSymbol c, cursor.past [c] s h) := by
  unfold lexeme?
  split
  · next heq => cases h.symm.trans heq
  · next heq =>
    cases h.symm.trans heq
    exact if_neg (by simp [hc])

/-- A lexeme is cut off the characters behind the cursor, which counts the bytes that it takes. -/
theorem exists_lexeme?_eq (h : cursor.rest = c :: s) :
    ∃ after, cursor.lexeme? = some ((Lexeme.first c s).1, after) ∧
      after.rest = (Lexeme.first c s).2 ∧
      after.offset = cursor.offset + byteCount (Lexeme.first c s).1.text := by
  cases hc : c.isDigit with
  | true =>
    rw [lexeme?_of_isDigit h hc, Lexeme.first_of_isDigit hc]
    refine ⟨_, rfl, rfl, ?_⟩
    simp [past, Lexeme.text, Token.text]
  | false =>
    rw [lexeme?_of_isDigit_eq_false h hc, Lexeme.first_of_isDigit_eq_false hc]
    refine ⟨_, rfl, rfl, ?_⟩
    simp [past]

theorem lexemes_of_lexeme?_eq_none (h : cursor.lexeme? = none) : cursor.lexemes = [] := by
  rw [lexemes]
  split
  · rfl
  · next heq => cases h.symm.trans heq

theorem lexemes_of_lexeme? (h : cursor.lexeme? = some (lexeme, after)) :
    cursor.lexemes = (cursor.offset, lexeme) :: after.lexemes := by
  rw [lexemes]
  split
  · next heq => cases h.symm.trans heq
  · next heq =>
    cases h.symm.trans heq
    rfl

/-- The lexemes from a cursor on are those of the characters behind it. -/
theorem lexemes_eq (cursor : Cursor) :
    cursor.lexemes = Lexeme.withOffsets cursor.offset (Lexeme.ofChars cursor.rest) := by
  fun_induction lexemes cursor with
  | case1 cursor h =>
    cases hrest : cursor.rest with
    | nil => rw [Lexeme.ofChars_nil, Lexeme.withOffsets]
    | cons c s =>
      obtain ⟨after, hlexeme, -⟩ := exists_lexeme?_eq hrest
      cases h.symm.trans hlexeme
  | case2 cursor lexeme after h ih =>
    cases hrest : cursor.rest with
    | nil => cases h.symm.trans (lexeme?_of_rest_eq_nil hrest)
    | cons c s =>
      obtain ⟨after', hlexeme, hafter, hoffset⟩ := exists_lexeme?_eq hrest
      cases h.symm.trans hlexeme
      rw [ih, hafter, hoffset, Lexeme.ofChars_cons, Lexeme.withOffsets]

theorem lexemes_ofExpression (expression : String) : (ofExpression expression).lexemes =
    Lexeme.withOffsets 0 (Lexeme.ofChars expression.toList) :=
  lexemes_eq (ofExpression expression)

theorem tokens_eq (cursor : Cursor) :
    cursor.tokens = (Lexeme.ofChars cursor.rest).filterMap Lexeme.token? := by
  rw [tokens, lexemes_eq, Lexeme.map_snd_withOffsets]

end Cursor

theorem tokenize_eq (expression : String) :
    tokenize expression = (Lexeme.ofChars expression.toList).filterMap Lexeme.token? :=
  Cursor.tokens_eq (.ofExpression expression)

end PocketCalculator
