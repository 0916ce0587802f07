import PocketCalculator.Expression.Numeral
import PocketCalculator.Expression.Token

/-!
# Cursors

A cursor is a place in the text of an expression. It moves forward lexeme by lexeme: over tokens,
and over characters that belong to none. A digit starts a number, which takes the longest numeral
there. No more of the text is read than the tokens asked for.

A cursor knows how many bytes stand before it, always at the boundary of two characters. The text of
a number is the slice of the source between the cursors in front of it and behind it.
-/

namespace PocketCalculator

/-- How many bytes characters take. -/
def byteCount (s : List Char) : Nat :=
  (String.ofList s).utf8ByteSize

inductive Lexeme
  | token (t : Token)
  /-- A character that is passed over. -/
  | skipped (c : Char)
  deriving DecidableEq, Repr

namespace Lexeme

def token? : Lexeme → Option Token
  | token t => some t
  | skipped _ => none

/-- The lexeme of a character that is no digit: a symbol, or passed over. -/
def ofSymbol (c : Char) : Lexeme :=
  (Token.ofSymbol? c).elim (skipped c) token

end Lexeme

structure Cursor where
  source : String
  /-- The number of bytes before the cursor. -/
  offset : Nat
  /-- The characters behind it. -/
  rest : List Char
  placed : ∃ before, source = before ++ String.ofList rest ∧ offset = before.utf8ByteSize

namespace Cursor

def ofExpression (expression : String) : Cursor where
  source := expression
  offset := 0
  rest := expression.toList
  placed := ⟨"", by simp, rfl⟩

def position (cursor : Cursor) : cursor.source.Pos where
  offset := ⟨cursor.offset⟩
  isValid := by
    obtain ⟨before, hsource, hoffset⟩ := cursor.placed
    rw [hoffset]
    exact String.Pos.Raw.isValid_iff_exists_append.mpr ⟨before, _, hsource, rfl⟩

section Moves

variable (cursor : Cursor) (read rest : List Char) (h : cursor.rest = read ++ rest)

/-- The cursor moved over the characters that are read. -/
def past : Cursor where
  source := cursor.source
  offset := cursor.offset + byteCount read
  rest := rest
  placed := by
    obtain ⟨before, hsource, hoffset⟩ := cursor.placed
    refine ⟨before ++ String.ofList read, ?_, ?_⟩
    · rw [hsource, h, String.ofList_append, String.append_assoc]
    · rw [hoffset, String.utf8ByteSize_append, byteCount]

/-- The text from the cursor to where these characters end. -/
def slice : String :=
  cursor.source.extract cursor.position (cursor.past read rest h).position

def atEnd : Cursor :=
  cursor.past cursor.rest [] (List.append_nil _).symm

end Moves

/-- The lexeme that starts at the cursor, and the cursor behind it. -/
def lexeme? (cursor : Cursor) : Option (Lexeme × Cursor) :=
  match h : cursor.rest with
  | [] => none
  | c :: s =>
    if c.isDigit then
      let numeral := Numeral.span (c :: s)
      have hnumeral : cursor.rest = numeral.1 ++ numeral.2 := h.trans (Numeral.span_append _).symm
      some (.token (.number (cursor.slice _ _ hnumeral)), cursor.past _ _ hnumeral)
    else
      some (.ofSymbol c, cursor.past [c] s h)

theorem length_lt_of_lexeme? {cursor after : Cursor} {lexeme : Lexeme}
    (h : cursor.lexeme? = some (lexeme, after)) : after.rest.length < cursor.rest.length := by
  unfold lexeme? at h
  split at h
  · cases h
  · next c s hrest =>
    rw [hrest]
    split at h
    · next hc =>
      cases h
      exact Numeral.length_span_lt s hc
    · cases h
      exact Nat.lt_succ_self _

/-- The lexemes from the cursor on, each with the number of bytes before it. -/
def lexemes (cursor : Cursor) : List (Nat × Lexeme) :=
  match _h : cursor.lexeme? with
  | none => []
  | some (lexeme, after) => (cursor.offset, lexeme) :: after.lexemes
termination_by cursor.rest.length
decreasing_by exact length_lt_of_lexeme? ‹_›

def tokens (cursor : Cursor) : List Token :=
  (cursor.lexemes.map Prod.snd).filterMap Lexeme.token?

/-- The next token, whatever is passed over before it, and the cursor behind it. -/
def next? (cursor : Cursor) : Option (Token × Cursor) :=
  match _h : cursor.lexeme? with
  | none => none
  | some (.token t, after) => some (t, after)
  | some (.skipped _, after) => after.next?
termination_by cursor.rest.length
decreasing_by exact length_lt_of_lexeme? ‹_›

theorem length_lt_of_next? {cursor after : Cursor} {t : Token}
    (h : cursor.next? = some (t, after)) : after.rest.length < cursor.rest.length := by
  fun_induction next? cursor with
  | case1 => cases h
  | case2 cursor t after hlexeme =>
    cases h
    exact length_lt_of_lexeme? hlexeme
  | case3 cursor c after hlexeme ih => exact Nat.lt_trans (ih h) (length_lt_of_lexeme? hlexeme)

end Cursor

/-- The tokens of an expression, from left to right. -/
def tokenize (expression : String) : List Token :=
  (Cursor.ofExpression expression).tokens

end PocketCalculator
