import PocketCalculator.Expression.Cursor
import PocketCalculator.Postfix.Conversion

/-!
# Reading sessions

Several cursors move over one expression, each on its own. A conversion can be fed from a cursor: it
takes no more of the text than it needs, and a refused conversion leaves the cursor just after the
token that was refused.
-/

namespace PocketCalculator

/-- Feeds a conversion the tokens from the cursor on, until they end or one is refused: its
outcome, and the cursor it leaves. -/
def Cursor.convert (cursor : Cursor) (c : Conversion) :
    Except CalculationError (List Token) × Cursor :=
  match _h : cursor.next? with
  | none => (.ok c.finish, cursor.atEnd)
  | some (t, after) =>
    match c.step t with
    | .error e => (.error e, after)
    | .ok (first, next) =>
      let (outcome, left) := after.convert next
      (outcome.map (first ++ ·), left)
termination_by cursor.rest.length
decreasing_by exact Cursor.length_lt_of_next? ‹_›

theorem Cursor.convert_of_next?_eq_none {cursor : Cursor} (h : cursor.next? = none)
    (c : Conversion) : cursor.convert c = (.ok c.finish, cursor.atEnd) := by
  rw [convert]
  split
  · rfl
  · next heq => rw [h] at heq; cases heq

theorem Cursor.convert_of_step_eq_error {cursor after : Cursor} {t : Token} {c : Conversion}
    {e : CalculationError} (h : cursor.next? = some (t, after)) (hstep : c.step t = .error e) :
    cursor.convert c = (.error e, after) := by
  rw [convert]
  split
  · next heq => rw [h] at heq; cases heq
  · next heq =>
    rw [h] at heq
    cases heq
    rw [hstep]

theorem Cursor.convert_of_step_eq_ok {cursor after : Cursor} {t : Token} {c next : Conversion}
    {handedOut : List Token} (h : cursor.next? = some (t, after))
    (hstep : c.step t = .ok (handedOut, next)) :
    cursor.convert c =
      ((after.convert next).1.map (handedOut ++ ·), (after.convert next).2) := by
  rw [convert]
  split
  · next heq => rw [h] at heq; cases heq
  · next heq =>
    rw [h] at heq
    cases heq
    rw [hstep]

/-- What can be asked of the cursor with the given number. -/
inductive Request
  | next (cursor : Nat)
  | fork (cursor : Nat)
  | rest (cursor : Nat)
  | convert (cursor : Nat)
  deriving DecidableEq, Repr

inductive Answer
  | token (next : Option Token)
  | cursor (number : Nat)
  | tokens (rest : List Token)
  | conversion (outcome : Except CalculationError (List Token))

/-- The cursors of a session, numbered in order of creation. -/
structure Session where
  cursors : List Cursor

namespace Session

def start (expression : String) : Session :=
  ⟨[.ofExpression expression]⟩

def moved (session : Session) (number : Nat) (cursor : Cursor) : Session :=
  ⟨session.cursors.set number cursor⟩

/-- Answers one request, unless it names no cursor of the session. -/
def answer? (session : Session) : Request → Option (Answer × Session)
  | .next i => do
    let cursor ← session.cursors[i]?
    match cursor.next? with
    | some (t, after) => return (.token (some t), session.moved i after)
    | none => return (.token none, session.moved i cursor.atEnd)
  | .fork i => do
    let cursor ← session.cursors[i]?
    return (.cursor session.cursors.length, ⟨session.cursors ++ [cursor]⟩)
  | .rest i => do
    let cursor ← session.cursors[i]?
    return (.tokens cursor.tokens, session.moved i cursor.atEnd)
  | .convert i => do
    let cursor ← session.cursors[i]?
    let (outcome, left) := cursor.convert .start
    return (.conversion outcome, session.moved i left)

def answers? (session : Session) : List Request → Option (List Answer)
  | [] => some []
  | request :: later => do
    let (answer, session) ← session.answer? request
    return answer :: (← session.answers? later)

end Session

end PocketCalculator
