import PocketCalculator.CalculationError
import PocketCalculator.Expression.Token

/-!
# From infix to postfix order

A conversion reads the tokens of an expression from left to right and hands out postfix tokens as it
goes. Between two tokens it remembers the operators and open parentheses that still wait, and the
token read last. Numbers are handed out at once; an operator first releases the waiting operators
that apply before it; a closing parenthesis releases its group.

Two operands may be left out in writing. A minus with no value before it negates, so that `-5` means
`0 - 5`; a root with no number before it is a square root, so that `√9` means `2 √ 9`.

Parentheses still open at the end are closed there. A closing parenthesis that nothing opened is
refused.
-/

namespace PocketCalculator

/-- What waits for its end: an operator for its right operand, a group for its parenthesis. -/
inductive Pending
  | operator (op : Operator)
  | group
  deriving DecidableEq, Repr

namespace Pending

def token? : Pending → Option Token
  | operator op => some (.operator op)
  | group => none

/-- The operators waiting innermost that apply before `next`, and what goes on waiting. -/
def release (next : Operator) : List Pending → List Token × List Pending
  | operator op :: rest =>
    if op.AppliesBefore next then
      let (released, kept) := release next rest
      (.operator op :: released, kept)
    else
      ([], operator op :: rest)
  | rest => ([], rest)

/-- The operators of the innermost group, and what waits outside it. -/
def close? : List Pending → Option (List Token × List Pending)
  | [] => none
  | group :: rest => some ([], rest)
  | operator op :: rest =>
    (close? rest).map fun (released, kept) ↦ (.operator op :: released, kept)

/-- Every operator that waits, innermost first. -/
def closeAll (pending : List Pending) : List Token :=
  pending.filterMap token?

theorem release_append_closeAll (next : Operator) (pending : List Pending) :
    (release next pending).1 ++ closeAll (release next pending).2 = closeAll pending := by
  fun_induction release next pending with
  | case1 op rest _ released kept heq ih =>
    rw [heq] at ih
    simpa [closeAll, token?] using ih
  | case2 => rfl
  | case3 => rfl

theorem append_closeAll_of_close? {pending kept : List Pending} {released : List Token}
    (h : close? pending = some (released, kept)) :
    released ++ closeAll kept = closeAll pending := by
  induction pending generalizing released with
  | nil => cases h
  | cons p rest ih =>
    cases p with
    | group =>
      cases h
      rfl
    | operator op =>
      obtain ⟨⟨r, k⟩, hrest, heq⟩ := Option.map_eq_some_iff.mp h
      cases heq
      have hk := ih hrest
      simpa [closeAll, token?] using hk

end Pending

/-- The operand left out in front of an operator, given the token before it. -/
def omittedOperand? : Option Token → Operator → Option Token
  | none, .subtract => some (.number "0")
  | some (.operator _), .subtract => some (.number "0")
  | some .openParenthesis, .subtract => some (.number "0")
  | some (.number _), .root => none
  | _, .root => some (.number "2")
  | _, _ => none

/-- A conversion between two tokens. What waits is listed innermost first. -/
structure Conversion where
  pending : List Pending
  previous : Option Token
  deriving DecidableEq, Repr

namespace Conversion

def start : Conversion := ⟨[], none⟩

/-- Reads one token: the postfix tokens handed out, and the conversion after it. -/
def step (c : Conversion) (t : Token) : Except CalculationError (List Token × Conversion) :=
  match t with
  | .number _ => .ok ([t], ⟨c.pending, some t⟩)
  | .openParenthesis => .ok ([], ⟨.group :: c.pending, some t⟩)
  | .closeParenthesis =>
    match Pending.close? c.pending with
    | some (released, kept) => .ok (released, ⟨kept, some t⟩)
    | none => .error .malformed
  | .operator op =>
    let (released, kept) := Pending.release op c.pending
    .ok ((omittedOperand? c.previous op).toList ++ released, ⟨.operator op :: kept, some t⟩)

def run (c : Conversion) : List Token → Except CalculationError (List Token × Conversion)
  | [] => .ok ([], c)
  | t :: ts => do
    let (first, next) ← c.step t
    let (later, last) ← next.run ts
    return (first ++ later, last)

def finish (c : Conversion) : List Token :=
  Pending.closeAll c.pending

@[simp] theorem run_nil (c : Conversion) : c.run [] = .ok ([], c) := rfl

theorem run_cons_of_ok {c next : Conversion} {t : Token} {first : List Token}
    (h : c.step t = .ok (first, next)) (ts : List Token) :
    c.run (t :: ts) = (next.run ts).map fun (later, last) ↦ (first ++ later, last) := by
  rw [run, h]
  show (next.run ts).bind _ = _
  cases next.run ts <;> rfl

theorem run_cons_of_error {c : Conversion} {t : Token} {e : CalculationError}
    (h : c.step t = .error e) (ts : List Token) : c.run (t :: ts) = .error e := by
  rw [run, h]
  rfl

theorem exists_of_run_cons {c last : Conversion} {t : Token} {ts handedOut : List Token}
    (h : c.run (t :: ts) = .ok (handedOut, last)) :
    ∃ first next later, c.step t = .ok (first, next) ∧ next.run ts = .ok (later, last) ∧
      handedOut = first ++ later := by
  cases hstep : c.step t with
  | error e =>
    rw [run_cons_of_error hstep] at h
    cases h
  | ok stepped =>
    rw [run_cons_of_ok hstep] at h
    cases hrun : stepped.2.run ts with
    | error e =>
      rw [hrun] at h
      cases h
    | ok rest =>
      rw [hrun] at h
      cases h
      exact ⟨stepped.1, stepped.2, rest.1, rfl, hrun, rfl⟩

/-- Reading a concatenation is reading its parts in turn. -/
theorem run_append (c : Conversion) (ts us : List Token) :
    c.run (ts ++ us) = do
      let (earlier, middle) ← c.run ts
      let (later, last) ← middle.run us
      return (earlier ++ later, last) := by
  induction ts generalizing c with
  | nil =>
    show c.run us = (c.run us).bind _
    cases c.run us <;> rfl
  | cons t ts ih =>
    cases hstep : c.step t with
    | error e => rw [List.cons_append, run_cons_of_error hstep, run_cons_of_error hstep]; rfl
    | ok stepped =>
      rw [List.cons_append, run_cons_of_ok hstep, run_cons_of_ok hstep, ih]
      cases stepped.2.run ts with
      | error e => rfl
      | ok middle =>
        simp only [Except.map, bind, Except.bind, pure, Except.pure]
        cases middle.2.run us <;> simp

end Conversion

namespace Postfix

/-- The tokens of an infix expression in postfix order. -/
def ofInfix (tokens : List Token) : Except CalculationError (List Token) := do
  let (handedOut, last) ← Conversion.start.run tokens
  return handedOut ++ last.finish

end Postfix

end PocketCalculator
