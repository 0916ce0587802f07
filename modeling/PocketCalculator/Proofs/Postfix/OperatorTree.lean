import PocketCalculator.Postfix.Evaluation
import PocketCalculator.Proofs.Sequencing

/-!
# Operator trees

An operator tree is an expression whose structure is settled: each operator stands over as many
operands as it takes, and the numbers are at the leaves. Its listing names the nodes in post-order.

A token list is the listing of at most one tree. To see this, read it back: `grow?` adds one token
to a row of trees, and the row after a whole list is the only one with that listing
(`growAll?_eq_some_iff`).
-/

namespace PocketCalculator

inductive OperatorTree
  | number (text : String)
  | unary (op : Operator) (h : op.arity = .unary) (operand : OperatorTree)
  | binary (op : Operator) (h : op.arity = .binary) (left right : OperatorTree)
  deriving DecidableEq, Repr

namespace OperatorTree

/-- The tokens of the nodes in post-order. -/
def listing : OperatorTree → List Token
  | number text => [.number text]
  | unary op _ operand => operand.listing ++ [.operator op]
  | binary op _ left right => left.listing ++ right.listing ++ [.operator op]

/-- The value of a tree: operands come before their operator, the left one first, and the first
failure ends the calculation. -/
def value : OperatorTree → Except CalculationError Float
  | number text => (Token.number text).value
  | unary op _ operand => do op.unaryValue (← operand.value)
  | binary op _ left right => do
    let leftValue ← left.value
    let rightValue ← right.value
    op.binaryValue leftValue rightValue

/-- The nodes in post-order, each with everything below it. -/
def nodes : OperatorTree → List OperatorTree
  | number text => [number text]
  | unary op h operand => operand.nodes ++ [unary op h operand]
  | binary op h left right => left.nodes ++ right.nodes ++ [binary op h left right]

def failure? (t : OperatorTree) : Option CalculationError :=
  match t.value with
  | .ok _ => none
  | .error e => some e

theorem failure?_eq_some_iff {t : OperatorTree} {e : CalculationError} :
    t.failure? = some e ↔ t.value = .error e := by
  unfold failure?
  split
  · next heq => simp [heq]
  · next heq => simp [heq]

/-- A tree fails as the first of its nodes in post-order that fails. -/
theorem findSome?_failure?_nodes (t : OperatorTree) :
    t.nodes.findSome? failure? = t.failure? := by
  induction t with
  | number text => simp [nodes]
  | unary op h operand ih =>
    rw [nodes, List.findSome?_append, ih]
    cases hoperand : operand.value with
    | error e => simp [failure?, value, hoperand]
    | ok v => simp [failure?, hoperand]
  | binary op h left right ihl ihr =>
    rw [nodes, List.findSome?_append, List.findSome?_append, ihl, ihr]
    cases hleft : left.value with
    | error e => simp [failure?, value, hleft]
    | ok l =>
      cases hright : right.value with
      | error e => simp [failure?, value, hleft, hright]
      | ok r => simp [failure?, hleft, hright]

/-! ### Rows of trees -/

/-- The listing of a row of trees, the last tree first. -/
def rowListing : List OperatorTree → List Token
  | [] => []
  | t :: before => rowListing before ++ t.listing

/-- A row of trees after one more token. An operator takes the last trees as its operands. -/
def grow? (row : List OperatorTree) : Token → Option (List OperatorTree)
  | .number text => some (number text :: row)
  | .operator op =>
    match h : op.arity, row with
    | .unary, operand :: before => some (unary op h operand :: before)
    | .binary, right :: left :: before => some (binary op h left right :: before)
    | _, _ => none
  | .openParenthesis | .closeParenthesis => none

def growAll? (row : List OperatorTree) (tokens : List Token) : Option (List OperatorTree) :=
  tokens.foldlM grow? row

theorem growAll?_append (row : List OperatorTree) (ts us : List Token) :
    growAll? row (ts ++ us) = (growAll? row ts).bind (growAll? · us) := by
  simp [growAll?]

theorem growAll?_singleton (row : List OperatorTree) (t : Token) :
    growAll? row [t] = grow? row t := by
  simp [growAll?]

theorem grow?_unary {op : Operator} (h : op.arity = .unary) (operand : OperatorTree)
    (before : List OperatorTree) :
    grow? (operand :: before) (.operator op) = some (unary op h operand :: before) := by
  cases op <;> first | rfl | cases h

theorem grow?_binary {op : Operator} (h : op.arity = .binary) (left right : OperatorTree)
    (before : List OperatorTree) :
    grow? (right :: left :: before) (.operator op) = some (binary op h left right :: before) := by
  cases op <;> first | rfl | cases h

/-- Everything a token can do to a row. -/
theorem grow?_cases {row grown : List OperatorTree} {t : Token} (h : grow? row t = some grown) :
    (∃ text, t = .number text ∧ grown = number text :: row) ∨
      (∃ op hop operand before, t = .operator op ∧ row = operand :: before ∧
        grown = unary op hop operand :: before) ∨
      ∃ op hop left right before, t = .operator op ∧ row = right :: left :: before ∧
        grown = binary op hop left right :: before := by
  unfold grow? at h
  split at h
  · next text =>
    cases h
    exact .inl ⟨text, rfl, rfl⟩
  · next op =>
    split at h
    · next operand before hop =>
      cases h
      exact .inr (.inl ⟨op, hop, operand, before, rfl, rfl, rfl⟩)
    · next right left before hop =>
      cases h
      exact .inr (.inr ⟨op, hop, left, right, before, rfl, rfl, rfl⟩)
    · cases h
  · cases h
  · cases h

theorem growAll?_listing (row : List OperatorTree) (t : OperatorTree) :
    growAll? row t.listing = some (t :: row) := by
  induction t generalizing row with
  | number text => rfl
  | unary op h operand ih =>
    rw [listing, growAll?_append, ih, Option.bind_some, growAll?_singleton, grow?_unary h]
  | binary op h left right ihl ihr =>
    rw [listing, growAll?_append, growAll?_append, ihl, Option.bind_some, ihr, Option.bind_some,
      growAll?_singleton, grow?_binary h]

theorem growAll?_rowListing (row : List OperatorTree) :
    growAll? [] (rowListing row) = some row := by
  induction row with
  | nil => rfl
  | cons t before ih => rw [rowListing, growAll?_append, ih, Option.bind_some, growAll?_listing]

theorem rowListing_of_grow? {row grown : List OperatorTree} {t : Token}
    (h : grow? row t = some grown) : rowListing grown = rowListing row ++ [t] := by
  obtain ⟨text, rfl, rfl⟩ | ⟨op, hop, operand, before, rfl, rfl, rfl⟩ |
    ⟨op, hop, left, right, before, rfl, rfl, rfl⟩ := grow?_cases h
  · rfl
  · simp [rowListing, listing]
  · simp [rowListing, listing]

theorem rowListing_of_growAll? {row grown : List OperatorTree} {ts : List Token}
    (h : growAll? row ts = some grown) : rowListing grown = rowListing row ++ ts := by
  induction ts generalizing row with
  | nil =>
    cases h
    simp
  | cons t ts ih =>
    rw [← List.singleton_append, growAll?_append, growAll?_singleton] at h
    obtain ⟨next, hnext, hgrown⟩ := Option.bind_eq_some_iff.mp h
    rw [ih hgrown, rowListing_of_grow? hnext, List.append_assoc, List.singleton_append]

/-- A token list is read as the one row of trees that it lists. -/
theorem growAll?_eq_some_iff {row : List OperatorTree} {ts : List Token} :
    growAll? [] ts = some row ↔ rowListing row = ts := by
  constructor
  · intro h
    exact rowListing_of_growAll? h
  · rintro rfl
    exact growAll?_rowListing row

theorem listing_injective {t u : OperatorTree} (h : t.listing = u.listing) : t = u := by
  have hrow : growAll? [] t.listing = some [u] := by rw [h, growAll?_listing]
  rw [growAll?_listing] at hrow
  exact (List.cons.inj (Option.some.inj hrow)).1

end OperatorTree

end PocketCalculator
