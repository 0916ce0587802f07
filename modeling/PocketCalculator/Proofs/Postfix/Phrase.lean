import Mathlib.Data.List.Chain
import PocketCalculator.Proofs.Postfix.OperatorTree

/-!
# The grammar of expressions

A phrase is a derivation tree of the grammar

    sum       := product | '-' product | sum '+' product | sum '-' product | sum '%'
    product   := power | product '*' power | product '/' power
    power     := postfixed | postfixed '^' power | '√' power | NUMBER '√' power
    postfixed := NUMBER | '(' sum ')' | postfixed '!'

It spells a token list, and it stands for an operator tree in which the parentheses are gone and
the operands left out in front of `-` and `√` are written out.
-/

namespace PocketCalculator

inductive Nonterminal
  | sum
  | product
  | power
  | postfixed
  deriving DecidableEq, Repr

inductive Phrase : Nonterminal → Type
  | ofProduct (p : Phrase .product) : Phrase .sum
  | negative (p : Phrase .product) : Phrase .sum
  | add (s : Phrase .sum) (p : Phrase .product) : Phrase .sum
  | subtract (s : Phrase .sum) (p : Phrase .product) : Phrase .sum
  | percent (s : Phrase .sum) : Phrase .sum
  | ofPower (p : Phrase .power) : Phrase .product
  | multiply (p : Phrase .product) (q : Phrase .power) : Phrase .product
  | divide (p : Phrase .product) (q : Phrase .power) : Phrase .product
  | ofPostfixed (p : Phrase .postfixed) : Phrase .power
  | raise (p : Phrase .postfixed) (q : Phrase .power) : Phrase .power
  | squareRoot (p : Phrase .power) : Phrase .power
  | root (degree : String) (p : Phrase .power) : Phrase .power
  | number (text : String) : Phrase .postfixed
  | group (s : Phrase .sum) : Phrase .postfixed
  | factorial (p : Phrase .postfixed) : Phrase .postfixed

namespace Phrase

variable {k : Nonterminal}

def tokens : {k : Nonterminal} → Phrase k → List Token
  | _, ofProduct p => p.tokens
  | _, negative p => .operator .subtract :: p.tokens
  | _, add s p => s.tokens ++ .operator .add :: p.tokens
  | _, subtract s p => s.tokens ++ .operator .subtract :: p.tokens
  | _, percent s => s.tokens ++ [.operator .percent]
  | _, ofPower p => p.tokens
  | _, multiply p q => p.tokens ++ .operator .multiply :: q.tokens
  | _, divide p q => p.tokens ++ .operator .divide :: q.tokens
  | _, ofPostfixed p => p.tokens
  | _, raise p q => p.tokens ++ .operator .power :: q.tokens
  | _, squareRoot p => .operator .root :: p.tokens
  | _, root degree p => .number degree :: .operator .root :: p.tokens
  | _, number text => [.number text]
  | _, group s => .openParenthesis :: s.tokens ++ [.closeParenthesis]
  | _, factorial p => p.tokens ++ [.operator .factorial]

/-- The operator tree that a phrase stands for. -/
def tree : {k : Nonterminal} → Phrase k → OperatorTree
  | _, ofProduct p => p.tree
  | _, negative p => .binary .subtract rfl (.number "0") p.tree
  | _, add s p => .binary .add rfl s.tree p.tree
  | _, subtract s p => .binary .subtract rfl s.tree p.tree
  | _, percent s => .unary .percent rfl s.tree
  | _, ofPower p => p.tree
  | _, multiply p q => .binary .multiply rfl p.tree q.tree
  | _, divide p q => .binary .divide rfl p.tree q.tree
  | _, ofPostfixed p => p.tree
  | _, raise p q => .binary .power rfl p.tree q.tree
  | _, squareRoot p => .binary .root rfl (.number "2") p.tree
  | _, root degree p => .binary .root rfl (.number degree) p.tree
  | _, number text => .number text
  | _, group s => s.tree
  | _, factorial p => .unary .factorial rfl p.tree

theorem exists_getLast?_tokens (p : Phrase k) :
    ∃ t, p.tokens.getLast? = some t ∧
      ((∃ text, t = .number text) ∨ t = .closeParenthesis ∨
        t ∈ [Token.operator .factorial, .operator .percent]) := by
  induction p with
  | ofProduct p ih | ofPower p ih | ofPostfixed p ih => exact ih
  | negative p ih | squareRoot p ih =>
    obtain ⟨t, ht, hkind⟩ := ih
    exact ⟨t, by simp [tokens, List.getLast?_cons, ht], hkind⟩
  | add s p _ ih | subtract s p _ ih | multiply s p _ ih | divide s p _ ih | raise s p _ ih =>
    obtain ⟨t, ht, hkind⟩ := ih
    exact ⟨t, by simp [tokens, List.getLast?_cons, ht], hkind⟩
  | root degree p ih =>
    obtain ⟨t, ht, hkind⟩ := ih
    exact ⟨t, by simp [tokens, List.getLast?_cons, ht], hkind⟩
  | number text => exact ⟨.number text, rfl, .inl ⟨text, rfl⟩⟩
  | group s => exact ⟨.closeParenthesis, by simp [tokens, List.getLast?_cons], .inr (.inl rfl)⟩
  | percent s => exact ⟨.operator .percent, by simp [tokens], .inr (.inr (by simp))⟩
  | factorial p => exact ⟨.operator .factorial, by simp [tokens], .inr (.inr (by simp))⟩

end Phrase

/-- No minus stands directly after a factorial or percent sign. -/
def MinusApart (ts : List Token) : Prop :=
  ts.IsChain fun earlier later ↦
    earlier ∈ [Token.operator .factorial, .operator .percent] → later ≠ .operator .subtract

namespace MinusApart

instance : DecidablePred MinusApart := fun ts ↦
  inferInstanceAs (Decidable (ts.IsChain _))

variable {ts us : List Token}

theorem of_append_left (h : MinusApart (ts ++ us)) : MinusApart ts :=
  (List.isChain_append.mp h).1

theorem of_append_right (h : MinusApart (ts ++ us)) : MinusApart us :=
  (List.isChain_append.mp h).2.1

theorem of_cons {t : Token} (h : MinusApart (t :: ts)) : MinusApart ts := by
  rw [← List.singleton_append] at h
  exact h.of_append_right

theorem getLast?_ne {t : Token} (h : MinusApart (ts ++ .operator .subtract :: us))
    (ht : ts.getLast? = some t) : t ∉ [Token.operator .factorial, .operator .percent] := by
  intro hpostfix
  exact (List.isChain_append.mp h).2.2 t ht _ rfl hpostfix rfl

end MinusApart

end PocketCalculator
