import Mathlib.Algebra.BigOperators.Group.List.Basic
import Mathlib.Tactic.Ring
import PocketCalculator.Calculation
import PocketCalculator.Proofs.Postfix.Reading
import PocketCalculator.Proofs.Postfix.TreeEvaluation

/-!
# Expressions that have a value though they are not well formed

The conversion to postfix order checks no neighbours, and the evaluation counts operands only. So
`2 3 +` has a value, as well as `2 + 3`. What a value does say of the tokens is a balance: read from
left to right, past every fault, they lack as many operands as they have too many
(`count_faults_of_calculate`). The only other fault that goes unnoticed is an operator that should
stand behind its operand and stands in front of it, as in `! 3`.
-/

namespace PocketCalculator

/-- What the next token of a well-formed expression has to be. -/
inductive Place
  | operand
  | operator
  deriving DecidableEq, Repr

namespace Place

def next : Place → Token → Option Place
  | operand, .number _ => some operator
  | operand, .openParenthesis => some operand
  | operand, .operator .subtract | operand, .operator .root => some operand
  | operand, _ => none
  | operator, .closeParenthesis => some operator
  | operator, .operator op =>
    match op.arity with
    | .unary => some operator
    | .binary => some operand
  | operator, _ => none

/-- The place behind a token, whether or not the token stands where it may. -/
def after (place : Place) : Token → Place
  | .number _ | .closeParenthesis => operator
  | .openParenthesis => operand
  | .operator op =>
    match op.arity with
    | .unary => place
    | .binary => operand

end Place

def WellFormed (ts : List Token) : Prop :=
  ts.foldlM Place.next .operand = some .operator

instance (ts : List Token) : Decidable (WellFormed ts) :=
  inferInstanceAs (Decidable (_ = _))

inductive Fault
  | missing
  | surplus
  | misplaced
  deriving DecidableEq, Repr

/-- A minus or a root with an operand left out in front of it stands where an operand begins. -/
def beginsOperand (previous : Option Token) : Token → Bool
  | .number _ | .openParenthesis => true
  | .closeParenthesis => false
  | .operator op => (omittedOperand? previous op).isSome

def fault? (place : Place) (previous : Option Token) (t : Token) : Option Fault :=
  match place, beginsOperand previous t with
  | .operator, true => some .surplus
  | .operand, false =>
    if t = .operator .factorial ∨ t = .operator .percent then some .misplaced else some .missing
  | .operator, false | .operand, true => none

/-- The faults from a place on, after the given token. -/
def faultsFrom : Place → Option Token → List Token → List Fault
  | .operand, _, [] => [.missing]
  | .operator, _, [] => []
  | place, previous, t :: ts =>
    (fault? place previous t).toList ++ faultsFrom (place.after t) (some t) ts

def faults (ts : List Token) : List Fault :=
  faultsFrom .operand none ts

theorem faultsFrom_cons (place : Place) (previous : Option Token) (t : Token) (ts : List Token) :
    faultsFrom place previous (t :: ts) =
      (fault? place previous t).toList ++ faultsFrom (place.after t) (some t) ts := by
  cases place <;> rfl

/-! ### The balance of operands -/

/-- How many operands more than before there are after a token of a postfix list. -/
def Token.weight : Token → ℤ
  | .number _ => 1
  | .operator op =>
    match op.arity with
    | .unary => 0
    | .binary => -1
  | .openParenthesis | .closeParenthesis => 0

def balance (ts : List Token) : ℤ :=
  (ts.map Token.weight).sum

@[simp] theorem balance_nil : balance [] = 0 := rfl

@[simp] theorem balance_append (ts us : List Token) :
    balance (ts ++ us) = balance ts + balance us := by
  simp [balance]

@[simp] theorem balance_cons (t : Token) (ts : List Token) :
    balance (t :: ts) = t.weight + balance ts := by
  simp [balance]

theorem OperatorTree.balance_listing (t : OperatorTree) : balance t.listing = 1 := by
  induction t with
  | number text => rfl
  | unary op h operand ih => simp [listing, ih, Token.weight, h]
  | binary op h left right ihl ihr => simp [listing, ihl, ihr, Token.weight, h]

theorem Postfix.balance_of_evaluate {ts : List Token} {v : Float}
    (h : Postfix.evaluate ts = .ok v) : balance ts = 1 := by
  by_contra hbalance
  have hlisting : ∀ t : OperatorTree, t.listing ≠ ts := by
    rintro t rfl
    exact hbalance t.balance_listing
  obtain ⟨row, later, -, hrow⟩ := OperatorTree.evaluate_of_forall_listing_ne hlisting
  rw [hrow] at h
  obtain ⟨values, -, hvalues⟩ := Except.bind_eq_ok_iff.mp h
  cases hvalues

variable {c next last : Conversion} {t : Token} {ts handedOut : List Token}
variable {place : Place} {previous : Option Token}

theorem balance_filter_broughtBy (previous : Option Token) (t : Token) :
    balance ((broughtBy previous t).filter Token.isNumber) +
        balance ((broughtBy previous t).filter Token.isOperator) =
      balance (broughtBy previous t) := by
  cases t with
  | number text | openParenthesis | closeParenthesis => rfl
  | operator op =>
    rw [filter_isNumber_broughtBy_operator, filter_isOperator_broughtBy_operator, broughtBy,
      balance_append]

theorem Conversion.balance_of_step (h : c.step t = .ok (handedOut, next)) :
    balance handedOut + balance next.finish =
      balance c.finish + balance (broughtBy c.previous t) := by
  obtain ⟨released, kept, hfinish, rfl, hnext, -⟩ := exists_of_step h
  have hbrought := balance_filter_broughtBy c.previous t
  rw [hnext, ← hfinish, ← hbrought]
  simp only [balance_append]
  ring

/-! ### Faults make up for each other -/

/-- The operands complete at a place. -/
def Place.complete : Place → ℤ
  | .operand => 0
  | .operator => 1

/-- Where an operand is due, none has just ended. -/
def Place.Follows (place : Place) (previous : Option Token) : Prop :=
  place = .operand → ∀ t, previous = some t → t.isNumber = false ∧ t ≠ .closeParenthesis

theorem Place.follows_after (place : Place) (t : Token) : (place.after t).Follows (some t) := by
  rintro hplace u ⟨⟩
  cases t with
  | number text | closeParenthesis => cases hplace
  | openParenthesis => exact ⟨rfl, Token.noConfusion⟩
  | operator op => exact ⟨rfl, Token.noConfusion⟩

def excess (fs : List Fault) : ℤ :=
  fs.count .surplus - fs.count .missing

theorem excess_append (fs gs : List Fault) : excess (fs ++ gs) = excess fs + excess gs := by
  simp only [excess, List.count_append, Nat.cast_add]
  ring

theorem isSome_omittedOperand?_iff (h : Place.Follows .operand previous) (op : Operator) :
    (omittedOperand? previous op).isSome ↔ op = .subtract ∨ op = .root := by
  have hprevious := h rfl
  cases previous with
  | none => cases op <;> decide
  | some t =>
    obtain ⟨hnumber, hclose⟩ := hprevious t rfl
    cases t with
    | number text => cases hnumber
    | closeParenthesis => cases hclose rfl
    | openParenthesis | operator sign => cases op <;> simp [omittedOperand?]

theorem balance_broughtBy_operator (previous : Option Token) (op : Operator) :
    balance (broughtBy previous (.operator op)) =
      (if (omittedOperand? previous op).isSome then 1 else 0) + (Token.operator op).weight := by
  rw [broughtBy, balance_append]
  unfold omittedOperand?
  split <;> simp [Token.weight]

/-- A token completes operands as a well-formed one does, but for its fault. -/
theorem balance_broughtBy (h : place.Follows previous) (t : Token) :
    balance (broughtBy previous t) + place.complete =
      (place.after t).complete + excess (fault? place previous t).toList := by
  cases t with
  | number text | openParenthesis | closeParenthesis => cases place <;> rfl
  | operator op =>
    rw [balance_broughtBy_operator]
    cases place with
    | operator =>
      cases homitted : (omittedOperand? previous op).isSome <;> cases op <;>
        simp [fault?, beginsOperand, homitted] <;> rfl
    | operand =>
      have homitted := isSome_omittedOperand?_iff h op
      cases op <;> simp_all [fault?, beginsOperand] <;> rfl

theorem Conversion.balance_of_run (hrun : c.run ts = .ok (handedOut, last))
    (hplace : place.Follows c.previous) :
    balance handedOut + balance last.finish + place.complete =
      balance c.finish + 1 + excess (faultsFrom place c.previous ts) := by
  induction ts generalizing c handedOut place with
  | nil =>
    cases hrun
    cases place <;> simp [Place.complete, faultsFrom, excess]
  | cons t ts ih =>
    obtain ⟨first, next, later, hstep, hlater, rfl⟩ := exists_of_run_cons hrun
    have hbefore := balance_of_step hstep
    have hprevious := previous_of_step hstep
    have hfollows : (place.after t).Follows next.previous := by
      rw [hprevious]
      exact place.follows_after t
    have hafter := ih hlater hfollows
    have htoken := balance_broughtBy hplace t
    rw [faultsFrom_cons, ← hprevious, excess_append, balance_append]
    omega

/-! ### The scan of a well-formed expression -/

theorem Place.next_operand (h : Place.Follows .operand previous) (t : Token) :
    Place.next .operand t =
      if beginsOperand previous t then some (Place.after .operand t) else none := by
  cases t with
  | number text | openParenthesis | closeParenthesis => rfl
  | operator op =>
    have homitted := isSome_omittedOperand?_iff h op
    cases op <;> simp_all [next, beginsOperand] <;> rfl

theorem Place.next_operator (t : Token) :
    Place.next .operator t =
      if t.isNumber ∨ t = .openParenthesis then none else some (Place.after .operator t) := by
  cases t with
  | number text | openParenthesis | closeParenthesis => rfl
  | operator op => cases op <;> rfl

theorem next_of_fault?_eq_none (h : place.Follows previous)
    (hfault : fault? place previous t = none) : place.next t = some (place.after t) := by
  cases hbegins : beginsOperand previous t with
  | true =>
    cases place with
    | operator => simp [fault?, hbegins] at hfault
    | operand => rw [Place.next_operand h, if_pos hbegins]
  | false =>
    cases place with
    | operator =>
      rw [Place.next_operator, if_neg]
      rintro (hnumber | rfl)
      · cases t with
        | number text => cases hbegins
        | operator op | openParenthesis | closeParenthesis => cases hnumber
      · cases hbegins
    | operand =>
      simp only [fault?, hbegins] at hfault
      split at hfault <;> cases hfault

theorem fault?_of_next (h : place.Follows previous) {behind : Place}
    (hnext : place.next t = some behind) :
    behind = place.after t ∧ ∀ fault ∈ fault? place previous t, fault = .surplus := by
  cases place with
  | operator =>
    rw [Place.next_operator] at hnext
    split at hnext
    · cases hnext
    · constructor
      · exact (Option.some.inj hnext).symm
      · intro fault hfault
        cases hbegins : beginsOperand previous t with
        | true =>
          simp only [fault?, hbegins, Option.mem_some_iff] at hfault
          exact hfault.symm
        | false => simp [fault?, hbegins] at hfault
  | operand =>
    rw [Place.next_operand h] at hnext
    split at hnext
    · next hbegins =>
      constructor
      · exact (Option.some.inj hnext).symm
      · intro fault hfault
        simp [fault?, hbegins] at hfault
    · cases hnext

theorem foldlM_next_of_faultsFrom_eq_nil (h : place.Follows previous)
    (hfaults : faultsFrom place previous ts = []) :
    ts.foldlM Place.next place = some .operator := by
  induction ts generalizing place previous with
  | nil =>
    cases place with
    | operand => cases hfaults
    | operator => rfl
  | cons t ts ih =>
    rw [faultsFrom_cons, List.append_eq_nil_iff, Option.toList_eq_nil_iff] at hfaults
    rw [List.foldlM_cons, next_of_fault?_eq_none h hfaults.1]
    exact ih (place.follows_after t) hfaults.2

theorem eq_surplus_of_foldlM_next (h : place.Follows previous)
    (hscan : ts.foldlM Place.next place = some .operator) :
    ∀ fault ∈ faultsFrom place previous ts, fault = .surplus := by
  induction ts generalizing place previous with
  | nil =>
    cases hscan
    intro fault hfault
    cases hfault
  | cons t ts ih =>
    rw [List.foldlM_cons] at hscan
    obtain ⟨behind, hnext, hrest⟩ := Option.bind_eq_some_iff.mp hscan
    obtain ⟨rfl, hfault⟩ := fault?_of_next h hnext
    intro fault hmem
    rw [faultsFrom_cons, List.mem_append, Option.mem_toList] at hmem
    rcases hmem with hhere | hlater
    · exact hfault fault hhere
    · exact ih (place.follows_after t) hrest fault hlater

theorem Place.follows_none (place : Place) : place.Follows none := by
  intro _ t ht
  cases ht

/-- Where an expression has a value, operands missing and operands too many are equal in number, and
the expression is well formed exactly if it has none of them and no operator stands in front of
the operand it should follow. -/
theorem count_faults_of_calculate {expression : String} {v : Float}
    (h : calculate expression = .ok v) :
    (faults (tokenize expression)).count .missing = (faults (tokenize expression)).count .surplus ∧
    (WellFormed (tokenize expression) ↔
      .surplus ∉ faults (tokenize expression) ∧ .misplaced ∉ faults (tokenize expression)) := by
  obtain ⟨ts, hconvert, hvalue⟩ := Except.bind_eq_ok_iff.mp h
  obtain ⟨⟨handedOut, last⟩, hrun, hts⟩ := Except.bind_eq_ok_iff.mp hconvert
  obtain rfl : handedOut ++ last.finish = ts := Except.ok.inj hts
  have hfollows : Place.Follows .operand Conversion.start.previous := Place.follows_none _
  have hbalance := Postfix.balance_of_evaluate hvalue
  have hfaults := Conversion.balance_of_run hrun hfollows
  have hstart : balance Conversion.start.finish = 0 := rfl
  have hcount : (faults (tokenize expression)).count .missing =
      (faults (tokenize expression)).count .surplus := by
    rw [balance_append] at hbalance
    simp only [excess, Place.complete, Conversion.start] at hfaults hstart
    rw [faults]
    omega
  refine ⟨hcount, ?_⟩
  constructor
  · intro hscan
    have honly := eq_surplus_of_foldlM_next (Place.follows_none .operand) hscan
    have hmissing : (faults (tokenize expression)).count .missing = 0 := by
      apply List.count_eq_zero.mpr
      intro hmem
      cases honly _ hmem
    constructor
    · rw [← List.count_eq_zero, ← hcount, hmissing]
    · intro hmem
      cases honly _ hmem
  · rintro ⟨hsurplus, hmisplaced⟩
    have hmissing : .missing ∉ faults (tokenize expression) := by
      rw [← List.count_eq_zero, hcount, List.count_eq_zero]
      exact hsurplus
    apply foldlM_next_of_faultsFrom_eq_nil (Place.follows_none .operand)
    apply List.eq_nil_iff_forall_not_mem.mpr
    rintro (_ | _ | _) hmem
    · exact hmissing hmem
    · exact hsurplus hmem
    · exact hmisplaced hmem

/-- Two operands too many come first, and the two operators behind them lack as many. -/
theorem faults_of_calculate_three_numbers :
    calculate "2 3 4 + *" = .ok 14 ∧
    (faults (tokenize "2 3 4 + *")).count .missing =
      (faults (tokenize "2 3 4 + *")).count .surplus ∧
    (WellFormed (tokenize "2 3 4 + *") ↔
      .surplus ∉ faults (tokenize "2 3 4 + *") ∧ .misplaced ∉ faults (tokenize "2 3 4 + *")) := by
  have hvalue : calculate "2 3 4 + *" = .ok 14 := by decide +kernel
  exact ⟨hvalue, count_faults_of_calculate hvalue⟩

theorem not_forall_wellFormed_of_calculate :
    ¬ ∀ expression v, calculate expression = .ok v → WellFormed (tokenize expression) := by
  intro h
  have hvalue : calculate "2 3 +" = .ok 5 := by decide +kernel
  have hscan : ¬ WellFormed (tokenize "2 3 +") := by decide +kernel
  exact hscan (h "2 3 +" 5 hvalue)

end PocketCalculator
