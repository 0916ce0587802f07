import Mathlib.Data.List.Perm.Basic
import PocketCalculator.Proofs.Postfix.WrittenOut

/-!
# What becomes of the tokens

A conversion loses no token, doubles none and invents none: it rearranges the tokens written out,
and drops their parentheses. The numbers keep their order, and no operator moves in front of a
number that it followed (`Postfix.ofInfix_rearranges`).

Equal tokens are told apart by their places among the tokens written out. The invariant of a run
(`Conversion.exists_placed_of_run`) follows each of the places: what waits and what was handed out
are together all that was read.
-/

namespace PocketCalculator

variable {c next last : Conversion} {t : Token} {ts handedOut : List Token}
variable {place : Nat} {waiting : List (Token × Nat)}

/-! ### Tokens with places -/

/-- The tokens of one kind, with their places. -/
def ofKind (kind : Token → Bool) (placed : List (Token × Nat)) : List (Token × Nat) :=
  placed.filter fun p ↦ kind p.1

/-- A number that comes after something else in a rearrangement followed it from the first. -/
def KeepsBehind (a b : Token × Nat) : Prop :=
  b.1.isNumber → a.2 < b.2

theorem map_fst_ofKind (kind : Token → Bool) (placed : List (Token × Nat)) :
    (ofKind kind placed).map Prod.fst = (placed.map Prod.fst).filter kind :=
  List.filter_map.symm

theorem mem_ofKind_iff {kind : Token → Bool} {placed : List (Token × Nat)} {p : Token × Nat} :
    p ∈ ofKind kind placed ↔ p ∈ placed ∧ kind p.1 :=
  List.mem_filter

theorem pairwise_zipIdx (ts : List Token) (place : Nat) :
    (ts.zipIdx place).Pairwise fun a b ↦ a.2 < b.2 := by
  apply List.pairwise_map.mp
  rw [List.zipIdx_map_snd]
  exact List.pairwise_lt_range'

theorem isNumber_and_not_isParenthesis (t : Token) :
    (t.isNumber && !t.isParenthesis) = t.isNumber := by
  cases t <;> rfl

theorem isOperator_and_not_isParenthesis (t : Token) :
    (t.isOperator && !t.isParenthesis) = t.isOperator := by
  cases t <;> rfl

/-- A token other than a parenthesis is a number or an operator, and not both. -/
theorem ofKind_perm (placed : List (Token × Nat)) :
    (ofKind Token.isNumber placed ++ ofKind Token.isOperator placed).Perm
      (ofKind (!·.isParenthesis) placed) := by
  have hsplit := List.filter_append_perm (fun p : Token × Nat ↦ p.1.isNumber)
    (ofKind (!·.isParenthesis) placed)
  have hoperator : ∀ t : Token, (!t.isNumber && !t.isParenthesis) = t.isOperator := by
    intro t
    cases t <;> rfl
  simpa only [ofKind, List.filter_filter, isNumber_and_not_isParenthesis, hoperator] using hsplit

theorem KeepsBehind.of_isNumber_eq_false {a b : Token × Nat} (h : b.1.isNumber = false) :
    KeepsBehind a b := by
  intro hnumber
  rw [h] at hnumber
  cases hnumber

theorem pairwise_append_operators {front operators : List (Token × Nat)}
    (hfront : front.Pairwise KeepsBehind) (h : ∀ p ∈ operators, p.1.isNumber = false) :
    (front ++ operators).Pairwise KeepsBehind := by
  refine List.pairwise_append.mpr ⟨hfront, ?_, ?_⟩
  · apply List.pairwise_of_forall_mem_list
    intro a _ b hb
    exact .of_isNumber_eq_false (h b hb)
  · intro a _ b hb
    exact .of_isNumber_eq_false (h b hb)

/-- The same tokens in another order, with no number in front of what it followed. -/
def Rearranges (placed tokens : List (Token × Nat)) : Prop :=
  placed.Perm tokens ∧ placed.Pairwise KeepsBehind

/-- The numbers just read may be moved to the front, and some of the waiting operators behind them,
if the places of all these are before those of the rest. -/
theorem Rearranges.front {read released kept rest placed : List (Token × Nat)}
    (h : Rearranges placed
      (ofKind Token.isOperator read ++ kept ++ ofKind (!·.isParenthesis) rest))
    (horder : read.Pairwise fun a b ↦ a.2 < b.2)
    (hoperators : ∀ p ∈ released ++ kept, p.1.isNumber = false)
    (hearlier : ∀ p ∈ released ++ kept ++ read, p.2 < place) (hlater : ∀ p ∈ rest, place ≤ p.2) :
    Rearranges (ofKind Token.isNumber read ++ released ++ placed)
      (released ++ kept ++ ofKind (!·.isParenthesis) (read ++ rest)) := by
  obtain ⟨hperm, hplaced⟩ := h
  constructor
  · have hread := ofKind_perm read
    rw [List.perm_iff_count] at hperm hread ⊢
    intro p
    have hp := hperm p
    have hq := hread p
    simp only [ofKind, List.filter_append, List.count_append] at hp hq ⊢
    omega
  · have hnumbers : (ofKind Token.isNumber read).Pairwise KeepsBehind := by
      apply (horder.filter _).imp
      intro a b hlt _
      exact hlt
    have hfront : (ofKind Token.isNumber read ++ released).Pairwise KeepsBehind := by
      apply pairwise_append_operators hnumbers
      intro p hp
      exact hoperators p (List.mem_append_left kept hp)
    refine List.pairwise_append.mpr ⟨hfront, hplaced, ?_⟩
    intro a ha b hb hnumber
    have hplace : a.2 < place := by
      rcases List.mem_append.mp ha with hmem | hmem
      · exact hearlier a (List.mem_append_right _ (mem_ofKind_iff.mp hmem).1)
      · exact hearlier a (List.mem_append_left read (List.mem_append_left kept hmem))
    -- A number that is still to be handed out is none of those read or waiting.
    have hrest : b ∈ rest := by
      rcases List.mem_append.mp (hperm.mem_iff.mp hb) with hmem | hmem
      · rcases List.mem_append.mp hmem with hread | hkept
        · have hoperator := (mem_ofKind_iff.mp hread).2
          cases hkind : b.1 <;> simp [hkind, Token.isNumber, Token.isOperator] at hnumber hoperator
        · rw [hoperators b (List.mem_append_right released hkept)] at hnumber
          cases hnumber
      · exact (mem_ofKind_iff.mp hmem).1
    exact Nat.lt_of_lt_of_le hplace (hlater b hrest)

/-! ### One step and a run -/

theorem filter_broughtBy (previous : Option Token) (t : Token) :
    (broughtBy previous t).filter Token.isNumber =
        (withUnwritten previous t).filter Token.isNumber ∧
      (broughtBy previous t).filter Token.isOperator =
        (withUnwritten previous t).filter Token.isOperator := by
  cases t with
  | number text | openParenthesis | closeParenthesis => exact ⟨rfl, rfl⟩
  | operator op =>
    rw [broughtBy, withUnwritten, unwritten_operator]
    exact ⟨rfl, rfl⟩

namespace Conversion

/-- A step hands out the numbers it reads and then some of what waits. The operators it reads wait
with the rest. -/
theorem exists_placed_of_step (h : c.step t = .ok (handedOut, next))
    (hwaiting : waiting.map Prod.fst = c.finish) (place : Nat) :
    ∃ released kept, waiting = released ++ kept ∧
      handedOut = (ofKind Token.isNumber ((withUnwritten c.previous t).zipIdx place) ++
        released).map Prod.fst ∧
      next.finish = (ofKind Token.isOperator ((withUnwritten c.previous t).zipIdx place) ++
        kept).map Prod.fst := by
  obtain ⟨first, rest, hfinish, hhandedOut, hnext, -⟩ := exists_of_step h
  obtain ⟨released, kept, rfl, rfl, rfl⟩ :=
    List.map_eq_append_iff.mp (hwaiting.trans hfinish.symm)
  obtain ⟨hnumbers, hoperators⟩ := filter_broughtBy c.previous t
  refine ⟨released, kept, rfl, ?_, ?_⟩
  · rw [hhandedOut, hnumbers, List.map_append, map_fst_ofKind, List.zipIdx_map_fst]
  · rw [hnext, hoperators, List.map_append, map_fst_ofKind, List.zipIdx_map_fst]

theorem isNumber_eq_false_of_mem_waiting (hwaiting : waiting.map Prod.fst = c.finish) :
    ∀ p ∈ waiting, p.1.isNumber = false := by
  intro p hp
  have hmem : p.1 ∈ c.finish := hwaiting ▸ List.mem_map_of_mem hp
  have hoperator := Pending.isOperator_of_mem_closeAll hmem
  cases h : p.1 with
  | operator op => rfl
  | number text | openParenthesis | closeParenthesis =>
    rw [h] at hoperator
    cases hoperator

/-- What a run hands out, followed by what then waits, is a rearrangement of what waited before and
of what was read. -/
theorem exists_placed_of_run (h : c.run ts = .ok (handedOut, last))
    (hwaiting : waiting.map Prod.fst = c.finish) (hplaces : ∀ p ∈ waiting, p.2 < place) :
    ∃ placed, placed.map Prod.fst = handedOut ++ last.finish ∧
      Rearranges placed (waiting ++
        ofKind (!·.isParenthesis) ((writtenOutAfter c.previous ts).zipIdx place)) := by
  induction ts generalizing c handedOut waiting place with
  | nil =>
    cases h
    refine ⟨waiting, hwaiting, by simp [writtenOutAfter, ofKind], ?_⟩
    exact pairwise_append_operators .nil (isNumber_eq_false_of_mem_waiting hwaiting)
  | cons t ts ih =>
    obtain ⟨first, next, later, hstep, hlater, rfl⟩ := exists_of_run_cons h
    have hoperators := isNumber_eq_false_of_mem_waiting hwaiting
    obtain ⟨released, kept, rfl, rfl, hnext⟩ := exists_placed_of_step hstep hwaiting place
    have hearlier : ∀ p ∈ released ++ kept ++ (withUnwritten c.previous t).zipIdx place,
        p.2 < place + (withUnwritten c.previous t).length := by
      intro p hp
      rcases List.mem_append.mp hp with hmem | hmem
      · exact Nat.lt_add_right _ (hplaces p hmem)
      · rw [Nat.add_comm]
        exact List.snd_lt_of_mem_zipIdx hmem
    have hwaits : ∀ p ∈ ofKind Token.isOperator ((withUnwritten c.previous t).zipIdx place) ++ kept,
        p.2 < place + (withUnwritten c.previous t).length := by
      intro p hp
      apply hearlier
      rcases List.mem_append.mp hp with hmem | hmem
      · exact List.mem_append_right _ (mem_ofKind_iff.mp hmem).1
      · exact List.mem_append_left _ (List.mem_append_right _ hmem)
    obtain ⟨placed, hmap, hplaced⟩ := ih hlater hnext.symm hwaits
    rw [previous_of_step hstep] at hplaced
    have hfront := hplaced.front (pairwise_zipIdx _ _) hoperators hearlier
      fun p hp ↦ List.le_snd_of_mem_zipIdx hp
    rw [← List.zipIdx_append] at hfront
    refine ⟨_, ?_, hfront⟩
    rw [List.map_append, hmap, List.append_assoc]

end Conversion

/-! ### The whole conversion -/

namespace Rearranges

variable {placed : List (Token × Nat)}

theorem filter_isNumber
    (h : Rearranges placed (ofKind (!·.isParenthesis) (ts.zipIdx place))) :
    (placed.map Prod.fst).filter Token.isNumber = ts.filter Token.isNumber := by
  have hplaced : (ofKind Token.isNumber placed).Pairwise fun a b ↦ a.2 < b.2 := by
    apply List.pairwise_filter.mpr
    apply h.2.imp
    intro a b hbehind _ hnumber
    exact hbehind hnumber
  have htokens : (ofKind Token.isNumber
      (ofKind (!·.isParenthesis) (ts.zipIdx place))).Pairwise fun a b ↦ a.2 < b.2 :=
    ((pairwise_zipIdx ts place).filter _).filter _
  -- Both are in the order of the places, and there is only one such order.
  have heq : ofKind Token.isNumber placed =
      ofKind Token.isNumber (ofKind (!·.isParenthesis) (ts.zipIdx place)) := by
    refine List.Perm.eq_of_pairwise ?_ hplaced htokens (h.1.filter _)
    intro a b _ _ hab hba
    exact absurd hab (Nat.lt_asymm hba)
  have hkind : ((placed.map Prod.fst).filter Token.isNumber) =
      (ts.filter (!·.isParenthesis)).filter Token.isNumber := by
    rw [← map_fst_ofKind, heq, map_fst_ofKind, map_fst_ofKind, List.zipIdx_map_fst]
  simpa only [List.filter_filter, isNumber_and_not_isParenthesis] using hkind

theorem filter_isOperator
    (h : Rearranges placed (ofKind (!·.isParenthesis) (ts.zipIdx place))) :
    ((placed.map Prod.fst).filter Token.isOperator).Perm (ts.filter Token.isOperator) := by
  have hkind := (h.1.map Prod.fst).filter Token.isOperator
  rw [map_fst_ofKind, List.zipIdx_map_fst, List.filter_filter] at hkind
  simpa only [isOperator_and_not_isParenthesis] using hkind

theorem isParenthesis_eq_false
    (h : Rearranges placed (ofKind (!·.isParenthesis) (ts.zipIdx place))) :
    ∀ t ∈ placed.map Prod.fst, t.isParenthesis = false := by
  intro t ht
  obtain ⟨p, hp, rfl⟩ := List.mem_map.mp ht
  have hkind := (mem_ofKind_iff.mp (h.1.mem_iff.mp hp)).2
  simpa using hkind

end Rearranges

theorem filter_isOperator_writtenOutAfter (previous : Option Token) (ts : List Token) :
    (writtenOutAfter previous ts).filter Token.isOperator = ts.filter Token.isOperator := by
  induction ts generalizing previous with
  | nil => rfl
  | cons t ts ih =>
    rcases withUnwritten_cases previous t with ⟨-, halone⟩ | ⟨text, op, rfl, -, htwo⟩
    · simp [writtenOutAfter, halone, List.filter_cons, ih]
    · simp [writtenOutAfter, htwo, List.filter_cons, ih, Token.isOperator]

namespace Postfix

variable {converted : List Token}

theorem exists_placed_of_ofInfix (h : ofInfix ts = .ok converted) :
    ∃ placed : List (Token × Nat), placed.map Prod.fst = converted ∧
      Rearranges placed (ofKind (!·.isParenthesis) (writtenOut ts).zipIdx) := by
  obtain ⟨⟨handedOut, last⟩, hrun, hconverted⟩ := Except.bind_eq_ok_iff.mp h
  obtain rfl : handedOut ++ last.finish = converted := Except.ok.inj hconverted
  have hwaiting : ([] : List (Token × Nat)).map Prod.fst = Conversion.start.finish := rfl
  have hplaces : ∀ p ∈ ([] : List (Token × Nat)), p.2 < 0 := by simp
  exact Conversion.exists_placed_of_run hrun hwaiting hplaces

theorem filter_isNumber_of_ofInfix (h : ofInfix ts = .ok converted) :
    converted.filter Token.isNumber = (writtenOut ts).filter Token.isNumber := by
  obtain ⟨placed, rfl, hplaced⟩ := exists_placed_of_ofInfix h
  exact hplaced.filter_isNumber

theorem isParenthesis_eq_false_of_ofInfix (h : ofInfix ts = .ok converted) :
    ∀ t ∈ converted, t.isParenthesis = false := by
  obtain ⟨placed, rfl, hplaced⟩ := exists_placed_of_ofInfix h
  exact hplaced.isParenthesis_eq_false

/-- A conversion hands out no parenthesis, the operators it reads, and the numbers it reads together
with those left out in writing, these in their order. Each token that is handed out has a place of
its own among the tokens written out, and none stands in front of a number that it followed there:
every operator comes after all numbers before it. -/
theorem ofInfix_rearranges (h : ofInfix ts = .ok converted) :
    (∀ t ∈ converted, t.isParenthesis = false) ∧
    (converted.filter Token.isOperator).Perm (ts.filter Token.isOperator) ∧
    converted.filter Token.isNumber = (writtenOut ts).filter Token.isNumber ∧
    ∃ placed : List (Token × Nat), placed.map Prod.fst = converted ∧
      Rearranges placed (ofKind (!·.isParenthesis) (writtenOut ts).zipIdx) := by
  obtain ⟨placed, rfl, hplaced⟩ := exists_placed_of_ofInfix h
  have hoperators := hplaced.filter_isOperator
  have hwritten : (writtenOut ts).filter Token.isOperator = ts.filter Token.isOperator :=
    filter_isOperator_writtenOutAfter none ts
  rw [hwritten] at hoperators
  exact ⟨hplaced.isParenthesis_eq_false, hoperators, filter_isNumber_of_ofInfix h, placed, rfl,
    hplaced⟩

/-- The parenthesis of `2! - √(3 + 4` is never closed, and two operands are left out. -/
theorem ofInfix_rearranges_unclosed :
    ofInfix [.number "2", .operator .factorial, .operator .subtract, .operator .root,
        .openParenthesis, .number "3", .operator .add, .number "4"] =
      .ok [.number "2", .number "0", .operator .factorial, .number "2", .number "3", .number "4",
        .operator .add, .operator .root, .operator .subtract] ∧
    [Token.operator .factorial, .operator .add, .operator .root, .operator .subtract].Perm
      [.operator .factorial, .operator .subtract, .operator .root, .operator .add] ∧
    ∃ placed : List (Token × Nat), placed.map Prod.fst =
        [.number "2", .number "0", .operator .factorial, .number "2", .number "3", .number "4",
          .operator .add, .operator .root, .operator .subtract] ∧
      Rearranges placed (ofKind (!·.isParenthesis) [(.number "2", 0), (.operator .factorial, 1),
        (.number "0", 2), (.operator .subtract, 3), (.number "2", 4), (.operator .root, 5),
        (.openParenthesis, 6), (.number "3", 7), (.operator .add, 8), (.number "4", 9)]) := by
  have h : ofInfix [.number "2", .operator .factorial, .operator .subtract, .operator .root,
        .openParenthesis, .number "3", .operator .add, .number "4"] =
      .ok [.number "2", .number "0", .operator .factorial, .number "2", .number "3", .number "4",
        .operator .add, .operator .root, .operator .subtract] := by
    rfl
  obtain ⟨-, hoperators, -, hplaced⟩ := ofInfix_rearranges h
  exact ⟨h, hoperators, hplaced⟩

end Postfix

end PocketCalculator
