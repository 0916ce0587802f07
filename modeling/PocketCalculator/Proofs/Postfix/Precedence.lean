import PocketCalculator.Proofs.Postfix.Phrase
import PocketCalculator.Proofs.Postfix.Reading

/-!
# Conversion follows the grammar

While a phrase is read, the operators that it leaves waiting lie on top of what waited before, and
none of them binds looser than the phrase (`Conversion.Reads`). What waited before is not touched:
it admits the phrase (`Pending.Admits`). So the next operator of a looser phrase releases exactly
the operators of the phrase before it, and the listing of every phrase comes out complete.
-/

namespace PocketCalculator

/-! ### Which of two operators comes first -/

namespace Operator

variable {waiting next : Operator}

theorem appliesBefore_of_le {rank : Nat}
    (hnext : next.precedence < rank ∨ next.precedence = rank ∧ next.associativity = .left)
    (hwaiting : rank ≤ waiting.precedence) : waiting.AppliesBefore next := by
  rcases hnext with hlt | ⟨heq, hleft⟩
  · exact .inl (hlt.trans_le hwaiting)
  · rcases Nat.lt_or_eq_of_le hwaiting with hlt | hrank
    · exact .inl (heq.trans_lt hlt)
    · exact .inr ⟨hrank.symm.trans heq.symm, hleft⟩

theorem not_appliesBefore_of_lt (h : waiting.precedence < next.precedence) :
    ¬ waiting.AppliesBefore next := by
  rintro (hlt | ⟨heq, -⟩)
  · omega
  · omega

theorem not_appliesBefore_of_le (hright : next.associativity = .right)
    (h : waiting.precedence ≤ next.precedence) : ¬ waiting.AppliesBefore next := by
  rintro (hlt | ⟨-, hleft⟩)
  · omega
  · rw [hright] at hleft
    cases hleft

theorem associativity_eq_right {op : Operator} (h : 3 ≤ op.precedence) :
    op.associativity = .right := by
  cases op <;> first | rfl | exact absurd h (by decide)

theorem eq_factorial {op : Operator} (h : 4 ≤ op.precedence) : op = .factorial := by
  cases op <;> first | rfl | exact absurd h (by decide)

end Operator

namespace Pending

variable {rank : Nat} {pending : List Pending}

/-- Nothing of what waits is released by an operator that binds at least as tight as `rank`. -/
def Admits (rank : Nat) (pending : List Pending) : Prop :=
  ∀ op : Operator, rank ≤ op.precedence → release op pending = ([], pending)

theorem admits_nil (rank : Nat) : Admits rank [] :=
  fun _ _ ↦ rfl

theorem admits_group (rank : Nat) (pending : List Pending) : Admits rank (.group :: pending) :=
  fun _ _ ↦ rfl

theorem admits_operator {op : Operator}
    (h : ∀ next : Operator, rank ≤ next.precedence → ¬ op.AppliesBefore next) :
    Admits rank (.operator op :: pending) := by
  intro next hnext
  rw [release, if_neg (h next hnext)]

theorem admits_operator_of_lt {op : Operator} (h : op.precedence < rank) :
    Admits rank (.operator op :: pending) :=
  admits_operator fun _ hnext ↦ Operator.not_appliesBefore_of_lt (h.trans_le hnext)

theorem admits_operator_of_le {op : Operator} (hrank : 3 ≤ rank) (h : op.precedence ≤ rank) :
    Admits rank (.operator op :: pending) :=
  admits_operator fun _ hnext ↦ Operator.not_appliesBefore_of_le
    (Operator.associativity_eq_right (hrank.trans hnext)) (h.trans hnext)

theorem Admits.mono {rank' : Nat} (h : Admits rank pending) (hle : rank ≤ rank') :
    Admits rank' pending :=
  fun op hop ↦ h op (hle.trans hop)

end Pending

/-! ### Reading a phrase -/

namespace Conversion

variable {c : Conversion} {ts us listing first second : List Token} {rank : Nat} {op : Operator}

/-- Reading the tokens hands out their listing, but for operators at its end that go on waiting.
These bind at least as tight as `rank`. -/
def Reads (c : Conversion) (ts listing : List Token) (rank : Nat) : Prop :=
  ∃ (handedOut : List Token) (waiting : List Operator),
    c.run ts = .ok (handedOut, ⟨waiting.map .operator ++ c.pending, ts.getLast?⟩) ∧
      handedOut ++ waiting.map .operator = listing ∧ ∀ op ∈ waiting, rank ≤ op.precedence

theorem Reads.mono {rank' : Nat} (h : c.Reads ts listing rank) (hle : rank' ≤ rank) :
    c.Reads ts listing rank' := by
  obtain ⟨handedOut, waiting, hrun, hlisting, hrank⟩ := h
  exact ⟨handedOut, waiting, hrun, hlisting, fun op hop ↦ hle.trans (hrank op hop)⟩

theorem reads_number (c : Conversion) (text : String) (rank : Nat) :
    c.Reads [.number text] [.number text] rank := by
  refine ⟨[.number text], [], ?_, rfl, fun op hop ↦ absurd hop List.not_mem_nil⟩
  rw [run_singleton]
  rfl

theorem Reads.group
    (h : (Conversion.mk (.group :: c.pending) (some .openParenthesis)).Reads ts listing rank)
    (rank' : Nat) :
    c.Reads (.openParenthesis :: ts ++ [.closeParenthesis]) listing rank' := by
  obtain ⟨handedOut, waiting, hrun, hlisting, -⟩ := h
  refine ⟨listing, [], ?_, by simp, fun op hop ↦ absurd hop List.not_mem_nil⟩
  have hopen : c.run [.openParenthesis] =
      .ok ([], ⟨.group :: c.pending, some .openParenthesis⟩) := by
    rw [run_singleton]
    rfl
  have hclose : (Conversion.mk (waiting.map .operator ++ .group :: c.pending) ts.getLast?).run
      [.closeParenthesis] =
        .ok (waiting.map .operator, ⟨c.pending, some .closeParenthesis⟩) := by
    rw [run_singleton]
    simp only [step, Pending.close?_append_group (Pending.group_notMem_map waiting),
      Pending.closeAll_map]
  have hall := run_append_of_ok (run_append_of_ok hopen hrun) hclose
  rw [List.nil_append, hlisting] at hall
  rw [← List.singleton_append, hall]
  simp [List.getLast?_cons]

/-- An operator that takes all of what it follows as its operand releases all of it. -/
theorem Reads.run_operator (h : c.Reads ts listing rank)
    (hop : op.precedence < rank ∨ op.precedence = rank ∧ op.associativity = .left)
    (hpending : Pending.release op c.pending = ([], c.pending))
    (homitted : omittedOperand? ts.getLast? op = none) :
    c.run (ts ++ [.operator op]) =
      .ok (listing, afterOperator op c.pending) := by
  obtain ⟨handedOut, waiting, hrun, hlisting, hrank⟩ := h
  have hrelease := Pending.release_map_append
    (fun other hother ↦ Operator.appliesBefore_of_le hop (hrank other hother)) c.pending
  rw [hpending, List.append_nil] at hrelease
  rw [← hlisting]
  apply run_append_of_ok hrun
  rw [run_singleton, step_operator, homitted, hrelease]
  rfl

theorem reads_of_run_operator {rank' : Nat}
    (hrun : c.run ts = .ok (first, afterOperator op c.pending))
    (hright : (afterOperator op c.pending).Reads us second rank) (hop : rank' ≤ op.precedence)
    (hle : rank' ≤ rank) (hus : us ≠ []) :
    c.Reads (ts ++ us) (first ++ second ++ [.operator op]) rank' := by
  obtain ⟨handedOut, waiting, hrest, hlisting, hrank⟩ := hright
  refine ⟨first ++ handedOut, waiting ++ [op], ?_, ?_, ?_⟩
  · obtain ⟨t, ht⟩ := Option.ne_none_iff_exists'.mp (mt List.getLast?_eq_none_iff.mp hus)
    rw [run_append_of_ok hrun hrest]
    simp [afterOperator, List.getLast?_append, ht]
  · rw [← hlisting]
    simp
  · intro other hother
    rcases List.mem_append.mp hother with hmem | hmem
    · exact hle.trans (hrank other hmem)
    · rw [List.mem_singleton.mp hmem]
      exact hop

theorem Reads.binary {rank' rank'' : Nat} (h : c.Reads ts first rank)
    (hop : op.precedence < rank ∨ op.precedence = rank ∧ op.associativity = .left)
    (hpending : Pending.release op c.pending = ([], c.pending))
    (homitted : omittedOperand? ts.getLast? op = none)
    (hright : (afterOperator op c.pending).Reads us second rank')
    (hrank : rank'' ≤ op.precedence) (hle : rank'' ≤ rank') (hus : us ≠ []) :
    c.Reads (ts ++ .operator op :: us) (first ++ second ++ [.operator op]) rank'' := by
  rw [← List.singleton_append, ← List.append_assoc]
  exact reads_of_run_operator (h.run_operator hop hpending homitted) hright hrank hle hus

theorem reads_leading {operand : Token} {rank' : Nat}
    (homitted : omittedOperand? c.previous op = some operand)
    (hpending : Pending.release op c.pending = ([], c.pending))
    (hright : (afterOperator op c.pending).Reads ts listing rank) (hop : rank' ≤ op.precedence)
    (hle : rank' ≤ rank) (hts : ts ≠ []) :
    c.Reads (.operator op :: ts) (operand :: listing ++ [.operator op]) rank' := by
  have hrun : c.run [.operator op] = .ok ([operand], afterOperator op c.pending) := by
    rw [run_singleton, step_operator, homitted, hpending]
    rfl
  exact reads_of_run_operator hrun hright hop hle hts

theorem Reads.factorial (h : c.Reads ts listing 4)
    (hpending : Pending.release .factorial c.pending = ([], c.pending)) :
    c.Reads (ts ++ [.operator .factorial]) (listing ++ [.operator .factorial]) 4 := by
  obtain ⟨handedOut, waiting, hrun, hlisting, hrank⟩ := h
  -- A factorial releases no factorial, but as nothing else waits their order does not matter.
  obtain ⟨n, rfl⟩ : ∃ n, waiting = List.replicate n .factorial :=
    ⟨waiting.length, List.eq_replicate_iff.mpr
      ⟨rfl, fun op hop ↦ Operator.eq_factorial (hrank op hop)⟩⟩
  have hrelease : Pending.release .factorial
      ((List.replicate n .factorial).map .operator ++ c.pending) =
        ([], (List.replicate n .factorial).map .operator ++ c.pending) := by
    cases n with
    | zero => exact hpending
    | succ n => rfl
  refine ⟨handedOut, List.replicate (n + 1) .factorial, ?_, ?_, ?_⟩
  · have hlast : Conversion.run ⟨(List.replicate n .factorial).map .operator ++ c.pending,
        ts.getLast?⟩ [.operator .factorial] =
          .ok ([], afterOperator .factorial
            ((List.replicate n .factorial).map .operator ++ c.pending)) := by
      rw [run_singleton, step_operator, hrelease,
        omittedOperand?_eq_none _ (by decide) (by decide)]
      rfl
    rw [run_append_of_ok hrun hlast]
    simp [afterOperator, List.replicate_succ]
  · rw [← hlisting, List.replicate_succ']
    simp
  · intro op hop
    rw [List.eq_of_mem_replicate hop]
    decide

end Conversion

/-- How tight the operators of a phrase bind, at the least, outside its parentheses. -/
def Nonterminal.rank : Nonterminal → Nat
  | sum => 1
  | product => 2
  | power => 3
  | postfixed => 4

namespace Phrase

open Conversion Operator

variable {k : Nonterminal}

theorem tokens_ne_nil (p : Phrase k) : p.tokens ≠ [] := by
  obtain ⟨t, ht, -⟩ := p.exists_getLast?_tokens
  intro hnil
  rw [hnil] at ht
  cases ht

theorem omittedOperand?_getLast?_tokens (p : Phrase k) {ts : List Token}
    (h : MinusApart (p.tokens ++ .operator .subtract :: ts)) :
    omittedOperand? p.tokens.getLast? .subtract = none := by
  obtain ⟨t, ht, ⟨text, rfl⟩ | rfl | hpostfix⟩ := p.exists_getLast?_tokens
  · rw [ht]
    rfl
  · rw [ht]
    rfl
  · exact absurd hpostfix (h.getLast?_ne ht)

/-- A phrase is read completely, on top of all that waits looser than it. -/
theorem reads (p : Phrase k) {c : Conversion} (hpending : Pending.Admits k.rank c.pending)
    (hprevious : operandDue c.previous) (happart : MinusApart p.tokens) :
    c.Reads p.tokens p.tree.listing k.rank := by
  induction p generalizing c with
  | ofProduct p ih | ofPower p ih | ofPostfixed p ih =>
    exact (ih (hpending.mono (by decide)) hprevious happart).mono (by decide)
  | negative p ih =>
    have homitted : omittedOperand? c.previous .subtract = some (.number "0") := by
      rw [omittedOperand?_subtract, if_pos hprevious]
    have hright : (afterOperator .subtract c.pending).Reads p.tokens p.tree.listing 2 :=
      ih (Pending.admits_operator_of_lt (by decide)) rfl happart.of_cons
    exact reads_leading homitted (hpending .subtract (by decide)) hright (by decide) (by decide)
      p.tokens_ne_nil
  | squareRoot p ih =>
    have hright : (afterOperator .root c.pending).Reads p.tokens p.tree.listing 3 :=
      ih (Pending.admits_operator_of_le (by decide) (by decide)) rfl happart.of_cons
    exact reads_leading (omittedOperand?_root hprevious) (hpending .root (by decide)) hright
      (by decide) (by decide) p.tokens_ne_nil
  | add s p ihs ihp =>
    have hleft := ihs hpending hprevious happart.of_append_left
    have hright : (afterOperator .add c.pending).Reads p.tokens p.tree.listing 2 :=
      ihp (Pending.admits_operator_of_lt (by decide)) rfl happart.of_append_right.of_cons
    exact hleft.binary (by decide) (hpending .add (by decide))
      (omittedOperand?_eq_none _ (by decide) (by decide)) hright (by decide) (by decide)
      p.tokens_ne_nil
  | subtract s p ihs ihp =>
    have hleft := ihs hpending hprevious happart.of_append_left
    have hright : (afterOperator .subtract c.pending).Reads p.tokens p.tree.listing 2 :=
      ihp (Pending.admits_operator_of_lt (by decide)) rfl happart.of_append_right.of_cons
    exact hleft.binary (by decide) (hpending .subtract (by decide))
      (s.omittedOperand?_getLast?_tokens happart) hright (by decide) (by decide) p.tokens_ne_nil
  | multiply p q ihp ihq =>
    have hleft := ihp hpending hprevious happart.of_append_left
    have hright : (afterOperator .multiply c.pending).Reads q.tokens q.tree.listing 3 :=
      ihq (Pending.admits_operator_of_lt (by decide)) rfl happart.of_append_right.of_cons
    exact hleft.binary (by decide) (hpending .multiply (by decide))
      (omittedOperand?_eq_none _ (by decide) (by decide)) hright (by decide) (by decide)
      q.tokens_ne_nil
  | divide p q ihp ihq =>
    have hleft := ihp hpending hprevious happart.of_append_left
    have hright : (afterOperator .divide c.pending).Reads q.tokens q.tree.listing 3 :=
      ihq (Pending.admits_operator_of_lt (by decide)) rfl happart.of_append_right.of_cons
    exact hleft.binary (by decide) (hpending .divide (by decide))
      (omittedOperand?_eq_none _ (by decide) (by decide)) hright (by decide) (by decide)
      q.tokens_ne_nil
  | raise p q ihp ihq =>
    have hleft := ihp (hpending.mono (by decide)) hprevious happart.of_append_left
    have hright : (afterOperator .power c.pending).Reads q.tokens q.tree.listing 3 :=
      ihq (Pending.admits_operator_of_le (by decide) (by decide)) rfl
        happart.of_append_right.of_cons
    exact hleft.binary (by decide) (hpending .power (by decide))
      (omittedOperand?_eq_none _ (by decide) (by decide)) hright (by decide) (by decide)
      q.tokens_ne_nil
  | root degree p ih =>
    have hleft := c.reads_number degree 4
    have hright : (afterOperator .root c.pending).Reads p.tokens p.tree.listing 3 :=
      ih (Pending.admits_operator_of_le (by decide) (by decide)) rfl happart.of_cons.of_cons
    exact hleft.binary (by decide) (hpending .root (by decide)) rfl hright
      (by decide) (by decide) p.tokens_ne_nil
  | number text => exact c.reads_number text _
  | group s ih =>
    have hinside : (Conversion.mk (.group :: c.pending) (some .openParenthesis)).Reads s.tokens
        s.tree.listing 1 :=
      ih (Pending.admits_group _ _) rfl happart.of_cons.of_append_left
    exact hinside.group _
  | percent s ih =>
    have hsum := ih hpending hprevious happart.of_append_left
    have hrun : c.run (s.tokens ++ [.operator .percent]) =
        .ok (s.tree.listing, afterOperator .percent c.pending) :=
      hsum.run_operator (by decide) (hpending .percent (by decide))
        (omittedOperand?_eq_none _ (by decide) (by decide))
    refine ⟨s.tree.listing, [.percent], ?_, rfl, by simp [Nonterminal.rank, precedence]⟩
    rw [tokens, hrun]
    simp [afterOperator]
  | factorial p ih =>
    have hleft := ih hpending hprevious happart.of_append_left
    exact hleft.factorial (hpending .factorial (by decide))

end Phrase

namespace Postfix

/-- The conversion of a phrase is the listing of the tree that it stands for. -/
theorem ofInfix_tokens {k : Nonterminal} (p : Phrase k) (h : MinusApart p.tokens) :
    ofInfix p.tokens = .ok p.tree.listing := by
  obtain ⟨handedOut, waiting, hrun, hlisting, -⟩ :=
    p.reads (c := .start) (Pending.admits_nil _) rfl h
  rw [ofInfix_of_run hrun, ← hlisting]
  show Except.ok (handedOut ++ Pending.closeAll (waiting.map .operator ++ [])) = _
  rw [List.append_nil, Pending.closeAll_map]

/-- `-(2 + 3)! ^ 2√4 * √9 - 1%` -/
theorem ofInfix_negative_product :
    MinusApart [.operator .subtract, .openParenthesis, .number "2", .operator .add, .number "3",
        .closeParenthesis, .operator .factorial, .operator .power, .number "2", .operator .root,
        .number "4", .operator .multiply, .operator .root, .number "9", .operator .subtract,
        .number "1", .operator .percent] ∧
      ofInfix [.operator .subtract, .openParenthesis, .number "2", .operator .add, .number "3",
        .closeParenthesis, .operator .factorial, .operator .power, .number "2", .operator .root,
        .number "4", .operator .multiply, .operator .root, .number "9", .operator .subtract,
        .number "1", .operator .percent] =
          .ok [.number "0", .number "2", .number "3", .operator .add, .operator .factorial,
            .number "2", .number "4", .operator .root, .operator .power, .number "2", .number "9",
            .operator .root, .operator .multiply, .operator .subtract, .number "1",
            .operator .subtract, .operator .percent] := by
  let base : Phrase .postfixed :=
    .factorial (.group (.add (.ofProduct (.ofPower (.ofPostfixed (.number "2"))))
      (.ofPower (.ofPostfixed (.number "3")))))
  let power : Phrase .power := .raise base (.root "2" (.ofPostfixed (.number "4")))
  let product : Phrase .product :=
    .multiply (.ofPower power) (.squareRoot (.ofPostfixed (.number "9")))
  let sum : Phrase .sum :=
    .percent (.subtract (.negative product) (.ofPower (.ofPostfixed (.number "1"))))
  have happart : MinusApart sum.tokens := by decide
  exact ⟨happart, ofInfix_tokens sum happart⟩

end Postfix

end PocketCalculator
