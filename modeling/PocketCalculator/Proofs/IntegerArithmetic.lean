import PocketCalculator.Calculation
import PocketCalculator.Proofs.Expression.Digits
import PocketCalculator.Proofs.Postfix.Precedence
import PocketCalculator.Proofs.Postfix.TreeEvaluation
import PocketCalculator.Proofs.Readout

/-!
# Arithmetic of integers

Sums, differences, products and even quotients of integers are calculated exactly as long as all
integers on the way are at most `2 ^ 53` in magnitude: then each of them is the value of a float,
and no operation rounds (`Phrase.isInteger_tree`). Integers up to the limit of plain readouts are
shown digit by digit, and what is shown is read as the integer again.
-/

namespace PocketCalculator

def exactInteger? (n : ℤ) : Option ℤ :=
  if n.natAbs ≤ 2 ^ 53 then some n else none

/-- The result of an operator on integers, if it is an integer and not too large. -/
def Operator.integer? (op : Operator) (a b : ℤ) : Option ℤ :=
  match op with
  | add => exactInteger? (a + b)
  | subtract => exactInteger? (a - b)
  | multiply => exactInteger? (a * b)
  | divide => if b ≠ 0 ∧ b ∣ a then exactInteger? (a / b) else none
  | power | root | factorial | percent => none

/-- The natural number that digits denote, if it is not too large. -/
def literal? (text : String) : Option ℤ :=
  if text ≠ "" ∧ text.toList.all Char.isDigit then exactInteger? (Nat.ofDigitChars 10 text.toList 0)
  else none

/-- The integer that a phrase of integer arithmetic denotes, if it and every part of it are not too
large and every division leaves no remainder. -/
def Phrase.integer? : {k : Nonterminal} → Phrase k → Option ℤ
  | _, ofProduct p => p.integer?
  | _, negative p => p.integer?.map fun a ↦ -a
  | _, add s p => do Operator.add.integer? (← s.integer?) (← p.integer?)
  | _, subtract s p => do Operator.subtract.integer? (← s.integer?) (← p.integer?)
  | _, ofPower p => p.integer?
  | _, multiply p q => do Operator.multiply.integer? (← p.integer?) (← q.integer?)
  | _, divide p q => do Operator.divide.integer? (← p.integer?) (← q.integer?)
  | _, ofPostfixed p => p.integer?
  | _, number text => literal? text
  | _, group s => s.integer?
  | _, percent _ | _, raise _ _ | _, squareRoot _ | _, root _ _ | _, factorial _ => none

theorem exactInteger?_eq_some_iff {m n : ℤ} :
    exactInteger? m = some n ↔ m.natAbs ≤ 2 ^ 53 ∧ m = n := by
  rw [exactInteger?]
  split
  · next h => simp only [Option.some_inj, h, true_and]
  · next h => simp only [reduceCtorEq, h, false_and]

/-! ### Exact operations -/

variable {x y : Float} {a b n : ℤ} {op : Operator}

/-- An integer that is not too large is a float, so an operation that yields it does not round. -/
theorem exactValue?_of_exactInteger? {v : Float} {m : ℤ} {q : ℚ} (h : exactInteger? m = some n)
    (hq : (m : ℚ) = q) (hv : Representable q → exactValue? v = some q) :
    exactValue? v = some (n : ℚ) := by
  obtain ⟨hbound, rfl⟩ := exactInteger?_eq_some_iff.mp h
  have hfits := representable_intCast hbound
  rw [hq] at hfits ⊢
  exact hv hfits

theorem Operator.exists_binaryValue_of_integer? (h : op.integer? a b = some n)
    (hx : exactValue? x = some (a : ℚ)) (hy : exactValue? y = some (b : ℚ)) :
    ∃ v, op.binaryValue x y = .ok v ∧ exactValue? v = some (n : ℚ) := by
  cases op with
  | add =>
    exact ⟨x + y, rfl, exactValue?_of_exactInteger? h (Int.cast_add a b) (exactValue?_add hx hy)⟩
  | subtract =>
    exact ⟨x - y, rfl, exactValue?_of_exactInteger? h (Int.cast_sub a b) (exactValue?_sub hx hy)⟩
  | multiply =>
    exact ⟨x * y, rfl, exactValue?_of_exactInteger? h (Int.cast_mul a b) (exactValue?_mul hx hy)⟩
  | divide =>
    rw [integer?] at h
    split at h
    · next hdivides =>
      have hb : (b : ℚ) ≠ 0 := by
        exact_mod_cast hdivides.1
      have hzero : exactValue? (0 : Float) = some ((0 : ℕ) : ℚ) := exactValue?_ofNat (Nat.zero_le _)
      have hnonzero : (y == 0) = false := by
        rw [Bool.eq_false_iff]
        intro heq
        exact hb ((beq_iff_of_exactValue? hy hzero).mp heq)
      refine ⟨x / y, ?_, ?_⟩
      · rw [binaryValue, hnonzero]
        rfl
      · apply exactValue?_of_exactInteger? h (Int.cast_div hdivides.2 hb)
        exact exactValue?_div hx hy hb
    · cases h
  | power | root | factorial | percent => cases h

theorem exists_value_of_literal? {text : String} (h : literal? text = some n) :
    ∃ v, (Token.number text).value = .ok v ∧ exactValue? v = some (n : ℚ) := by
  rw [literal?] at h
  split at h
  · next hdigits =>
    obtain ⟨hbound, rfl⟩ := exactInteger?_eq_some_iff.mp h
    have hne : text.toList ≠ [] := by
      intro heq
      exact hdigits.1 (String.toList_eq_nil_iff.mp heq)
    have hvalue := (spells_digits hne (List.all_eq_true.mp hdigits.2)).value_eq
    rw [String.ofList_toList] at hvalue
    refine ⟨_, hvalue, ?_⟩
    rw [Int.cast_natCast]
    exact exactValue?_ofNat hbound
  · cases h

theorem Operator.natAbs_le_of_integer? (h : op.integer? a b = some n) : n.natAbs ≤ 2 ^ 53 := by
  cases op with
  | add | subtract | multiply =>
    obtain ⟨hbound, rfl⟩ := exactInteger?_eq_some_iff.mp h
    exact hbound
  | divide =>
    rw [integer?] at h
    split at h
    · obtain ⟨hbound, rfl⟩ := exactInteger?_eq_some_iff.mp h
      exact hbound
    · cases h
  | power | root | factorial | percent => cases h

theorem natAbs_le_of_literal? {text : String} (h : literal? text = some n) :
    n.natAbs ≤ 2 ^ 53 := by
  rw [literal?] at h
  split at h
  · obtain ⟨hbound, rfl⟩ := exactInteger?_eq_some_iff.mp h
    exact hbound
  · cases h

/-- The tree has a value, and that is the integer. -/
def OperatorTree.IsInteger (t : OperatorTree) (n : ℤ) : Prop :=
  n.natAbs ≤ 2 ^ 53 ∧ ∃ v, t.value = .ok v ∧ exactValue? v = some (n : ℚ)

theorem OperatorTree.IsInteger.binary {left right : OperatorTree} (hl : left.IsInteger a)
    (hr : right.IsInteger b) (hop : op.arity = .binary) (h : op.integer? a b = some n) :
    (OperatorTree.binary op hop left right).IsInteger n := by
  obtain ⟨-, x, hleft, hx⟩ := hl
  obtain ⟨-, y, hright, hy⟩ := hr
  obtain ⟨v, hv, hexact⟩ := Operator.exists_binaryValue_of_integer? h hx hy
  refine ⟨Operator.natAbs_le_of_integer? h, v, ?_, hexact⟩
  rw [OperatorTree.value, hleft, hright]
  exact hv

theorem OperatorTree.isInteger_zero : (OperatorTree.number "0").IsInteger 0 := by
  have hzero : literal? "0" = some 0 := by decide +kernel
  exact ⟨Nat.zero_le _, exists_value_of_literal? hzero⟩

/-! ### Phrases of integer arithmetic -/

theorem exists_of_integer?_bind {r s : Option ℤ}
    (h : (do op.integer? (← r) (← s)) = some n) :
    ∃ a b, r = some a ∧ s = some b ∧ op.integer? a b = some n := by
  obtain ⟨a, hr, hrest⟩ := Option.bind_eq_some_iff.mp h
  obtain ⟨b, hs, hn⟩ := Option.bind_eq_some_iff.mp hrest
  exact ⟨a, b, hr, hs, hn⟩

namespace Phrase

variable {k : Nonterminal}

theorem isInteger_tree {p : Phrase k} (h : p.integer? = some n) : p.tree.IsInteger n := by
  induction p generalizing n with
  | ofProduct p ih | ofPower p ih | ofPostfixed p ih | group p ih => exact ih h
  | negative p ih =>
    obtain ⟨a, hp, rfl⟩ := Option.map_eq_some_iff.mp h
    have hoperand := ih hp
    have hnegative : Operator.subtract.integer? 0 a = some (-a) := by
      apply exactInteger?_eq_some_iff.mpr
      rw [zero_sub, Int.natAbs_neg]
      exact ⟨hoperand.1, rfl⟩
    exact OperatorTree.isInteger_zero.binary hoperand rfl hnegative
  | add s p ihs ihp | subtract s p ihs ihp | multiply s p ihs ihp | divide s p ihs ihp =>
    obtain ⟨a, b, hs, hp, hn⟩ := exists_of_integer?_bind h
    exact (ihs hs).binary (ihp hp) rfl hn
  | number text => exact ⟨natAbs_le_of_literal? h, exists_value_of_literal? h⟩
  | percent | raise | squareRoot | root | factorial => cases h

theorem notMem_tokens_of_integer? {p : Phrase k} (h : p.integer? = some n) :
    .operator .factorial ∉ p.tokens ∧ .operator .percent ∉ p.tokens := by
  induction p generalizing n with
  | ofProduct p ih | ofPower p ih | ofPostfixed p ih => exact ih h
  | group p ih => simpa [tokens] using ih h
  | negative p ih =>
    obtain ⟨a, hp, -⟩ := Option.map_eq_some_iff.mp h
    simpa [tokens] using ih hp
  | add s p ihs ihp | subtract s p ihs ihp | multiply s p ihs ihp | divide s p ihs ihp =>
    obtain ⟨a, b, hs, hp, -⟩ := exists_of_integer?_bind h
    simp [tokens, ihs hs, ihp hp]
  | number text => simp [tokens]
  | percent | raise | squareRoot | root | factorial => cases h

theorem minusApart_of_integer? {p : Phrase k} (h : p.integer? = some n) : MinusApart p.tokens := by
  obtain ⟨hfactorial, hpercent⟩ := notMem_tokens_of_integer? h
  apply List.Pairwise.isChain
  apply List.pairwise_of_forall_mem_list
  intro earlier hearlier later _ hpostfix
  rcases List.mem_pair.mp hpostfix with rfl | rfl
  · exact absurd hearlier hfactorial
  · exact absurd hearlier hpercent

/-- An expression of integer arithmetic is calculated exactly. -/
theorem exists_calculate_of_integer? {p : Phrase k} {expression : String}
    (htokens : tokenize expression = p.tokens) (h : p.integer? = some n) :
    ∃ v, calculate expression = .ok v ∧ exactValue? v = some (n : ℚ) := by
  obtain ⟨handedOut, waiting, hrun, hlisting, -⟩ :=
    p.reads (c := .start) (Pending.admits_nil _) rfl (minusApart_of_integer? h)
  have hconverted : Postfix.ofExpression expression = .ok p.tree.listing := by
    rw [Postfix.ofExpression, htokens, Postfix.ofInfix_of_run hrun, ← hlisting, Conversion.finish]
    rw [Conversion.start, List.append_nil, Pending.closeAll_map]
  obtain ⟨-, v, hvalue, hexact⟩ := isInteger_tree h
  refine ⟨v, ?_, hexact⟩
  rw [calculate, hconverted, Except.ok_bind, OperatorTree.evaluate_listing_eq_ok_iff]
  exact ⟨hvalue, isFinite_of_exactValue? hexact⟩

end Phrase

/-! ### Numerals -/

theorem literal?_toDigits {m : ℕ} (h : m ≤ 2 ^ 53) :
    literal? (String.ofList (Nat.toDigits 10 m)) = some (m : ℤ) := by
  have hne : String.ofList (Nat.toDigits 10 m) ≠ "" := by
    intro heq
    apply Nat.toDigits_ne_nil (b := 10) (n := m)
    rw [← String.toList_ofList (l := Nat.toDigits 10 m), heq]
    rfl
  rw [literal?, String.toList_ofList, List.all_eq_true.mpr (isDigits_toDigits m),
    Nat.ofDigitChars_ten_toDigits, if_pos ⟨hne, rfl⟩]
  exact exactInteger?_eq_some_iff.mpr ⟨h, rfl⟩

/-- The numeral of an integer is a phrase that denotes the integer. -/
theorem exists_phrase_of_text {n : ℤ} (h : n.natAbs ≤ 2 ^ 53) :
    ∃ p : Phrase .sum, tokenize (Readout.whole n).text = p.tokens ∧ p.integer? = some n := by
  obtain ⟨m, hm⟩ : ∃ m, m = n.natAbs := ⟨_, rfl⟩
  have hliteral := literal?_toDigits (m := m) (by omega)
  rw [Readout.text, Readout.wholeText_eq, ← hm]
  let product : Phrase .product :=
    .ofPower (.ofPostfixed (.number (String.ofList (Nat.toDigits 10 m))))
  by_cases hneg : n < 0
  · refine ⟨.negative product, ?_, ?_⟩
    · rw [if_pos hneg]
      exact tokenize_minus_numeral ((isDigits_toDigits m).isNumeral Nat.toDigits_ne_nil)
    · show (literal? _).map _ = some n
      rw [hliteral, Option.map_some]
      congr 1
      omega
  · refine ⟨.ofProduct product, ?_, ?_⟩
    · rw [if_neg hneg]
      exact tokenize_numeral ((isDigits_toDigits m).isNumeral Nat.toDigits_ne_nil)
    · show literal? _ = some n
      rw [hliteral]
      congr 1
      omega

/-- Integer arithmetic is exact from the text to the readout: the value of an expression is the
integer that it denotes, and within the limit of plain readouts its decimal numeral is shown. What
is shown for a whole number is read as that number again. -/
theorem calculate_integer_arithmetic :
    (∀ (expression : String) (k : Nonterminal) (p : Phrase k) (n : ℤ),
      tokenize expression = p.tokens → p.integer? = some n →
        (∃ v, calculate expression = .ok v ∧ exactValue? v = some (n : ℚ)) ∧
        (n.natAbs ≤ 10 ^ 10 → Readout.ofExpression expression = .ok (.whole n) ∧
          shownText expression = toString n)) ∧
    ∀ (expression : String) (n : ℤ), Readout.ofExpression expression = .ok (.whole n) →
      Readout.ofExpression (shownText expression) = .ok (.whole n) := by
  have hreadout : ∀ (expression : String) (k : Nonterminal) (p : Phrase k) (n : ℤ),
      tokenize expression = p.tokens → p.integer? = some n → n.natAbs ≤ 10 ^ 10 →
        Readout.ofExpression expression = .ok (.whole n) := by
    intro expression k p n htokens hp hle
    obtain ⟨v, hv, hexact⟩ := Phrase.exists_calculate_of_integer? htokens hp
    rw [Readout.ofExpression, hv]
    exact congrArg Except.ok (Readout.ofFloat_eq_whole_iff.mpr ⟨hexact, hle⟩)
  constructor
  · intro expression k p n htokens hp
    refine ⟨Phrase.exists_calculate_of_integer? htokens hp, ?_⟩
    intro hle
    have hshown := hreadout expression k p n htokens hp hle
    refine ⟨hshown, ?_⟩
    rw [shownText, hshown]
    exact Readout.text_whole n
  · intro expression n h
    have hle : n.natAbs ≤ 10 ^ 10 := by
      rw [Readout.ofExpression] at h
      cases hv : calculate expression with
      | error e =>
        rw [hv] at h
        cases h
      | ok v =>
        rw [hv] at h
        exact (Readout.ofFloat_eq_whole_iff.mp (Except.ok.inj h)).2
    obtain ⟨p, htokens, hp⟩ := exists_phrase_of_text (n := n) (by omega)
    rw [shownText, h]
    exact hreadout _ _ p n htokens hp hle

/-- `-(12 - 4) / 2 * 3 + 9007199254740992 - 9007199254740981` -/
theorem calculate_sum_at_the_limit :
    (∃ v, calculate "-(12 - 4) / 2 * 3 + 9007199254740992 - 9007199254740981" = .ok v ∧
      exactValue? v = some ((-1 : ℤ) : ℚ)) ∧
    Readout.ofExpression "-(12 - 4) / 2 * 3 + 9007199254740992 - 9007199254740981" =
      .ok (.whole (-1)) ∧
    Readout.ofExpression "-1" = .ok (.whole (-1)) := by
  let literal (text : String) : Phrase .power := .ofPostfixed (.number text)
  let group : Phrase .postfixed :=
    .group (.subtract (.ofProduct (.ofPower (literal "12"))) (.ofPower (literal "4")))
  let product : Phrase .product :=
    .multiply (.divide (.ofPower (.ofPostfixed group)) (literal "2")) (literal "3")
  let sum : Phrase .sum :=
    .subtract (.add (.negative product) (.ofPower (literal "9007199254740992")))
      (.ofPower (literal "9007199254740981"))
  have htokens :
      tokenize "-(12 - 4) / 2 * 3 + 9007199254740992 - 9007199254740981" = sum.tokens := by
    decide +kernel
  have hinteger : sum.integer? = some (-1) := by decide +kernel
  obtain ⟨hvalue, hreadout⟩ := calculate_integer_arithmetic.1 _ _ sum (-1) htokens hinteger
  obtain ⟨hwhole, hshown⟩ := hreadout (by decide)
  refine ⟨hvalue, hwhole, ?_⟩
  have hagain := calculate_integer_arithmetic.2 _ _ hwhole
  rw [hshown] at hagain
  exact hagain

end PocketCalculator
