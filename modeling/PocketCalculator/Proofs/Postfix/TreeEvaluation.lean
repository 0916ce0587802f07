import PocketCalculator.Proofs.Postfix.OperatorTree

/-!
# Evaluating on a stack is evaluating a tree

The values on the stack are those of the row of trees read so far (`rowValues_of_growAll?`). So a
token list that lists one tree has the outcome of that tree, and any other token list has no value:
it fails as the first of its trees that fails, and is malformed if none does.
-/

namespace PocketCalculator

/-! ### Errors of single steps -/

namespace CalculationError

/-- The errors of operators whose operands are outside their domain. -/
def domainErrors : List CalculationError :=
  [divisionByZero, factorialOfNonNatural, rootOfNegative]

end CalculationError

open CalculationError (domainErrors)

theorem Operator.error_of_unaryValue {op : Operator} {x : Float} {e : CalculationError}
    (h : op.unaryValue x = .error e) : e = .malformed ∨ e ∈ domainErrors := by
  unfold unaryValue at h
  split at h
  · unfold PocketCalculator.factorial at h
    split at h
    · cases h
      exact .inr (by decide)
    · cases h
  · cases h
  · cases h
    exact .inl rfl

theorem Operator.error_of_binaryValue {op : Operator} {x y : Float} {e : CalculationError}
    (h : op.binaryValue x y = .error e) : e = .malformed ∨ e ∈ domainErrors := by
  cases op with
  | add | subtract | multiply | power => cases h
  | divide =>
    simp only [binaryValue] at h
    split at h
    · cases h
      exact .inr (by decide)
    · cases h
  | root =>
    simp only [binaryValue] at h
    split at h
    · cases h
      exact .inr (by decide)
    · cases h
  | factorial | percent =>
    cases h
    exact .inl rfl

/-- An operator that has its operands fails only outside its domain. -/
theorem Operator.ne_malformed_of_unaryValue {op : Operator} {x : Float} {e : CalculationError}
    (h : op.arity = .unary) (he : op.unaryValue x = .error e) : e ≠ .malformed := by
  cases op with
  | factorial =>
    rw [unaryValue, PocketCalculator.factorial] at he
    split at he
    · cases he
      decide
    · cases he
  | percent => cases he
  | add | subtract | multiply | divide | power | root => cases h

theorem Operator.ne_malformed_of_binaryValue {op : Operator} {x y : Float} {e : CalculationError}
    (h : op.arity = .binary) (he : op.binaryValue x y = .error e) : e ≠ .malformed := by
  cases op with
  | add | subtract | multiply | power => cases he
  | divide | root =>
    rw [binaryValue] at he
    split at he
    · cases he
      decide
    · cases he
  | factorial | percent => cases h

theorem Token.error_of_value {t : Token} {e : CalculationError} (h : t.value = .error e) :
    e = .malformed := by
  unfold value at h
  split at h
  · split at h
    · cases h
    · cases h
      rfl
  · cases h
    rfl

namespace Postfix

theorem push_number (values : List Float) (text : String) :
    push values (.number text) = do
      let value ← (Token.number text).value
      return value :: values := by
  rw [push, reduce]
  cases (Token.number text).value <;> rfl

theorem push_unary {op : Operator} (h : op.arity = .unary) (x : Float) (values : List Float) :
    push (x :: values) (.operator op) = do
      let value ← op.unaryValue x
      return value :: values := by
  simp only [push, reduce, h]
  cases op.unaryValue x <;> rfl

theorem push_binary {op : Operator} (h : op.arity = .binary) (x y : Float) (values : List Float) :
    push (y :: x :: values) (.operator op) = do
      let value ← op.binaryValue x y
      return value :: values := by
  simp only [push, reduce, h]
  cases op.binaryValue x y <;> rfl

theorem push_operator_of_too_few {op : Operator} {values : List Float}
    (hunary : op.arity = .unary → values = []) (hbinary : op.arity = .binary → values.length < 2) :
    push values (.operator op) = .error .malformed := by
  cases hop : op.arity with
  | unary =>
    rw [hunary hop]
    simp only [push, reduce, hop]
    rfl
  | binary =>
    have hlength := hbinary hop
    match values with
    | [] | [_] =>
      simp only [push, reduce, hop]
      rfl
    | _ :: _ :: _ =>
      simp only [List.length_cons] at hlength
      omega

theorem exists_reduce_of_push {values after : List Float} {t : Token}
    (h : push values t = .ok after) :
    ∃ v below, reduce values t = .ok (v, below) ∧ after = v :: below := by
  rw [push] at h
  cases hreduce : reduce values t with
  | error e =>
    rw [hreduce] at h
    cases h
  | ok reduced =>
    rw [hreduce] at h
    cases h
    exact ⟨reduced.1, reduced.2, rfl, rfl⟩

theorem reduce_of_push_eq_error {values : List Float} {t : Token} {e : CalculationError}
    (h : push values t = .error e) : reduce values t = .error e := by
  rw [push] at h
  cases hreduce : reduce values t with
  | error e' =>
    rw [hreduce] at h
    cases h
    rfl
  | ok reduced =>
    rw [hreduce] at h
    cases h

/-- An evaluation fails at the first token that fails on the values put there before. -/
theorem run_eq_error_iff {values : List Float} {ts : List Token} {e : CalculationError} :
    run values ts = .error e ↔ ∃ before t after found,
      ts = before ++ t :: after ∧ run values before = .ok found ∧ push found t = .error e := by
  constructor
  · intro h
    induction ts generalizing values with
    | nil => cases h
    | cons t ts ih =>
      rw [run_cons] at h
      obtain hpush | ⟨next, hpush, hrest⟩ := Except.bind_eq_error_iff.mp h
      · exact ⟨[], t, ts, values, rfl, rfl, hpush⟩
      · obtain ⟨before, u, after, found, rfl, hrun, hfail⟩ := ih hrest
        refine ⟨t :: before, u, after, found, rfl, ?_, hfail⟩
        rw [run_cons, hpush, Except.ok_bind, hrun]
  · rintro ⟨before, t, after, found, rfl, hrun, hfail⟩
    rw [run_append, hrun, Except.ok_bind, run_cons, hfail, Except.error_bind]

theorem conclude_singleton_eq_ok_iff {x v : Float} :
    conclude [x] = .ok v ↔ x = v ∧ v.isFinite := by
  rw [conclude]
  split
  · next h => grind
  · next h => grind

theorem conclude_singleton_eq_error_iff {x : Float} {e : CalculationError} :
    conclude [x] = .error e ↔ e = .notFinite ∧ x.isFinite = false := by
  rw [conclude]
  split
  · next h => simp [h]
  · next h => simp [h, eq_comm]

theorem conclude_singleton_ne_error {e : CalculationError} (he : e ≠ .notFinite) (x : Float) :
    conclude [x] ≠ .error e := by
  intro h
  exact he (conclude_singleton_eq_error_iff.mp h).1

end Postfix

namespace OperatorTree

theorem error_of_value {t : OperatorTree} {e : CalculationError} (h : t.value = .error e) :
    e = .malformed ∨ e ∈ domainErrors := by
  induction t with
  | number text => exact .inl (Token.error_of_value h)
  | unary op hop operand ih =>
    obtain hoperand | ⟨x, -, hop⟩ := Except.bind_eq_error_iff.mp h
    · exact ih hoperand
    · exact Operator.error_of_unaryValue hop
  | binary op hop left right ihl ihr =>
    obtain hleft | ⟨x, -, hrest⟩ := Except.bind_eq_error_iff.mp h
    · exact ihl hleft
    obtain hright | ⟨y, -, hop⟩ := Except.bind_eq_error_iff.mp hrest
    · exact ihr hright
    · exact Operator.error_of_binaryValue hop

/-! ### The stack holds the values of a row of trees -/

/-- The values of a row of trees, the last tree first. They are calculated from the first tree to
the last. -/
def rowValues : List OperatorTree → Except CalculationError (List Float)
  | [] => .ok []
  | t :: before => do
    let values ← rowValues before
    let value ← t.value
    return value :: values

theorem rowValues_cons_of_ok {before : List OperatorTree} {values : List Float}
    (h : rowValues before = .ok values) (t : OperatorTree) :
    rowValues (t :: before) = t.value.map (· :: values) := by
  rw [rowValues, h]
  cases t.value <;> rfl

theorem length_of_rowValues {row : List OperatorTree} {values : List Float}
    (h : rowValues row = .ok values) : values.length = row.length := by
  induction row generalizing values with
  | nil =>
    cases h
    rfl
  | cons t before ih =>
    obtain ⟨earlier, hbefore, hrest⟩ := Except.bind_eq_ok_iff.mp h
    obtain ⟨value, -, hcons⟩ := Except.bind_eq_ok_iff.mp hrest
    cases hcons
    rw [List.length_cons, List.length_cons, ih hbefore]

theorem exists_rowValues_eq_ok_iff {row : List OperatorTree} :
    (∃ values, rowValues row = .ok values) ↔ ∀ t ∈ row, ∃ v, t.value = .ok v := by
  induction row with
  | nil => exact ⟨fun _ t ht ↦ absurd ht List.not_mem_nil, fun _ ↦ ⟨[], rfl⟩⟩
  | cons t before ih =>
    rw [List.forall_mem_cons, ← ih]
    constructor
    · rintro ⟨values, h⟩
      obtain ⟨earlier, hbefore, hrest⟩ := Except.bind_eq_ok_iff.mp h
      obtain ⟨value, hvalue, -⟩ := Except.bind_eq_ok_iff.mp hrest
      exact ⟨⟨value, hvalue⟩, earlier, hbefore⟩
    · rintro ⟨⟨value, hvalue⟩, earlier, hbefore⟩
      refine ⟨value :: earlier, ?_⟩
      rw [rowValues_cons_of_ok hbefore, hvalue]
      rfl

theorem rowValues_eq_error {row : List OperatorTree} {e : CalculationError}
    (h : rowValues row = .error e) :
    ∃ after t before values, row = after ++ t :: before ∧ rowValues before = .ok values ∧
      t.value = .error e := by
  induction row with
  | nil => cases h
  | cons t before ih =>
    obtain hbefore | ⟨values, hbefore, hrest⟩ := Except.bind_eq_error_iff.mp h
    · obtain ⟨after, u, rest, values, rfl, hrest, hu⟩ := ih hbefore
      exact ⟨t :: after, u, rest, values, rfl, hrest, hu⟩
    · obtain ht | ⟨value, -, hcons⟩ := Except.bind_eq_error_iff.mp hrest
      · exact ⟨[], t, before, values, rfl, hbefore, ht⟩
      · cases hcons

/-- A token that extends a row of trees puts the value of its tree on the stack. -/
theorem rowValues_of_grow? {row grown : List OperatorTree} {t : Token}
    (h : grow? row t = some grown) : rowValues grown = rowValues row >>= (Postfix.push · t) := by
  obtain ⟨text, rfl, rfl⟩ | ⟨op, hop, operand, before, rfl, rfl, rfl⟩ |
    ⟨op, hop, left, right, before, rfl, rfl, rfl⟩ := grow?_cases h
  · simp only [rowValues, value, Postfix.push_number]
  · simp only [rowValues, value, bind_assoc, pure_bind, Postfix.push_unary hop]
  · simp only [rowValues, value, bind_assoc, pure_bind, Postfix.push_binary hop]

theorem push_of_grow?_eq_none {row : List OperatorTree} {values : List Float} {t : Token}
    (h : grow? row t = none) (hvalues : rowValues row = .ok values) :
    Postfix.push values t = .error .malformed := by
  have hlength := length_of_rowValues hvalues
  cases t with
  | number text => cases h
  | openParenthesis | closeParenthesis => rfl
  | operator op =>
    apply Postfix.push_operator_of_too_few
    · intro hop
      cases row with
      | nil => exact List.length_eq_zero_iff.mp hlength
      | cons operand before =>
        rw [grow?_unary hop] at h
        cases h
    · intro hop
      rw [hlength]
      match row with
      | [] | [_] => simp
      | _ :: _ :: _ =>
        rw [grow?_binary hop] at h
        cases h

theorem rowValues_of_growAll? {row grown : List OperatorTree} {ts : List Token}
    (h : growAll? row ts = some grown) :
    rowValues grown = rowValues row >>= (Postfix.run · ts) := by
  induction ts generalizing row with
  | nil =>
    cases h
    cases rowValues grown <;> rfl
  | cons t ts ih =>
    rw [← List.singleton_append, growAll?_append, growAll?_singleton] at h
    obtain ⟨next, hnext, hgrown⟩ := Option.bind_eq_some_iff.mp h
    rw [ih hgrown, rowValues_of_grow? hnext, bind_assoc]
    rfl

theorem run_rowListing (row : List OperatorTree) :
    Postfix.run [] (rowListing row) = rowValues row :=
  (rowValues_of_growAll? (growAll?_rowListing row)).symm

theorem evaluate_listing (t : OperatorTree) :
    Postfix.evaluate t.listing = t.value >>= fun value ↦ Postfix.conclude [value] := by
  have hrun : Postfix.run [] t.listing = rowValues [t] := run_rowListing [t]
  rw [Postfix.evaluate, hrun, rowValues_cons_of_ok rfl]
  cases t.value <;> rfl

/-! ### Lists that are no listing of one tree -/

theorem exists_stuck_of_growAll?_eq_none {row : List OperatorTree} {ts : List Token}
    (h : growAll? row ts = none) :
    ∃ read t unread grown, ts = read ++ t :: unread ∧ growAll? row read = some grown ∧
      grow? grown t = none := by
  induction ts generalizing row with
  | nil => cases h
  | cons t ts ih =>
    cases hnext : grow? row t with
    | none => exact ⟨[], t, ts, row, rfl, rfl, hnext⟩
    | some next =>
      rw [← List.singleton_append, growAll?_append, growAll?_singleton, hnext] at h
      obtain ⟨read, u, unread, grown, rfl, hgrown, hstuck⟩ := ih h
      refine ⟨t :: read, u, unread, grown, rfl, ?_, hstuck⟩
      rw [← List.singleton_append, growAll?_append, growAll?_singleton, hnext]
      exact hgrown

/-- A list that lists no single tree starts with a row of trees, and is malformed unless one of
them fails. -/
theorem evaluate_of_forall_listing_ne {ts : List Token} (h : ∀ t : OperatorTree, t.listing ≠ ts) :
    ∃ row later, ts = rowListing row ++ later ∧
      Postfix.evaluate ts = rowValues row >>= fun _ ↦ .error .malformed := by
  cases hread : growAll? [] ts with
  | none =>
    obtain ⟨read, t, unread, row, rfl, hrow, hstuck⟩ := exists_stuck_of_growAll?_eq_none hread
    have hlisting := growAll?_eq_some_iff.mp hrow
    refine ⟨row, t :: unread, by rw [hlisting], ?_⟩
    rw [Postfix.evaluate, Postfix.run_append, ← hlisting, run_rowListing]
    cases hvalues : rowValues row with
    | error e => rfl
    | ok values =>
      rw [Except.ok_bind, Postfix.run_cons, push_of_grow?_eq_none hstuck hvalues]
      rfl
  | some row =>
    have hlisting := growAll?_eq_some_iff.mp hread
    refine ⟨row, [], by rw [hlisting, List.append_nil], ?_⟩
    rw [Postfix.evaluate, ← hlisting, run_rowListing]
    cases hvalues : rowValues row with
    | error e => rfl
    | ok values =>
      have hlength := length_of_rowValues hvalues
      match row, values with
      | [t], _ => exact absurd hlisting (h t)
      | [], [] => rfl
      | _ :: _ :: _, _ :: _ :: _ => rfl

theorem rowListing_eq_flatMap (row : List OperatorTree) :
    rowListing row = row.reverse.flatMap listing := by
  induction row with
  | nil => rfl
  | cons t before ih => simp [rowListing, ih]

/-- The list starts with trees that have values, and after them comes a tree that fails. -/
def FailsFirst (ts : List Token) (e : CalculationError) : Prop :=
  ∃ (earlier : List OperatorTree) (t : OperatorTree) (later : List Token),
    ts = earlier.flatMap listing ++ t.listing ++ later ∧
      (∀ u ∈ earlier, ∃ v, u.value = .ok v) ∧ t.value = .error e

theorem evaluate_of_failsFirst {ts : List Token} {e : CalculationError} (h : FailsFirst ts e) :
    Postfix.evaluate ts = .error e := by
  obtain ⟨earlier, t, later, rfl, hearlier, ht⟩ := h
  have hlisting : earlier.flatMap listing ++ t.listing = rowListing (t :: earlier.reverse) := by
    rw [rowListing, rowListing_eq_flatMap, List.reverse_reverse]
  obtain ⟨values, hvalues⟩ : ∃ values, rowValues earlier.reverse = .ok values :=
    exists_rowValues_eq_ok_iff.mpr fun u hu ↦ hearlier u (List.mem_reverse.mp hu)
  rw [hlisting, Postfix.evaluate, Postfix.run_append, run_rowListing,
    rowValues_cons_of_ok hvalues, ht]
  rfl

theorem failsFirst_of_rowValues_eq_error {row : List OperatorTree} {e : CalculationError}
    (h : rowValues row = .error e) (later : List Token) :
    FailsFirst (rowListing row ++ later) e := by
  obtain ⟨after, t, before, values, rfl, hbefore, ht⟩ := rowValues_eq_error h
  refine ⟨before.reverse, t, after.reverse.flatMap listing ++ later, ?_, ?_, ht⟩
  · simp [rowListing_eq_flatMap]
  · intro u hu
    exact exists_rowValues_eq_ok_iff.mp ⟨values, hbefore⟩ u (List.mem_reverse.mp hu)

/-! ### Outcomes -/

theorem evaluate_listing_eq_ok_iff {t : OperatorTree} {v : Float} :
    Postfix.evaluate t.listing = .ok v ↔ t.value = .ok v ∧ v.isFinite := by
  rw [evaluate_listing, Except.bind_eq_ok_iff]
  constructor
  · rintro ⟨w, hw, hconclude⟩
    obtain ⟨rfl, hfinite⟩ := Postfix.conclude_singleton_eq_ok_iff.mp hconclude
    exact ⟨hw, hfinite⟩
  · rintro ⟨hv, hfinite⟩
    exact ⟨v, hv, Postfix.conclude_singleton_eq_ok_iff.mpr ⟨rfl, hfinite⟩⟩

theorem evaluate_listing_eq_notFinite_iff {t : OperatorTree} :
    Postfix.evaluate t.listing = .error .notFinite ↔
      ∃ v, t.value = .ok v ∧ (v.isNaN ∨ v.isInf) := by
  rw [evaluate_listing, Except.bind_eq_error_iff]
  constructor
  · rintro (herror | ⟨v, hv, hconclude⟩)
    · exact absurd (error_of_value herror) (by decide)
    · exact ⟨v, hv, not_isFinite_iff.mp (Postfix.conclude_singleton_eq_error_iff.mp hconclude).2⟩
  · rintro ⟨v, hv, hinfinite⟩
    exact .inr ⟨v, hv, Postfix.conclude_singleton_eq_error_iff.mpr
      ⟨rfl, not_isFinite_iff.mpr hinfinite⟩⟩

theorem evaluate_eq_error_of_forall_listing_ne {ts : List Token}
    (h : ∀ t : OperatorTree, t.listing ≠ ts) :
    ∃ e, Postfix.evaluate ts = .error e ∧
      (e = .malformed ∨ e ∈ domainErrors ∧ FailsFirst ts e) := by
  obtain ⟨row, later, hts, hevaluate⟩ := evaluate_of_forall_listing_ne h
  cases hvalues : rowValues row with
  | ok values =>
    refine ⟨.malformed, ?_, .inl rfl⟩
    rw [hevaluate, hvalues, Except.ok_bind]
  | error e =>
    have hfirst : FailsFirst ts e := hts ▸ failsFirst_of_rowValues_eq_error hvalues later
    refine ⟨e, evaluate_of_failsFirst hfirst, ?_⟩
    have hkind : e = .malformed ∨ e ∈ domainErrors := by
      obtain ⟨_, t, _, _, _, ht⟩ := hfirst
      exact error_of_value ht
    exact hkind.imp_right fun hdomain ↦ ⟨hdomain, hfirst⟩

/-- Evaluating tokens is evaluating the tree that they list. The result is the finite value of that
tree, which is unique; it is not finite if that value is not; and it is the failure of the first
node in post-order that fails. Tokens that list no single tree are malformed, unless a tree at
their front fails before. -/
theorem evaluate_iff_value (ts : List Token) :
    (∀ v, Postfix.evaluate ts = .ok v ↔
      ∃ t : OperatorTree, t.listing = ts ∧ t.value = .ok v ∧ v.isFinite) ∧
    (Postfix.evaluate ts = .error .notFinite ↔
      ∃ (t : OperatorTree) (v : Float), t.listing = ts ∧ t.value = .ok v ∧ (v.isNaN ∨ v.isInf)) ∧
    (∀ t u : OperatorTree, t.listing = ts → u.listing = ts → t = u) ∧
    (∀ (t : OperatorTree) (e : CalculationError), t.listing = ts → t.value = .error e →
      t.nodes.findSome? failure? = some e ∧ Postfix.evaluate ts = .error e) ∧
    ((∀ t : OperatorTree, t.listing ≠ ts) → ∃ e, Postfix.evaluate ts = .error e ∧
      (e = .malformed ∨ e ∈ domainErrors ∧ FailsFirst ts e)) ∧
    ∀ e, FailsFirst ts e → Postfix.evaluate ts = .error e := by
  refine ⟨fun v ↦ ⟨fun h ↦ ?_, ?_⟩, ⟨fun h ↦ ?_, ?_⟩, fun t u ht hu ↦ ?_, ?_,
    evaluate_eq_error_of_forall_listing_ne, fun e ↦ evaluate_of_failsFirst⟩
  · by_cases hlisting : ∃ t : OperatorTree, t.listing = ts
    · obtain ⟨t, rfl⟩ := hlisting
      exact ⟨t, rfl, evaluate_listing_eq_ok_iff.mp h⟩
    · obtain ⟨e, herror, -⟩ := evaluate_eq_error_of_forall_listing_ne (not_exists.mp hlisting)
      rw [h] at herror
      cases herror
  · rintro ⟨t, rfl, hvalue⟩
    exact evaluate_listing_eq_ok_iff.mpr hvalue
  · by_cases hlisting : ∃ t : OperatorTree, t.listing = ts
    · obtain ⟨t, rfl⟩ := hlisting
      obtain ⟨v, hv⟩ := evaluate_listing_eq_notFinite_iff.mp h
      exact ⟨t, v, rfl, hv⟩
    · obtain ⟨e, herror, hkind⟩ :=
        evaluate_eq_error_of_forall_listing_ne (not_exists.mp hlisting)
      rw [h] at herror
      cases herror
      exact absurd (hkind.imp_right And.left) (by decide)
  · rintro ⟨t, v, rfl, hv⟩
    exact evaluate_listing_eq_notFinite_iff.mpr ⟨v, hv⟩
  · exact listing_injective (ht.trans hu.symm)
  · rintro t e rfl ht
    refine ⟨?_, ?_⟩
    · rw [findSome?_failure?_nodes, failure?_eq_some_iff, ht]
    · rw [evaluate_listing, ht, Except.error_bind]

/-- `1 0 / +` divides before it lacks an operand. -/
theorem evaluate_division_before_missing_operand :
    Postfix.evaluate [.number "1", .number "0", .operator .divide, .operator .add] =
      .error .divisionByZero := by
  have hvalue : (binary .divide rfl (number "1") (number "0")).value =
      .error .divisionByZero := by
    rfl
  apply (evaluate_iff_value _).2.2.2.2.2
  exact ⟨[], _, [.operator .add], rfl, by simp, hvalue⟩

end OperatorTree

end PocketCalculator
