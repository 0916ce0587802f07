import PocketCalculator.Proofs.Postfix.Unopened

/-!
# What parentheses change

A group is converted on its own, whatever waits around it (`Conversion.run_group_selfContained`):
a second pair of parentheses around it changes nothing, and neither does a pair around a number,
except that a root behind it does not take the number as its degree.

Parentheses that are open at the end are closed there, so that it makes no difference whether they
are closed in writing (`Postfix.ofInfix_append_closeParenthesis`).
-/

namespace PocketCalculator

variable {ts us vs contents : List Token} {count after : Nat}

/-! ### Counting parentheses -/

theorem count_of_openAfter? (h : openAfter? count ts = some after) :
    count + ts.count .openParenthesis = after + ts.count .closeParenthesis := by
  induction ts generalizing count with
  | nil =>
    cases h
    rfl
  | cons t ts ih =>
    obtain ⟨middle, hstep, hrest⟩ := Option.bind_eq_some_iff.mp h
    have htoken := count_of_openStep? hstep
    have hlater := ih hrest
    rw [← List.singleton_append, List.count_append, List.count_append]
    omega

theorem exists_openAfter?_eq_some (h : ¬ Unopened ts) : ∃ count, openAfter? 0 ts = some count :=
  Option.ne_none_iff_exists'.mp (mt unopened_iff.mpr h)

theorem openAfter?_eq_some_iff :
    openAfter? 0 ts = some count ↔
      ¬ Unopened ts ∧ ts.count .openParenthesis = ts.count .closeParenthesis + count := by
  constructor
  · intro h
    have hcount := count_of_openAfter? h
    refine ⟨?_, by omega⟩
    rw [unopened_iff, h]
    exact Option.some_ne_none count
  · rintro ⟨hunopened, hcount⟩
    obtain ⟨after, h⟩ := exists_openAfter?_eq_some hunopened
    have hafter := count_of_openAfter? h
    obtain rfl : after = count := by omega
    exact h

/-! ### Conversions that agree on what is still to come -/

namespace Conversion

theorem complete_append_of_run_eq (h : ∀ c : Conversion, c.run us = c.run vs) (c : Conversion)
    (ts : List Token) : c.complete (us ++ ts) = c.complete (vs ++ ts) := by
  rw [complete_append, complete_append, h]

end Conversion

theorem Postfix.ofInfix_append_of_complete_eq
    (h : ∀ c : Conversion, c.complete us = c.complete vs) (before : List Token) :
    ofInfix (before ++ us) = ofInfix (before ++ vs) := by
  have hcomplete : Conversion.start.complete (before ++ us) =
      Conversion.start.complete (before ++ vs) := by
    simp only [Conversion.complete_append, h]
  exact hcomplete

/-! ### Groups -/

namespace Conversion

/-- A group in a group is the inner group. -/
theorem run_group_group (h : Balanced contents) (c : Conversion) :
    c.run (.openParenthesis :: .openParenthesis :: contents ++
        [.closeParenthesis, .closeParenthesis]) =
      c.run (.openParenthesis :: contents ++ [.closeParenthesis]) := by
  obtain ⟨converted, hconverted⟩ := Postfix.exists_ofInfix_eq_ok h
  have hinner : Postfix.ofInfix (.openParenthesis :: contents ++ [.closeParenthesis]) =
      .ok converted := by
    have hrun := Postfix.ofInfix_of_run (Postfix.run_group .start h hconverted)
    simpa [finish, start, Pending.closeAll] using hrun
  have houter := Postfix.run_group c h.group hinner
  rw [Postfix.run_group c h hconverted, ← houter]
  simp

/-- A number and a group that has just ended are the same to every token but a root. -/
theorem step_closeParenthesis {t : Token} (h : t ≠ .operator .root) (pending : List Pending)
    (text : String) :
    step ⟨pending, some .closeParenthesis⟩ t = step ⟨pending, some (.number text)⟩ t := by
  match t with
  | .number _ | .openParenthesis | .closeParenthesis => rfl
  | .operator op =>
    cases op with
    | root => exact absurd rfl h
    | add | subtract | multiply | divide | power | factorial | percent => rfl

theorem complete_group_number (h : ts.head? ≠ some (.operator .root)) (text : String)
    (c : Conversion) :
    c.complete ([.openParenthesis, .number text, .closeParenthesis] ++ ts) =
      c.complete ([.number text] ++ ts) := by
  have hgroup : c.run [.openParenthesis, .number text, .closeParenthesis] =
      .ok ([.number text], ⟨c.pending, some .closeParenthesis⟩) := rfl
  have hnumber : c.run [.number text] =
      .ok ([.number text], ⟨c.pending, some (.number text)⟩) := rfl
  have hrest : complete ⟨c.pending, some .closeParenthesis⟩ ts =
      complete ⟨c.pending, some (.number text)⟩ ts := by
    cases ts with
    | nil => rfl
    | cons t ts =>
      have ht : t ≠ .operator .root := by
        rintro rfl
        exact h rfl
      rw [complete, complete, run, run, step_closeParenthesis ht c.pending text]
  simp only [complete_append, hgroup, hnumber, Except.ok_bind, hrest]

/-- A group leaves what waits around it alone, and comes out as its contents do on their own. So it
may stand in two pairs of parentheses as well as in one, and a number may stand in parentheses
wherever no root follows. -/
theorem run_group_selfContained (before : List Token) :
    (∀ contents, ¬ Unopened before → Balanced contents →
      ∃ handedOut c converted, start.run before = .ok (handedOut, c) ∧
        Postfix.ofInfix contents = .ok converted ∧
        start.run (before ++ .openParenthesis :: contents ++ [.closeParenthesis]) =
          .ok (handedOut ++ converted, ⟨c.pending, some .closeParenthesis⟩)) ∧
    (∀ contents after, Balanced contents →
      Postfix.ofInfix (before ++ .openParenthesis :: .openParenthesis :: contents ++
          .closeParenthesis :: .closeParenthesis :: after) =
        Postfix.ofInfix (before ++ .openParenthesis :: contents ++ .closeParenthesis :: after)) ∧
    ∀ text after, after.head? ≠ some (.operator .root) →
      Postfix.ofInfix (before ++ .openParenthesis :: .number text :: .closeParenthesis :: after) =
        Postfix.ofInfix (before ++ .number text :: after) := by
  refine ⟨?_, ?_, ?_⟩
  · intro contents hbefore hcontents
    obtain ⟨count, hopen⟩ := exists_openAfter?_eq_some hbefore
    obtain ⟨handedOut, c, hrun, -⟩ := run_of_openAfter?_eq_some (c := start) hopen
    obtain ⟨converted, hconverted⟩ := Postfix.exists_ofInfix_eq_ok hcontents
    refine ⟨handedOut, c, converted, hrun, hconverted, ?_⟩
    have hgroup := run_append_of_ok hrun (Postfix.run_group c hcontents hconverted)
    simpa using hgroup
  · intro contents after hcontents
    have hcomplete := Postfix.ofInfix_append_of_complete_eq
      (fun c ↦ complete_append_of_run_eq (run_group_group hcontents) c after) before
    simpa using hcomplete
  · intro text after hafter
    have hcomplete := Postfix.ofInfix_append_of_complete_eq
      (complete_group_number hafter text) before
    simpa using hcomplete

/-- Around the ill-formed group of `2 ^ (1 + (-√3 *` two operators and a parenthesis wait. -/
theorem run_group_selfContained_illFormed :
    ¬ Unopened [.number "2", .operator .power, .openParenthesis, .number "1", .operator .add] ∧
    Balanced [.operator .subtract, .operator .root, .number "3", .operator .multiply] ∧
    (∃ handedOut c converted,
      start.run [.number "2", .operator .power, .openParenthesis, .number "1", .operator .add] =
          .ok (handedOut, c) ∧
        Postfix.ofInfix [.operator .subtract, .operator .root, .number "3", .operator .multiply] =
          .ok converted ∧
        start.run [.number "2", .operator .power, .openParenthesis, .number "1", .operator .add,
            .openParenthesis, .operator .subtract, .operator .root, .number "3",
            .operator .multiply, .closeParenthesis] =
          .ok (handedOut ++ converted, ⟨c.pending, some .closeParenthesis⟩)) ∧
    [Token.operator .subtract, .number "7"].head? ≠ some (.operator .root) ∧
    Postfix.ofInfix [.number "2", .operator .power, .openParenthesis, .number "1", .operator .add,
        .openParenthesis, .number "5", .closeParenthesis, .operator .subtract, .number "7"] =
      Postfix.ofInfix [.number "2", .operator .power, .openParenthesis, .number "1",
        .operator .add, .number "5", .operator .subtract, .number "7"] := by
  have hbefore : ¬ Unopened
      [.number "2", .operator .power, .openParenthesis, .number "1", .operator .add] := by
    rw [unopened_iff]
    decide
  have hcontents : Balanced
      [.operator .subtract, .operator .root, .number "3", .operator .multiply] := by
    decide
  have hafter : [Token.operator .subtract, .number "7"].head? ≠ some (.operator .root) := by
    decide
  obtain ⟨hgroup, -, hnumber⟩ := run_group_selfContained
    [.number "2", .operator .power, .openParenthesis, .number "1", .operator .add]
  exact ⟨hbefore, hcontents, hgroup _ hbefore hcontents, hafter, hnumber "5" _ hafter⟩

end Conversion

/-! ### Parentheses left open -/

/-- Closing a group in writing hands out now what would be handed out at the end. -/
theorem Conversion.exists_run_closeParenthesis {c : Conversion} (h : count ≤ c.depth) :
    ∃ handedOut last, c.run (List.replicate count .closeParenthesis) = .ok (handedOut, last) ∧
      handedOut ++ last.finish = c.finish := by
  induction count generalizing c with
  | zero => exact ⟨[], c, rfl, rfl⟩
  | succ count ih =>
    obtain ⟨outer, hdepth⟩ : ∃ outer, c.depth = outer + 1 := ⟨c.depth - 1, by omega⟩
    have hopen : openStep? c.depth .closeParenthesis = some outer := by
      rw [hdepth]
      rfl
    obtain ⟨first, next, hstep, hnext⟩ := step_of_openStep?_eq_some hopen
    obtain ⟨released, kept, hfinish, hfirst, hkept, -⟩ := exists_of_step hstep
    obtain ⟨later, last, hrun, hlast⟩ := ih (c := next) (by omega)
    refine ⟨first ++ later, last, ?_, ?_⟩
    · rw [List.replicate_succ, run_cons_of_ok hstep, hrun]
      rfl
    · rw [List.append_assoc, hlast, hkept, ← hfinish, hfirst]
      rfl

/-- A conversion closes at the end the parentheses that are open, as many as these are. -/
theorem Postfix.ofInfix_append_closeParenthesis (hts : ¬ Unopened ts)
    (hopen : ts.count .openParenthesis = ts.count .closeParenthesis + count) :
    ∃ converted, ofInfix ts = .ok converted ∧
      ∀ closing, ofInfix (ts ++ List.replicate closing .closeParenthesis) =
        if closing ≤ count then .ok converted else .error .malformed := by
  have hafter := openAfter?_eq_some_iff.mpr ⟨hts, hopen⟩
  obtain ⟨handedOut, c, hrun, hdepth⟩ :=
    Conversion.run_of_openAfter?_eq_some (c := .start) hafter
  refine ⟨handedOut ++ c.finish, ofInfix_of_run hrun, ?_⟩
  intro closing
  split
  · next hle =>
    obtain ⟨released, last, hclose, hfinish⟩ :=
      Conversion.exists_run_closeParenthesis (c := c) (hdepth ▸ hle)
    rw [ofInfix_of_run (Conversion.run_append_of_ok hrun hclose), List.append_assoc, hfinish]
  · next hlt =>
    have hunopened : Unopened (ts ++ List.replicate closing .closeParenthesis) := by
      refine ⟨_, List.prefix_rfl, ?_⟩
      simp only [List.count_append, List.count_replicate_self]
      have hnone : (List.replicate closing Token.closeParenthesis).count .openParenthesis = 0 := by
        simp [List.count_replicate]
      omega
    exact ofInfix_of_openAfter?_eq_none (unopened_iff.mp hunopened)

/-- In `2 * (3 + (4 -` two parentheses are open, each with an operator that waits. -/
theorem Postfix.ofInfix_append_closeParenthesis_twice :
    ¬ Unopened [.number "2", .operator .multiply, .openParenthesis, .number "3", .operator .add,
      .openParenthesis, .number "4", .operator .subtract] ∧
    ofInfix [.number "2", .operator .multiply, .openParenthesis, .number "3", .operator .add,
        .openParenthesis, .number "4", .operator .subtract, .closeParenthesis] =
      ofInfix [.number "2", .operator .multiply, .openParenthesis, .number "3", .operator .add,
        .openParenthesis, .number "4", .operator .subtract] ∧
    ofInfix [.number "2", .operator .multiply, .openParenthesis, .number "3", .operator .add,
        .openParenthesis, .number "4", .operator .subtract, .closeParenthesis, .closeParenthesis,
        .closeParenthesis] = .error .malformed := by
  have hts : ¬ Unopened [.number "2", .operator .multiply, .openParenthesis, .number "3",
      .operator .add, .openParenthesis, .number "4", .operator .subtract] := by
    rw [unopened_iff]
    decide
  have hopen : [Token.number "2", .operator .multiply, .openParenthesis, .number "3",
        .operator .add, .openParenthesis, .number "4", .operator .subtract].count .openParenthesis =
      [Token.number "2", .operator .multiply, .openParenthesis, .number "3", .operator .add,
        .openParenthesis, .number "4", .operator .subtract].count .closeParenthesis + 2 := by
    decide
  obtain ⟨converted, hconverted, hclosing⟩ := ofInfix_append_closeParenthesis hts hopen
  exact ⟨hts, (hclosing 1).trans hconverted.symm, hclosing 3⟩

end PocketCalculator
