import PocketCalculator.Proofs.Postfix.Reading

/-!
# Groups and operands

The open parentheses among what waits are counted by a scan of the tokens alone
(`Conversion.run_of_openAfter?_eq_some`). A conversion inside a group does what it would do on its
own, and leaves what waits outside alone (`Conversion.run_inside`). So the tokens between two
matching parentheses come out as their own conversion, whatever stands around them.
-/

namespace PocketCalculator

/-! ### Open parentheses -/

/-- The number of open parentheses after one more token, unless it closes one that is not open. -/
def openStep? : Nat → Token → Option Nat
  | count, .openParenthesis => some (count + 1)
  | 0, .closeParenthesis => none
  | count + 1, .closeParenthesis => some count
  | count, .number _ | count, .operator _ => some count

def openAfter? (count : Nat) (ts : List Token) : Option Nat :=
  ts.foldlM openStep? count

/-- Every parenthesis is matched. -/
def Balanced (ts : List Token) : Prop :=
  openAfter? 0 ts = some 0

instance : DecidablePred Balanced := fun ts ↦
  inferInstanceAs (Decidable (openAfter? 0 ts = some 0))

variable {ts us : List Token} {t : Token}

theorem openAfter?_cons (count : Nat) (t : Token) (ts : List Token) :
    openAfter? count (t :: ts) = (openStep? count t).bind (openAfter? · ts) := rfl

theorem openAfter?_append (count : Nat) (ts us : List Token) :
    openAfter? count (ts ++ us) = (openAfter? count ts).bind (openAfter? · us) := by
  simp [openAfter?]

theorem openStep?_add {count after : Nat} (h : openStep? count t = some after) (outer : Nat) :
    openStep? (count + outer) t = some (after + outer) := by
  cases t with
  | number text | operator op =>
    cases h
    rfl
  | openParenthesis =>
    cases h
    exact congrArg some (by omega)
  | closeParenthesis =>
    cases count with
    | zero => cases h
    | succ count =>
      cases h
      rw [Nat.succ_add]
      rfl

theorem openAfter?_add {count after : Nat} (h : openAfter? count ts = some after) (outer : Nat) :
    openAfter? (count + outer) ts = some (after + outer) := by
  induction ts generalizing count with
  | nil =>
    cases h
    rfl
  | cons t ts ih =>
    obtain ⟨next, hnext, hrest⟩ := Option.bind_eq_some_iff.mp h
    rw [openAfter?_cons, openStep?_add hnext, Option.bind_some]
    exact ih hrest

namespace Balanced

theorem append (hts : Balanced ts) (hus : Balanced us) : Balanced (ts ++ us) := by
  rw [Balanced, openAfter?_append, hts, Option.bind_some, hus]

theorem cons_operator (h : Balanced ts) (op : Operator) : Balanced (.operator op :: ts) := h

theorem append_operator (h : Balanced ts) (op : Operator) : Balanced (ts ++ [.operator op]) :=
  h.append rfl

theorem group (h : Balanced ts) :
    Balanced (.openParenthesis :: ts ++ [.closeParenthesis]) := by
  have hinside : openAfter? 1 ts = some 1 := openAfter?_add h 1
  rw [Balanced, List.cons_append, openAfter?_cons, openStep?, Option.bind_some, openAfter?_append,
    hinside]
  rfl

end Balanced

namespace Pending

variable {pending kept : List Pending} {released : List Token}

theorem count_group_release (next : Operator) (pending : List Pending) :
    (release next pending).2.count .group = pending.count .group := by
  fun_induction release next pending with
  | case1 op rest happlies released kept heq ih =>
    rw [heq] at ih
    rw [List.count_cons_of_ne (by simp)]
    exact ih
  | case2 => rfl
  | case3 => rfl

theorem close?_eq_none (h : pending.count .group = 0) : close? pending = none := by
  induction pending with
  | nil => rfl
  | cons p rest ih =>
    cases p with
    | group =>
      rw [List.count_cons_self] at h
      omega
    | operator op =>
      rw [List.count_cons_of_ne (by simp)] at h
      rw [close?, ih h]
      rfl

theorem exists_close?_eq_some {count : Nat} (h : pending.count .group = count + 1) :
    ∃ released kept, close? pending = some (released, kept) ∧ kept.count .group = count := by
  induction pending with
  | nil => cases h
  | cons p rest ih =>
    cases p with
    | group =>
      rw [List.count_cons_self] at h
      exact ⟨[], rest, rfl, by omega⟩
    | operator op =>
      rw [List.count_cons_of_ne (by simp)] at h
      obtain ⟨released, kept, hclose, hcount⟩ := ih h
      refine ⟨.operator op :: released, kept, ?_, hcount⟩
      rw [close?, hclose]
      rfl

end Pending

namespace Conversion

variable {c next last : Conversion} {handedOut : List Token}

/-- The number of groups that a conversion is inside of. -/
def depth (c : Conversion) : Nat :=
  c.pending.count .group

theorem step_of_openStep?_eq_none (h : openStep? c.depth t = none) :
    c.step t = .error .malformed := by
  cases t with
  | number text | operator op | openParenthesis => cases h
  | closeParenthesis =>
    cases hdepth : c.depth with
    | zero => rw [step, Pending.close?_eq_none hdepth]
    | succ count =>
      rw [hdepth] at h
      cases h

theorem step_of_openStep?_eq_some {count : Nat} (h : openStep? c.depth t = some count) :
    ∃ handedOut next, c.step t = .ok (handedOut, next) ∧ next.depth = count := by
  cases t with
  | number text =>
    cases h
    exact ⟨_, _, rfl, rfl⟩
  | operator op =>
    cases h
    refine ⟨_, _, rfl, ?_⟩
    rw [depth, List.count_cons_of_ne (by simp), Pending.count_group_release]
    rfl
  | openParenthesis =>
    cases h
    exact ⟨_, _, rfl, List.count_cons_self⟩
  | closeParenthesis =>
    cases hdepth : c.depth with
    | zero =>
      rw [hdepth] at h
      cases h
    | succ outer =>
      rw [hdepth] at h
      cases h
      obtain ⟨released, kept, hclose, hcount⟩ := Pending.exists_close?_eq_some hdepth
      exact ⟨released, ⟨kept, some .closeParenthesis⟩, by rw [step, hclose], hcount⟩

theorem run_of_openAfter?_eq_some {count : Nat} (h : openAfter? c.depth ts = some count) :
    ∃ handedOut last, c.run ts = .ok (handedOut, last) ∧ last.depth = count := by
  induction ts generalizing c with
  | nil =>
    cases h
    exact ⟨[], c, rfl, rfl⟩
  | cons t ts ih =>
    obtain ⟨middle, hmiddle, hrest⟩ := Option.bind_eq_some_iff.mp h
    obtain ⟨first, next, hstep, rfl⟩ := step_of_openStep?_eq_some hmiddle
    obtain ⟨later, last, hrun, hlast⟩ := ih hrest
    refine ⟨first ++ later, last, ?_, hlast⟩
    rw [run_cons_of_ok hstep, hrun]
    rfl

theorem run_of_openAfter?_eq_none (h : openAfter? c.depth ts = none) :
    c.run ts = .error .malformed := by
  induction ts generalizing c with
  | nil => cases h
  | cons t ts ih =>
    cases hstep : openStep? c.depth t with
    | none => exact run_cons_of_error (step_of_openStep?_eq_none hstep) ts
    | some middle =>
      rw [openAfter?_cons, hstep, Option.bind_some] at h
      obtain ⟨first, next, hnext, rfl⟩ := step_of_openStep?_eq_some hstep
      rw [run_cons_of_ok hnext, ih h]
      rfl

/-! ### Inside a group -/

/-- The conversion inside a group, with `outer` waiting around the group. -/
def inside (c : Conversion) (outer : List Pending) : Conversion :=
  ⟨c.pending ++ .group :: outer, c.previous⟩

theorem step_inside (h : c.step t = .ok (handedOut, next)) (outer : List Pending) :
    (c.inside outer).step t = .ok (handedOut, next.inside outer) := by
  cases t with
  | number text | openParenthesis =>
    cases h
    rfl
  | operator op =>
    cases h
    rw [step_operator, inside, Pending.release_append_group]
    rfl
  | closeParenthesis =>
    rw [step] at h
    split at h
    · next released kept hclose =>
      cases h
      rw [step, inside, Pending.close?_append hclose]
      rfl
    · cases h

theorem run_inside (h : c.run ts = .ok (handedOut, last)) (outer : List Pending) :
    (c.inside outer).run ts = .ok (handedOut, last.inside outer) := by
  induction ts generalizing c handedOut with
  | nil =>
    cases h
    rfl
  | cons t ts ih =>
    obtain ⟨first, middle, second, hstep, hrest, rfl⟩ := exists_of_run_cons h
    rw [run_cons_of_ok (step_inside hstep outer), ih hrest]
    rfl

/-- Nothing stands before the first token of a group, as nothing does at the start. -/
theorem step_openParenthesis (pending : List Pending) (t : Token) :
    step ⟨pending, some .openParenthesis⟩ t = step ⟨pending, none⟩ t := by
  match t with
  | .number _ | .openParenthesis | .closeParenthesis => rfl
  | .operator op => cases op <;> rfl

theorem run_openParenthesis (h : start.run ts = .ok (handedOut, last)) :
    ∃ last', run ⟨[], some .openParenthesis⟩ ts = .ok (handedOut, last') ∧
      last'.pending = last.pending := by
  cases ts with
  | nil =>
    cases h
    exact ⟨_, rfl, rfl⟩
  | cons t ts =>
    refine ⟨last, ?_, rfl⟩
    rw [run, step_openParenthesis]
    exact h

end Conversion

namespace Postfix

open Conversion

theorem exists_ofInfix_eq_ok {count : Nat} (h : openAfter? 0 ts = some count) :
    ∃ converted, ofInfix ts = .ok converted := by
  obtain ⟨handedOut, last, hrun, -⟩ := run_of_openAfter?_eq_some (c := start) h
  exact ⟨handedOut ++ last.finish, ofInfix_of_run hrun⟩

/-- A group comes out as its contents do on their own, and leaves nothing waiting. -/
theorem run_group (c : Conversion) (hts : Balanced ts) {converted : List Token}
    (h : ofInfix ts = .ok converted) :
    c.run (.openParenthesis :: ts ++ [.closeParenthesis]) =
      .ok (converted, ⟨c.pending, some .closeParenthesis⟩) := by
  obtain ⟨handedOut, last, hrun, hdepth⟩ := run_of_openAfter?_eq_some (c := start) hts
  have hconverted : handedOut ++ last.finish = converted := by
    rw [ofInfix_of_run hrun] at h
    exact Except.ok.inj h
  obtain ⟨last', hinner, hpending⟩ := run_openParenthesis hrun
  have hgroup : Pending.group ∉ last'.pending := by
    rw [hpending]
    exact List.count_eq_zero.mp hdepth
  have hopen : c.run [.openParenthesis] =
      .ok ([], (Conversion.mk [] (some .openParenthesis)).inside c.pending) := by
    rw [run_singleton]
    rfl
  have hclose : (last'.inside c.pending).run [.closeParenthesis] =
      .ok (last.finish, ⟨c.pending, some .closeParenthesis⟩) := by
    rw [run_singleton, step, inside, Pending.close?_append_group hgroup, hpending]
    rfl
  have hall := run_append_of_ok (run_append_of_ok hopen (run_inside hinner c.pending)) hclose
  rw [List.nil_append, hconverted] at hall
  exact hall

end Postfix

/-! ### Operands -/

/-- A number, or a group. -/
inductive Operand
  | number (text : String)
  | group (contents : List Token) (h : Balanced contents)

namespace Operand

def tokens : Operand → List Token
  | number text => [.number text]
  | group contents _ => .openParenthesis :: contents ++ [.closeParenthesis]

def converted : Operand → List Token
  | number text => [.number text]
  | group contents _ => (Postfix.ofInfix contents).toOption.getD []

theorem ofInfix_contents {contents : List Token} (h : Balanced contents) :
    Postfix.ofInfix contents = .ok (group contents h).converted := by
  obtain ⟨converted, hconverted⟩ := Postfix.exists_ofInfix_eq_ok h
  rw [Operand.converted, hconverted]
  rfl

theorem balanced_tokens (operand : Operand) : Balanced operand.tokens := by
  cases operand with
  | number text => rfl
  | group contents h => exact h.group

theorem run_tokens (operand : Operand) (c : Conversion) :
    ∃ previous, c.run operand.tokens = .ok (operand.converted, ⟨c.pending, some previous⟩) ∧
      operandDue (some previous) = false := by
  cases operand with
  | number text =>
    refine ⟨.number text, ?_, rfl⟩
    rw [tokens, Conversion.run_singleton]
    rfl
  | group contents h =>
    exact ⟨.closeParenthesis, Postfix.run_group c h (ofInfix_contents h), rfl⟩

end Operand

end PocketCalculator
