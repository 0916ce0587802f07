import PocketCalculator.Proofs.Postfix.TreeEvaluation
import PocketCalculator.Trace.Log

/-!
# The log of an evaluation lists the values of subtrees

Tokens are processed up to the end or to the first that fails (`Postfix.run_eq_error_iff`). Each
that is processed ends one subtree, and its record carries the value of that subtree
(`OperatorTree.exists_endsAt_of_run`). What is left at the end where more or less than one tree was
read are the values of its trees (`Log.exists_reports`).
-/

namespace PocketCalculator

open OperatorTree (rowListing rowValues growAll?)

variable {ts read unread : List Token} {t : Token} {stack after values : List Float} {v : Float}
  {e : CalculationError} {row : List OperatorTree} {u w : OperatorTree} {i : ℕ}

/-! ### Tokens processed -/

namespace Postfix

theorem exists_run_of_append (h : run stack (read ++ unread) = .ok after) :
    ∃ middle, run stack read = .ok middle := by
  rw [run_append] at h
  obtain ⟨middle, hmiddle, -⟩ := Except.bind_eq_ok_iff.mp h
  exact ⟨middle, hmiddle⟩

end Postfix

/-! ### The subtree that a token ends -/

namespace OperatorTree

theorem rowValues_eq_ok_iff : rowValues row = .ok values ↔ row.map value = values.map .ok := by
  induction row generalizing values with
  | nil =>
    rw [rowValues, Except.ok.injEq]
    constructor
    · rintro rfl
      rfl
    · intro h
      exact (List.map_eq_nil_iff.mp h.symm).symm
  | cons t before ih =>
    rw [rowValues, List.map_cons]
    constructor
    · intro h
      obtain ⟨earlier, hbefore, hrest⟩ := Except.bind_eq_ok_iff.mp h
      obtain ⟨v, hv, hcons⟩ := Except.bind_eq_ok_iff.mp hrest
      cases hcons
      rw [List.map_cons, hv, ih.mp hbefore]
    · intro h
      cases values with
      | nil => cases h
      | cons v earlier =>
        rw [List.map_cons, List.cons.injEq] at h
        rw [ih.mpr h.2, h.1]
        rfl

/-- Tokens that are processed list a row of trees, and its values are on the stack. -/
theorem run_eq_ok_iff :
    Postfix.run [] ts = .ok stack ↔ ∃ row, rowListing row = ts ∧ rowValues row = .ok stack := by
  constructor
  · intro h
    cases hread : growAll? [] ts with
    | none =>
      obtain ⟨read, t, unread, row, rfl, hrow, hstuck⟩ := exists_stuck_of_growAll?_eq_none hread
      obtain ⟨values, hvalues⟩ := Postfix.exists_run_of_append h
      have hfailed : Postfix.push values t = .error .malformed := by
        apply push_of_grow?_eq_none hstuck
        rw [rowValues_of_growAll? hrow]
        exact hvalues
      rw [Postfix.run_append, hvalues, Except.ok_bind, Postfix.run_cons, hfailed] at h
      cases h
    | some row =>
      obtain rfl := growAll?_eq_some_iff.mp hread
      exact ⟨row, rfl, by rw [← run_rowListing, h]⟩
  · rintro ⟨row, rfl, hvalues⟩
    rw [run_rowListing, hvalues]

/-- The tree is the part of the tokens that ends with the token at place `i`. -/
def EndsAt (u : OperatorTree) (ts : List Token) (i : ℕ) : Prop :=
  u.listing <:+ ts.take (i + 1)

theorem EndsAt.unique (hu : u.EndsAt ts i) (hw : w.EndsAt ts i) : u = w := by
  -- The shorter of the two listings is the end of the longer one.
  wlog hle : u.listing.length ≤ w.listing.length generalizing u w
  · exact (this hw hu (by omega)).symm
  obtain ⟨front, hfront⟩ := List.suffix_of_suffix_length_le hu hw hle
  have hgrow : growAll? [] (front ++ u.listing) = some [w] := by
    rw [hfront, growAll?_listing]
  rw [growAll?_append] at hgrow
  obtain ⟨row, -, hrow⟩ := Option.bind_eq_some_iff.mp hgrow
  rw [growAll?_listing] at hrow
  exact (List.cons.inj (Option.some.inj hrow)).1

theorem listing_ne_nil (u : OperatorTree) : u.listing ≠ [] := by
  cases u <;> simp [listing]

theorem exists_endsAt_of_run (h : Postfix.run [] (ts.take (i + 1)) = .ok (v :: after)) :
    ∃ u : OperatorTree, u.EndsAt ts i ∧ u.value = .ok v := by
  obtain ⟨row, hlisting, hvalues⟩ := run_eq_ok_iff.mp h
  cases row with
  | nil => cases hvalues
  | cons u before =>
    have hmap := rowValues_eq_ok_iff.mp hvalues
    rw [List.map_cons, List.map_cons, List.cons.injEq] at hmap
    exact ⟨u, ⟨rowListing before, hlisting⟩, hmap.1⟩

/-- No subtree that has a value ends with a token that fails. -/
theorem value_ne_ok_of_endsAt (hread : Postfix.run [] read = .ok stack)
    (hpush : Postfix.push stack t = .error e) (h : u.listing <:+ read ++ [t]) (v : Float) :
    u.value ≠ .ok v := by
  intro hv
  obtain ⟨front, hfront⟩ := h
  obtain ⟨middle, hmiddle⟩ : ∃ middle, Postfix.run [] front = .ok middle := by
    have hlength := congrArg List.length hfront
    have hpos := List.length_pos_iff.mpr u.listing_ne_nil
    rw [List.length_append, List.length_append, List.length_singleton] at hlength
    have hfront' : front <+: read ++ [t] := ⟨u.listing, hfront⟩
    obtain ⟨rest, rfl⟩ :=
      List.prefix_of_prefix_length_le hfront' (List.prefix_append read [t]) (by omega)
    exact Postfix.exists_run_of_append hread
  obtain ⟨row, rfl, hrow⟩ := run_eq_ok_iff.mp hmiddle
  have hvalues : rowValues (u :: row) = .ok (v :: middle) := by
    rw [rowValues_cons_of_ok hrow, hv]
    rfl
  have hrun := run_eq_ok_iff.mpr ⟨u :: row, hfront, hvalues⟩
  rw [Postfix.run_append, hread, Except.ok_bind, Postfix.run_cons, hpush] at hrun
  cases hrun

theorem flatMap_listing_eq_iff {forest : List OperatorTree} :
    forest.flatMap listing = rowListing row ↔ forest = row.reverse := by
  constructor
  · intro h
    have hread : growAll? [] (rowListing row) = some forest.reverse := by
      rw [growAll?_eq_some_iff, ← h, rowListing_eq_flatMap, List.reverse_reverse]
    rw [growAll?_rowListing] at hread
    rw [Option.some.inj hread, List.reverse_reverse]
  · rintro rfl
    rw [rowListing_eq_flatMap]

end OperatorTree

/-! ### Records -/

namespace Log

/-- Each token that is processed leaves a record with the value that it puts on the stack. -/
theorem exists_reduction_append (h : Postfix.run stack read = .ok after) :
    ∃ values : List Float, values.length = read.length ∧
      (∀ unread, reduction stack (read ++ unread) =
        List.zipWith .pushed read values ++ reduction after unread) ∧
      ∀ i (hi : i < values.length), ∃ below,
        Postfix.run stack (read.take (i + 1)) = .ok (values[i] :: below) := by
  induction read generalizing stack with
  | nil =>
    cases h
    exact ⟨[], rfl, fun _ ↦ rfl, nofun⟩
  | cons t read ih =>
    obtain ⟨middle, hpush, hread⟩ := Except.bind_eq_ok_iff.mp h
    obtain ⟨v, below, hreduce, rfl⟩ := Postfix.exists_reduce_of_push hpush
    obtain ⟨values, hlength, hlog, hvalues⟩ := ih hread
    refine ⟨v :: values, congrArg (· + 1) hlength, ?_, ?_⟩
    · intro unread
      rw [List.cons_append, reduction, hreduce, List.zipWith_cons_cons, List.cons_append,
        ← hlog unread]
    · intro i hi
      rw [List.take_succ_cons, Postfix.run_cons, hpush, Except.ok_bind]
      cases i with
      | zero => exact ⟨below, rfl⟩
      | succ i => exact hvalues i (Nat.lt_of_succ_lt_succ hi)

theorem reduction_of_push_eq_error (h : Postfix.push stack t = .error e) (ts : List Token) :
    reduction stack (t :: ts) = if t.isParenthesis then [.parenthesisInPostfix] else [] := by
  rw [reduction, Postfix.reduce_of_push_eq_error h]

theorem reduction_nil (stack : List Float) :
    reduction stack [] = if stack.length = 1 then [] else [.leftover stack.reverse] := by
  rcases stack with _ | ⟨x, _ | ⟨y, below⟩⟩ <;> rfl

theorem leftover_mem_reduction_nil {roots : List Float} :
    .leftover roots ∈ reduction after [] ↔ after.length ≠ 1 ∧ roots = after.reverse := by
  rw [reduction_nil]
  split <;> simp [*]

/-- What the log of some tokens has to do with their subtrees: `values` are those of its records of
tokens, and `rest` are its other records. -/
structure Reports (ts : List Token) (values : List Float) (rest : List Record) : Prop where
  /-- The records name the tokens in turn. -/
  evaluation_eq : evaluation ts = List.zipWith .pushed ts values ++ rest
  length_le : values.length ≤ ts.length
  pushed_notMem : ∀ t v, .pushed t v ∉ rest
  /-- Each carries the value of the only subtree that its token ends. -/
  subtree : ∀ i (hi : i < values.length), ∃ u : OperatorTree, u.EndsAt ts i ∧
    u.value = .ok values[i] ∧ ∀ w : OperatorTree, w.EndsAt ts i → w = u
  /-- They stop at the first token that fails, -/
  failure : ∀ hlt : values.length < ts.length, ∃ stack e,
    Postfix.run [] (ts.take values.length) = .ok stack ∧
      Postfix.push stack ts[values.length] = .error e ∧ Postfix.evaluate ts = .error e
  /-- which ends no subtree that has a value. -/
  subtree_failure : values.length < ts.length → ∀ u : OperatorTree, u.EndsAt ts values.length →
    ∀ v, u.value ≠ .ok v
  result : ∀ v, Postfix.evaluate ts = .ok v → values.getLast? = some v
  /-- Values are left where all tokens were processed and list no trees or several. -/
  leftover_iff : (∃ roots, .leftover roots ∈ evaluation ts) ↔ values.length = ts.length ∧
    ∃ forest : List OperatorTree, forest.length ≠ 1 ∧ forest.flatMap OperatorTree.listing = ts
  /-- They are the values of these trees from left to right. -/
  roots : ∀ roots (forest : List OperatorTree), .leftover roots ∈ evaluation ts →
    forest.flatMap OperatorTree.listing = ts → forest.map OperatorTree.value = roots.map .ok

theorem leftover_mem_zipWith_append_iff {roots : List Float} {rest : List Record} :
    .leftover roots ∈ List.zipWith .pushed ts values ++ rest ↔ .leftover roots ∈ rest := by
  rw [List.mem_append, ← List.map_uncurry_zip_eq_zipWith, or_iff_right]
  simp

/-- The log of tokens of which the first are processed starts with the records of these. -/
theorem exists_evaluation_append (h : Postfix.run [] read = .ok after) (unread : List Token) :
    ∃ values : List Float, values.length = read.length ∧ values.getLast? = after.head? ∧
      evaluation (read ++ unread) =
        List.zipWith .pushed (read ++ unread) values ++ reduction after unread ∧
      ∀ i (hi : i < values.length), ∃ u : OperatorTree, u.EndsAt (read ++ unread) i ∧
        u.value = .ok values[i] ∧ ∀ w : OperatorTree, w.EndsAt (read ++ unread) i → w = u := by
  obtain ⟨values, hlength, hlog, hvalues⟩ := exists_reduction_append h
  refine ⟨values, hlength, ?_, ?_, ?_⟩
  · by_cases hread : read = []
    · subst hread
      cases h
      rw [List.length_eq_zero_iff.mp hlength]
      rfl
    · have hpos := List.length_pos_iff.mpr hread
      obtain ⟨below, hrun⟩ := hvalues (values.length - 1) (by omega)
      rw [List.take_of_length_le (by omega), h] at hrun
      cases hrun
      rw [List.getLast?_eq_getElem?]
      exact List.getElem?_eq_getElem _
  · have hzip : List.zipWith Record.pushed (read ++ unread) (values ++ []) =
        List.zipWith .pushed read values ++ List.zipWith .pushed unread [] :=
      List.zipWith_append hlength.symm
    rw [List.append_nil, List.zipWith_nil_right, List.append_nil] at hzip
    rw [hzip]
    exact hlog unread
  · intro i hi
    obtain ⟨below, hrun⟩ := hvalues i hi
    have htake : (read ++ unread).take (i + 1) = read.take (i + 1) :=
      List.take_append_of_le_length (by omega)
    rw [← htake] at hrun
    obtain ⟨u, hu, hvalue⟩ := OperatorTree.exists_endsAt_of_run hrun
    exact ⟨u, hu, hvalue, fun w hw ↦ hw.unique hu⟩

theorem exists_reports_of_run (h : Postfix.run [] ts = .ok after) :
    ∃ values, Reports ts values (reduction after []) := by
  obtain ⟨values, hlength, hlast, hlog, hsubtree⟩ := exists_evaluation_append h []
  rw [List.append_nil] at hlog hsubtree
  obtain ⟨row, rfl, hvalues⟩ := OperatorTree.run_eq_ok_iff.mp h
  have hrow := OperatorTree.length_of_rowValues hvalues
  refine ⟨values, hlog, by omega, ?_, hsubtree, by omega, by omega, ?_, ?_, ?_⟩
  · intro t v
    rw [reduction_nil]
    split <;> simp
  · intro v hv
    rw [Postfix.evaluate, h, Except.ok_bind] at hv
    rcases after with _ | ⟨x, _ | ⟨y, below⟩⟩
    · cases hv
    · obtain ⟨rfl, -⟩ := Postfix.conclude_singleton_eq_ok_iff.mp hv
      exact hlast
    · cases hv
  · rw [hlog]
    simp only [leftover_mem_zipWith_append_iff, leftover_mem_reduction_nil,
      OperatorTree.flatMap_listing_eq_iff]
    constructor
    · rintro ⟨_, hmany, -⟩
      exact ⟨hlength, row.reverse, by rwa [List.length_reverse, ← hrow], rfl⟩
    · rintro ⟨-, _, hmany, rfl⟩
      exact ⟨after.reverse, by rwa [List.length_reverse, ← hrow] at hmany, rfl⟩
  · intro roots forest hleftover hforest
    rw [hlog, leftover_mem_zipWith_append_iff, leftover_mem_reduction_nil] at hleftover
    obtain rfl := hleftover.2
    obtain rfl := OperatorTree.flatMap_listing_eq_iff.mp hforest
    rw [List.map_reverse, List.map_reverse, OperatorTree.rowValues_eq_ok_iff.mp hvalues]

theorem exists_reports_of_push_eq_error (hread : Postfix.run [] read = .ok after)
    (hpush : Postfix.push after t = .error e) (unread : List Token) :
    ∃ values, Reports (read ++ t :: unread) values
      (if t.isParenthesis then [.parenthesisInPostfix] else []) := by
  obtain ⟨values, hlength, -, hlog, hsubtree⟩ := exists_evaluation_append hread (t :: unread)
  rw [reduction_of_push_eq_error hpush] at hlog
  have hall : (read ++ t :: unread).length = read.length + unread.length + 1 := by
    simp [Nat.add_assoc]
  have hfailed : Postfix.evaluate (read ++ t :: unread) = .error e := by
    rw [Postfix.evaluate, Postfix.run_eq_error_iff.mpr ⟨read, t, unread, after, rfl, hread, hpush⟩]
    rfl
  have hleftover : ∀ roots, .leftover roots ∉ evaluation (read ++ t :: unread) := by
    intro roots
    rw [hlog, leftover_mem_zipWith_append_iff]
    split <;> simp
  refine ⟨values, hlog, by omega, ?_, hsubtree, ?_, ?_, ?_, ?_, ?_⟩
  · intro t' v
    split <;> simp
  · intro hlt
    refine ⟨after, e, ?_, ?_, hfailed⟩
    · rw [hlength, List.take_left, hread]
    · simpa [hlength] using hpush
  · intro _ u hu v
    have htake : (read ++ t :: unread).take (read.length + 1) = read ++ [t] := by
      rw [← List.singleton_append, ← List.append_assoc]
      exact List.take_left' (by simp)
    rw [OperatorTree.EndsAt, hlength, htake] at hu
    exact OperatorTree.value_ne_ok_of_endsAt hread hpush hu v
  · intro v hv
    rw [hfailed] at hv
    cases hv
  · apply iff_of_false (not_exists.mpr hleftover)
    rintro ⟨h, -⟩
    omega
  · intro roots forest h
    exact absurd h (hleftover roots)

/-- Every token that is processed leaves a record with the value of the subtree that it ends, up to
the first that fails. If none does and the tokens list no trees or several, the values of these are
reported as left. -/
theorem exists_reports (ts : List Token) : ∃ values rest, Reports ts values rest := by
  cases hrun : Postfix.run [] ts with
  | ok after =>
    obtain ⟨values, h⟩ := exists_reports_of_run hrun
    exact ⟨values, _, h⟩
  | error e =>
    obtain ⟨read, t, unread, after, rfl, hread, hpush⟩ := Postfix.run_eq_error_iff.mp hrun
    obtain ⟨values, h⟩ := exists_reports_of_push_eq_error hread hpush unread
    exact ⟨values, _, h⟩

/-- `1 2 + 3 !` leaves the values of its two trees. -/
theorem exists_reports_of_two_trees :
    ∃ roots, .leftover roots ∈
        evaluation [.number "1", .number "2", .operator .add, .number "3", .operator .factorial] ∧
      [OperatorTree.binary .add rfl (.number "1") (.number "2"),
        .unary .factorial rfl (.number "3")].map OperatorTree.value = roots.map .ok := by
  obtain ⟨values, rest, h⟩ :=
    exists_reports [.number "1", .number "2", .operator .add, .number "3", .operator .factorial]
  have hleftover : .leftover [3, 6] ∈
      evaluation [.number "1", .number "2", .operator .add, .number "3", .operator .factorial] := by
    decide +kernel
  exact ⟨[3, 6], hleftover, h.roots _ _ hleftover rfl⟩

end Log

end PocketCalculator
