import PocketCalculator.Proofs.Postfix.Parentheses
import PocketCalculator.Proofs.Postfix.Precedence

/-!
# The order of what waits

Whatever is read, an operator waits directly on top of another only if the one below does not apply
before it. A step takes some of what waits off the top and puts at most one thing in its place
(`Conversion.exists_kept_of_step`); an operator comes to lie on what it did not release. So between
two groups the operators bind tighter from below to above, and those that group to the left do so
strictly (`Conversion.pending_of_run`).
-/

namespace PocketCalculator

variable {read ts : List Token} {t : Token}

namespace Operator

variable {upper lower lowest : Operator}

/-- Whether an operator may wait directly on top of another: it binds tighter, or as tight and
groups to the right. -/
def MayLieOn (upper lower : Operator) : Prop :=
  lower.precedence < upper.precedence ∨
    lower.precedence = upper.precedence ∧ upper.associativity = .right

theorem mayLieOn_iff : upper.MayLieOn lower ↔ ¬ lower.AppliesBefore upper := by
  constructor
  · rintro (hlt | ⟨heq, hright⟩)
    · exact not_appliesBefore_of_lt hlt
    · exact not_appliesBefore_of_le hright heq.le
  · intro h
    rw [AppliesBefore, not_or, not_and] at h
    rcases Nat.lt_or_eq_of_le (not_lt.mp h.1) with hlt | heq
    · exact .inl hlt
    · refine .inr ⟨heq, ?_⟩
      cases hassociativity : upper.associativity with
      | left => exact absurd hassociativity (h.2 heq)
      | right => rfl

theorem MayLieOn.trans (h : upper.MayLieOn lower) (hlower : lower.MayLieOn lowest) :
    upper.MayLieOn lowest := by
  rcases h with hlt | ⟨heq, hright⟩
  · rcases hlower with hlt' | ⟨heq', -⟩
    · exact .inl (hlt'.trans hlt)
    · exact .inl (heq'.trans_lt hlt)
  · rcases hlower with hlt' | ⟨heq', -⟩
    · exact .inl (hlt'.trans_eq heq)
    · exact .inr ⟨heq'.trans heq, hright⟩

/-- The operators of sums and of products group to the left. -/
theorem associativity_eq_left {op : Operator} (h : op.precedence ≤ 2) :
    op.associativity = .left := by
  cases op <;> first | rfl | exact absurd h (by decide)

theorem MayLieOn.precedence_lt (h : upper.MayLieOn lower) (hrank : upper.precedence ≤ 2) :
    lower.precedence < upper.precedence := by
  rcases h with hlt | ⟨-, hright⟩
  · exact hlt
  · rw [associativity_eq_left hrank] at hright
    cases hright

end Operator

namespace Pending

variable {p q : Pending} {pending kept : List Pending} {released : List Token}

/-- The token that waits. -/
def origin : Pending → Token
  | operator op => .operator op
  | group => .openParenthesis

/-- Whether one may wait directly on top of the other. Groups lie on anything, and anything may lie
on a group. -/
def LiesOn : Pending → Pending → Prop
  | operator upper, operator lower => upper.MayLieOn lower
  | _, _ => True

theorem release_suffix (next : Operator) (pending : List Pending) :
    (release next pending).2 <:+ pending := by
  fun_induction release next pending with
  | case1 op rest _ released kept heq ih =>
    rw [heq] at ih
    exact ih.trans (List.suffix_cons _ _)
  | case2 => exact List.suffix_rfl
  | case3 => exact List.suffix_rfl

/-- An operator releases until it may lie on what is left. -/
theorem liesOn_head_release (next : Operator) (pending : List Pending) :
    ∀ p ∈ (release next pending).2.head?, (operator next).LiesOn p := by
  fun_induction release next pending with
  | case1 op rest _ released kept heq ih => rwa [heq] at ih
  | case2 op rest happlies =>
    rintro p ⟨⟩
    exact Operator.mayLieOn_iff.mpr happlies
  | case3 rest hrest =>
    intro p hp
    cases rest with
    | nil => cases hp
    | cons first rest =>
      cases first with
      | group =>
        cases hp
        trivial
      | operator op => exact absurd rfl (hrest op rest)

theorem suffix_of_close? (h : close? pending = some (released, kept)) : kept <:+ pending := by
  induction pending generalizing released with
  | nil => cases h
  | cons p rest ih =>
    cases p with
    | group =>
      cases h
      exact List.suffix_cons _ _
    | operator op =>
      obtain ⟨⟨r, k⟩, hrest, heq⟩ := Option.map_eq_some_iff.mp h
      cases heq
      exact (ih hrest).trans (List.suffix_cons _ _)

end Pending

namespace Conversion

variable {c next last : Conversion} {handedOut : List Token}

/-- A step takes some of what waits off the top. What it puts in its place is the token read, and
lies on the rest. -/
theorem exists_kept_of_step (h : c.step t = .ok (handedOut, next)) :
    ∃ (brought : Option Pending) (kept : List Pending), next.pending = brought.toList ++ kept ∧
      kept <:+ c.pending ∧ ∀ p ∈ brought, p.origin = t ∧ ∀ q ∈ kept.head?, p.LiesOn q := by
  cases t with
  | number text =>
    cases h
    exact ⟨none, c.pending, rfl, List.suffix_rfl, nofun⟩
  | openParenthesis =>
    cases h
    refine ⟨some .group, c.pending, rfl, List.suffix_rfl, ?_⟩
    rintro p ⟨⟩
    exact ⟨rfl, fun _ _ ↦ trivial⟩
  | closeParenthesis =>
    simp only [step] at h
    split at h
    · next released kept hclose =>
      cases h
      exact ⟨none, _, rfl, Pending.suffix_of_close? hclose, nofun⟩
    · cases h
  | operator op =>
    cases h
    refine ⟨some (.operator op), _, rfl, Pending.release_suffix op c.pending, ?_⟩
    rintro p ⟨⟩
    exact ⟨rfl, Pending.liesOn_head_release op c.pending⟩

theorem openStep?_of_step (h : c.step t = .ok (handedOut, next)) :
    openStep? c.depth t = some next.depth := by
  cases hopen : openStep? c.depth t with
  | none =>
    rw [step_of_openStep?_eq_none hopen] at h
    cases h
  | some count =>
    obtain ⟨_, _, hstep, rfl⟩ := step_of_openStep?_eq_some hopen
    rw [hstep] at h
    cases h
    rfl

/-- What waits after some tokens: each operator lies on what is below it, all that waits was read
in this order, and there are as many groups as parentheses are open. -/
structure Disciplined (c : Conversion) (read : List Token) : Prop where
  chain : c.pending.IsChain Pending.LiesOn
  origins : ((c.pending.map Pending.origin).reverse).Sublist read
  count_open : read.count .openParenthesis = read.count .closeParenthesis + c.depth

theorem disciplined_start : start.Disciplined [] :=
  ⟨.nil, .refl [], rfl⟩

theorem Disciplined.step (hc : c.Disciplined read) (h : c.step t = .ok (handedOut, next)) :
    next.Disciplined (read ++ [t]) := by
  obtain ⟨brought, kept, hpending, hkept, hbrought⟩ := exists_kept_of_step h
  have horigins : ((kept.map Pending.origin).reverse).Sublist read :=
    (hkept.sublist.map Pending.origin).reverse.trans hc.origins
  have hchain : kept.IsChain Pending.LiesOn := hc.chain.suffix hkept
  constructor
  · rw [hpending]
    cases brought with
    | none => exact hchain
    | some p => exact List.isChain_cons.mpr ⟨(hbrought p rfl).2, hchain⟩
  · rw [hpending]
    cases brought with
    | none => exact horigins.trans (List.sublist_append_left read [t])
    | some p =>
      obtain ⟨rfl, -⟩ := hbrought p rfl
      rw [Option.toList_some, List.singleton_append, List.map_cons, List.reverse_cons]
      exact horigins.append (.refl _)
  · have hcount := count_of_openStep? (openStep?_of_step h)
    have hread := hc.count_open
    rw [List.count_append, List.count_append]
    omega

theorem Disciplined.run (hc : c.Disciplined read) (h : c.run ts = .ok (handedOut, last)) :
    last.Disciplined (read ++ ts) := by
  induction ts generalizing c read handedOut with
  | nil =>
    cases h
    rwa [List.append_nil]
  | cons t ts ih =>
    obtain ⟨first, next, later, hstep, hrun, -⟩ := exists_of_run_cons h
    rw [List.append_cons]
    exact ih (hc.step hstep) hrun

end Conversion

/-! ### Between two groups -/

namespace Pending

variable {pending above below : List Pending} {waiting : List Operator} {a b : Operator} {rank : ℕ}

theorem mayLieOn_of_isChain (h : pending.IsChain LiesOn)
    (hpending : pending = above ++ .operator b :: .operator a :: below) : b.MayLieOn a := by
  rw [hpending] at h
  exact (List.isChain_cons_cons.mp h.right_of_append).1

/-- With no group between, an operator may lie on all of those that wait below it. -/
theorem pairwise_of_isChain (h : (waiting.map operator).IsChain LiesOn) :
    waiting.Pairwise Operator.MayLieOn := by
  have htrans : IsTrans Operator Operator.MayLieOn := ⟨fun _ _ _ ↦ Operator.MayLieOn.trans⟩
  rw [List.isChain_map] at h
  exact List.isChain_iff_pairwise.mp h

/-- Operators of one rank that group to the left do not wait on each other. -/
theorem countP_precedence_le_one (h : waiting.Pairwise Operator.MayLieOn) (hrank : rank ≤ 2) :
    waiting.countP (fun op ↦ op.precedence = rank) ≤ 1 := by
  induction waiting with
  | nil => exact Nat.zero_le 1
  | cons upper lowers ih =>
    obtain ⟨hupper, hlowers⟩ := List.pairwise_cons.mp h
    by_cases hsame : upper.precedence = rank
    · have hnone : lowers.countP (fun op ↦ op.precedence = rank) = 0 := by
        rw [List.countP_eq_zero]
        intro lower hlower
        have hlt := (hupper lower hlower).precedence_lt (by omega)
        rw [decide_eq_true_eq]
        omega
      rw [List.countP_cons_of_pos (by simpa using hsame), hnone]
    · rw [List.countP_cons_of_neg (by simpa using hsame)]
      exact ih hlowers

end Pending

/-- What waits after any tokens are operators and open parentheses that were read in this order.
There is one group for each parenthesis still open; an operator binds tighter than the one it lies
on, or as tight and groups to the right; and of the ranks of sums and of products there is at most
one operator between two groups. -/
theorem Conversion.pending_of_run {c : Conversion} {handedOut : List Token}
    (h : start.run read = .ok (handedOut, c)) :
    (∀ t ∈ c.pending.map Pending.origin, t.isOperator ∨ t = .openParenthesis) ∧
    ((c.pending.map Pending.origin).reverse).Sublist read ∧
    read.count .openParenthesis = read.count .closeParenthesis + c.pending.count .group ∧
    (∀ above b a below, c.pending = above ++ .operator b :: .operator a :: below →
      a.precedence < b.precedence ∨ a.precedence = b.precedence ∧ b.associativity = .right) ∧
    ∀ above (waiting : List Operator) below, c.pending = above ++ waiting.map .operator ++ below →
      ∀ rank ∈ [1, 2], waiting.countP (fun op ↦ op.precedence = rank) ≤ 1 := by
  have hdisciplined := disciplined_start.run h
  rw [List.nil_append] at hdisciplined
  refine ⟨?_, hdisciplined.origins, hdisciplined.count_open, ?_, ?_⟩
  · intro t ht
    obtain ⟨p, -, rfl⟩ := List.mem_map.mp ht
    cases p with
    | operator op => exact .inl rfl
    | group => exact .inr rfl
  · intro above b a below hpending
    exact Pending.mayLieOn_of_isChain hdisciplined.chain hpending
  · intro above waiting below hpending rank hrank
    have hchain := hdisciplined.chain
    rw [hpending] at hchain
    have hpairwise := Pending.pairwise_of_isChain hchain.left_of_append.right_of_append
    apply Pending.countP_precedence_le_one hpairwise
    simp only [List.mem_cons, List.not_mem_nil, or_false] at hrank
    omega

/-- In `2 ^ 3 ^ (1 + 4 * √5` two powers wait on each other around a group, and in the group a root
on a product on a sum. -/
theorem Conversion.pending_of_run_power_of_group :
    start.run [.number "2", .operator .power, .number "3", .operator .power, .openParenthesis,
        .number "1", .operator .add, .number "4", .operator .multiply, .operator .root,
        .number "5"] =
      .ok ([.number "2", .number "3", .number "1", .number "4", .number "2", .number "5"],
        ⟨[.operator .root, .operator .multiply, .operator .add, .group, .operator .power,
          .operator .power], some (.number "5")⟩) ∧
    (Operator.multiply.precedence < Operator.root.precedence ∨
      Operator.multiply.precedence = Operator.root.precedence ∧
        Operator.root.associativity = .right) ∧
    (Operator.power.precedence < Operator.power.precedence ∨
      Operator.power.precedence = Operator.power.precedence ∧
        Operator.power.associativity = .right) ∧
    [Operator.root, .multiply, .add].countP (fun op ↦ op.precedence = 2) ≤ 1 := by
  have hrun : start.run [.number "2", .operator .power, .number "3", .operator .power,
      .openParenthesis, .number "1", .operator .add, .number "4", .operator .multiply,
      .operator .root, .number "5"] =
        .ok ([.number "2", .number "3", .number "1", .number "4", .number "2", .number "5"],
          ⟨[.operator .root, .operator .multiply, .operator .add, .group, .operator .power,
            .operator .power], some (.number "5")⟩) := by
    rfl
  obtain ⟨-, -, -, hadjacent, hcount⟩ := pending_of_run hrun
  refine ⟨hrun, hadjacent [] _ _ _ rfl, ?_, ?_⟩
  · exact hadjacent [.operator .root, .operator .multiply, .operator .add, .group] _ _ [] rfl
  · exact hcount [] [.root, .multiply, .add] [.group, .operator .power, .operator .power] rfl 2
      (by decide)

end PocketCalculator
