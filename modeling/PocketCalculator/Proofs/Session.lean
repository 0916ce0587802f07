import Mathlib.Data.List.Infix
import PocketCalculator.Proofs.Postfix.Unopened
import PocketCalculator.Proofs.Sequencing
import PocketCalculator.Session

/-!
# Sessions as places in a token list

A cursor moves over text, but all that can be asked of it depends on the tokens it has before it. So
a session is a list of places in the tokens of its expression (`TokenSession`), each of which moves
on its own (`Session.refines_tokenSession`). A conversion that is refused stops behind the closing
parenthesis that nothing opened, and the cursor reads on from there.
-/

namespace PocketCalculator

/-! ### The tokens before a cursor -/

namespace Cursor

variable {cursor after : Cursor} {t : Token} {ts : List Token}

theorem tokens_atEnd (cursor : Cursor) : cursor.atEnd.tokens = [] := by
  rw [tokens_eq]
  exact congrArg (List.filterMap _) Lexeme.ofChars_nil

theorem tokens_of_lexeme? {lexeme : Lexeme} (h : cursor.lexeme? = some (lexeme, after)) :
    cursor.tokens = (lexeme :: after.lexemes.map Prod.snd).filterMap Lexeme.token? := by
  rw [tokens, lexemes_of_lexeme? h, List.map_cons]

theorem tokens_of_next? (h : cursor.next? = some (t, after)) :
    cursor.tokens = t :: after.tokens := by
  fun_induction next? cursor with
  | case1 => cases h
  | case2 cursor t after hlexeme =>
    cases h
    exact tokens_of_lexeme? hlexeme
  | case3 cursor c after hlexeme ih =>
    rw [← ih h]
    exact tokens_of_lexeme? hlexeme

theorem tokens_of_next?_eq_none (h : cursor.next? = none) : cursor.tokens = [] := by
  fun_induction next? cursor with
  | case1 cursor hlexeme =>
    rw [tokens, lexemes_of_lexeme?_eq_none hlexeme]
    rfl
  | case2 => cases h
  | case3 cursor c after hlexeme ih =>
    rw [← ih h]
    exact tokens_of_lexeme? hlexeme

theorem next?_eq_none (h : cursor.tokens = []) : cursor.next? = none := by
  cases hnext : cursor.next? with
  | none => rfl
  | some moved =>
    rw [tokens_of_next? hnext] at h
    cases h

theorem exists_next?_eq_some (h : cursor.tokens = t :: ts) :
    ∃ after, cursor.next? = some (t, after) ∧ after.tokens = ts := by
  cases hnext : cursor.next? with
  | none =>
    rw [tokens_of_next?_eq_none hnext] at h
    cases h
  | some moved =>
    rw [tokens_of_next? hnext] at h
    cases h
    exact ⟨moved.2, rfl, rfl⟩

end Cursor

/-! ### Conversions fed from a cursor -/

namespace Conversion

/-- The tokens that are left where a conversion stops. -/
def left (c : Conversion) : List Token → List Token
  | [] => []
  | t :: ts =>
    match c.step t with
    | .error _ => ts
    | .ok (_, next) => next.left ts

variable {c next : Conversion} {t : Token} {handedOut read : List Token}

theorem left_cons_of_error {e : CalculationError} (h : c.step t = .error e) (ts : List Token) :
    c.left (t :: ts) = ts := by
  rw [left, h]

theorem left_cons_of_ok (h : c.step t = .ok (handedOut, next)) (ts : List Token) :
    c.left (t :: ts) = next.left ts := by
  rw [left, h]

theorem left_of_openAfter?_eq_some {count : Nat} (h : openAfter? c.depth read = some count) :
    c.left read = [] := by
  induction read generalizing c with
  | nil => rfl
  | cons t read ih =>
    obtain ⟨middle, hmiddle, hrest⟩ := Option.bind_eq_some_iff.mp h
    obtain ⟨handedOut, next, hstep, rfl⟩ := step_of_openStep?_eq_some hmiddle
    rw [left_cons_of_ok hstep, ih hrest]

/-- The tokens behind a closing parenthesis that nothing opened are left. -/
theorem left_append_closeParenthesis (h : openAfter? c.depth read = some 0) (rest : List Token) :
    c.left (read ++ .closeParenthesis :: rest) = rest := by
  induction read generalizing c with
  | nil =>
    have hdepth : c.depth = 0 := Option.some.inj h
    have hstep : c.step .closeParenthesis = .error .malformed := by
      apply step_of_openStep?_eq_none
      rw [hdepth]
      rfl
    exact left_cons_of_error hstep rest
  | cons t read ih =>
    obtain ⟨middle, hmiddle, hread⟩ := Option.bind_eq_some_iff.mp h
    obtain ⟨handedOut, next, hstep, rfl⟩ := step_of_openStep?_eq_some hmiddle
    rw [List.cons_append, left_cons_of_ok hstep, ih hread]

end Conversion

/-- A conversion fed from a cursor is the conversion of the tokens before it, and stops there. -/
theorem Cursor.convert_eq_of_tokens {cursor : Cursor} {ts : List Token} (h : cursor.tokens = ts)
    (c : Conversion) :
    (cursor.convert c).1 = c.complete ts ∧ (cursor.convert c).2.tokens = c.left ts := by
  induction ts generalizing cursor c with
  | nil =>
    rw [convert_of_next?_eq_none (next?_eq_none h)]
    exact ⟨rfl, cursor.tokens_atEnd⟩
  | cons t ts ih =>
    obtain ⟨after, hnext, hafter⟩ := exists_next?_eq_some h
    cases hstep : c.step t with
    | error e =>
      rw [convert_of_step_eq_error hnext hstep, Conversion.complete_cons_of_error hstep,
        Conversion.left_cons_of_error hstep]
      exact ⟨rfl, hafter⟩
    | ok stepped =>
      obtain ⟨houtcome, hleft⟩ := ih hafter stepped.2
      rw [convert_of_step_eq_ok hnext hstep, Conversion.complete_cons_of_ok hstep,
        Conversion.left_cons_of_ok hstep, houtcome, hleft]
      exact ⟨rfl, rfl⟩

theorem Cursor.convert_start (cursor : Cursor) :
    (cursor.convert .start).1 = Postfix.ofInfix cursor.tokens ∧
      (cursor.convert .start).2.tokens = Conversion.left .start cursor.tokens :=
  Cursor.convert_eq_of_tokens rfl .start

/-! ### Where a conversion is refused -/

instance : DecidablePred Unopened := fun _ ↦
  decidable_of_iff _ unopened_iff.symm

/-- The number of tokens up to the first closing parenthesis that nothing opened, with it. -/
def countToUnopened (ts : List Token) : Nat :=
  ts.inits.findIdx fun read ↦ Unopened read

variable {ts read rest : List Token}

theorem countToUnopened_append (h : openAfter? 0 read = some 0) (rest : List Token) :
    countToUnopened (read ++ .closeParenthesis :: rest) = read.length + 1 := by
  have hlength : read.length + 1 < (read ++ .closeParenthesis :: rest).inits.length := by
    simp
  rw [countToUnopened, List.findIdx_eq hlength]
  simp only [List.getElem_inits, decide_eq_true_eq, decide_eq_false_iff_not, unopened_iff]
  constructor
  · rw [List.take_length_add_append, openAfter?_append, h]
    rfl
  · intro count hcount hnone
    -- No beginning of what was read closes more than it opens.
    rw [List.take_append_of_le_length (Nat.le_of_lt_succ hcount)] at hnone
    rw [← List.take_append_drop count read, openAfter?_append, hnone] at h
    cases h

/-! ### Sessions on tokens -/

/-- A session on a token list: for each cursor, the number of tokens behind it. -/
structure TokenSession where
  tokens : List Token
  places : List Nat
  deriving DecidableEq, Repr

namespace TokenSession

def start (tokens : List Token) : TokenSession :=
  ⟨tokens, [0]⟩

def moved (session : TokenSession) (number place : Nat) : TokenSession :=
  { session with places := session.places.set number place }

def answer? (session : TokenSession) : Request → Option (Answer × TokenSession)
  | .next i => do
    let place ← session.places[i]?
    return (.token session.tokens[place]?, session.moved i (min (place + 1) session.tokens.length))
  | .fork i => do
    let place ← session.places[i]?
    return (.cursor session.places.length, { session with places := session.places ++ [place] })
  | .rest i => do
    let place ← session.places[i]?
    return (.tokens (session.tokens.drop place), session.moved i session.tokens.length)
  | .convert i => do
    let place ← session.places[i]?
    let ahead := session.tokens.drop place
    match Postfix.ofInfix ahead with
    | .ok converted => return (.conversion (.ok converted), session.moved i session.tokens.length)
    | .error e =>
      return (.conversion (.error e), session.moved i (place + countToUnopened ahead))

end TokenSession

/-! ### Requests in sequence -/

section Sequence

variable {σ τ : Type}

/-- The answers to all requests, and the session after them. -/
def answersAndSession? (answer? : σ → Request → Option (Answer × σ)) (session : σ) :
    List Request → Option (List Answer × σ)
  | [] => some ([], session)
  | request :: requests => do
    let (answer, next) ← answer? session request
    let (answers, last) ← answersAndSession? answer? next requests
    return (answer :: answers, last)

/-- Sessions that are related, and give the same answer to each request, stay related. -/
theorem answersAndSession?_rel {R : σ → τ → Prop} {f : σ → Request → Option (Answer × σ)}
    {g : τ → Request → Option (Answer × τ)}
    (hstep : ∀ s t, R s t → ∀ request,
      Option.Rel (fun x y ↦ x.1 = y.1 ∧ R x.2 y.2) (f s request) (g t request))
    {s : σ} {t : τ} (h : R s t) (requests : List Request) :
    Option.Rel (fun x y ↦ x.1 = y.1 ∧ R x.2 y.2) (answersAndSession? f s requests)
      (answersAndSession? g t requests) := by
  induction requests generalizing s t with
  | nil => exact .some ⟨rfl, h⟩
  | cons request requests ih =>
    rw [answersAndSession?, answersAndSession?]
    apply Option.Rel.bind (hstep s t h request)
    rintro ⟨answer, s'⟩ ⟨_, t'⟩ ⟨rfl, hnext⟩
    apply Option.Rel.bind (ih hnext)
    rintro ⟨answers, s'⟩ ⟨_, t'⟩ ⟨rfl, hlast⟩
    exact .some ⟨rfl, hlast⟩

end Sequence

/-! ### The session of an expression -/

def Request.number : Request → Nat
  | .next i | .fork i | .rest i | .convert i => i

namespace Session

variable {session later : Session} {s : TokenSession}

theorem answers?_eq_map (session : Session) (requests : List Request) :
    session.answers? requests = (answersAndSession? answer? session requests).map Prod.fst := by
  induction requests generalizing session with
  | nil => rfl
  | cons request requests ih =>
    rw [answers?, answersAndSession?]
    cases session.answer? request with
    | none => rfl
    | some answered =>
      simp only [Option.bind_eq_bind, Option.bind_some, ih]
      cases answersAndSession? answer? answered.2 requests <;> rfl

/-- Each cursor stands at its place: it has the tokens from there on before it. -/
def Follows (session : Session) (s : TokenSession) : Prop :=
  session.cursors.map Cursor.tokens = s.places.map (s.tokens.drop ·) ∧
    ∀ place ∈ s.places, place ≤ s.tokens.length

theorem Follows.moved (h : session.Follows s) {cursor : Cursor} {place : Nat} (i : Nat)
    (htokens : cursor.tokens = s.tokens.drop place) (hplace : place ≤ s.tokens.length) :
    (session.moved i cursor).Follows (s.moved i place) := by
  constructor
  · rw [Session.moved, TokenSession.moved, List.map_set, List.map_set, h.1, htokens]
  · intro p hp
    rcases List.mem_or_eq_of_mem_set hp with hmem | rfl
    · exact h.2 p hmem
    · exact hplace

theorem Follows.moved_atEnd (h : session.Follows s) (i : Nat) (cursor : Cursor) :
    (session.moved i cursor.atEnd).Follows (s.moved i s.tokens.length) := by
  apply h.moved i _ le_rfl
  rw [Cursor.tokens_atEnd, List.drop_length]

/-- A number names a cursor exactly if it names a place, and the cursor is at that place. -/
theorem Follows.getElem? (h : session.Follows s) (i : Nat) :
    Option.Rel (fun cursor place ↦ cursor.tokens = s.tokens.drop place ∧ place ≤ s.tokens.length)
      session.cursors[i]? s.places[i]? := by
  have htokens := congrArg (·[i]?) h.1
  simp only [List.getElem?_map] at htokens
  cases hcursor : session.cursors[i]? with
  | none =>
    rw [hcursor] at htokens
    rw [Option.map_eq_none_iff.mp htokens.symm]
    exact .none
  | some cursor =>
    rw [hcursor] at htokens
    obtain ⟨place, hplace, hdrop⟩ := Option.map_eq_some_iff.mp htokens.symm
    rw [hplace]
    exact .some ⟨hdrop.symm, h.2 place (List.mem_of_getElem? hplace)⟩

theorem Follows.length_eq (h : session.Follows s) :
    session.cursors.length = s.places.length := by
  simpa using congrArg List.length h.1

theorem Follows.fork (h : session.Follows s) {cursor : Cursor} {place : Nat}
    (htokens : cursor.tokens = s.tokens.drop place) (hplace : place ≤ s.tokens.length) :
    Follows ⟨session.cursors ++ [cursor]⟩ { s with places := s.places ++ [place] } := by
  constructor
  · simp only [List.map_append, h.1, List.map_singleton, htokens]
  · simp only [List.forall_mem_append, List.forall_mem_singleton]
    exact ⟨h.2, hplace⟩

theorem Follows.next (h : session.Follows s) (i : Nat) :
    Option.Rel (fun x y ↦ x.1 = y.1 ∧ x.2.Follows y.2) (session.answer? (.next i))
      (s.answer? (.next i)) := by
  rw [Session.answer?, TokenSession.answer?]
  apply Option.Rel.bind (h.getElem? i)
  rintro cursor place ⟨htokens, hle⟩
  cases hahead : s.tokens.drop place with
  | nil =>
    have hplace : place = s.tokens.length := hle.antisymm (List.drop_eq_nil_iff.mp hahead)
    rw [hahead] at htokens
    rw [Cursor.next?_eq_none htokens, hplace, List.getElem?_length, Nat.min_eq_right (by omega)]
    exact .some ⟨rfl, h.moved_atEnd i cursor⟩
  | cons t ts =>
    rw [hahead] at htokens
    obtain ⟨after, hnext, hafter⟩ := Cursor.exists_next?_eq_some htokens
    have hfirst : s.tokens[place]? = some t := by
      rw [← List.head?_drop, hahead, List.head?_cons]
    have hlater : after.tokens = s.tokens.drop (place + 1) := by
      rw [hafter, ← List.tail_drop, hahead, List.tail_cons]
    have hlt : place < s.tokens.length := (List.getElem?_eq_some_iff.mp hfirst).1
    rw [hnext, hfirst, Nat.min_eq_left hlt]
    exact .some ⟨rfl, h.moved i hlater hlt⟩

theorem Follows.convert (h : session.Follows s) (i : Nat) :
    Option.Rel (fun x y ↦ x.1 = y.1 ∧ x.2.Follows y.2) (session.answer? (.convert i))
      (s.answer? (.convert i)) := by
  rw [Session.answer?, TokenSession.answer?]
  apply Option.Rel.bind (h.getElem? i)
  rintro cursor place ⟨htokens, hle⟩
  obtain ⟨houtcome, hleft⟩ := cursor.convert_start
  rw [htokens] at houtcome hleft
  cases hopen : openAfter? 0 (s.tokens.drop place) with
  | none =>
    obtain ⟨read, rest, hahead, hread⟩ := exists_append_of_openAfter?_eq_none hopen
    have hplace : place + read.length + 1 ≤ s.tokens.length := by
      have hlength := congrArg List.length hahead
      rw [List.length_drop, List.length_append, List.length_cons] at hlength
      omega
    have hrest : (cursor.convert .start).2.tokens =
        s.tokens.drop (place + (read.length + 1)) := by
      rw [hleft, ← List.drop_drop, hahead,
        Conversion.left_append_closeParenthesis (c := .start) hread, List.drop_length_add_append]
      rfl
    rw [Postfix.ofInfix_of_openAfter?_eq_none hopen] at houtcome
    simp only [Postfix.ofInfix_of_openAfter?_eq_none hopen]
    rw [houtcome, hahead, countToUnopened_append hread]
    exact .some ⟨rfl, h.moved i hrest hplace⟩
  | some count =>
    obtain ⟨converted, hconverted⟩ := Postfix.exists_ofInfix_eq_ok hopen
    rw [Conversion.left_of_openAfter?_eq_some (c := .start) hopen] at hleft
    rw [hconverted] at houtcome
    simp only [hconverted]
    rw [houtcome]
    refine .some ⟨rfl, h.moved i ?_ le_rfl⟩
    rw [hleft, List.drop_length]

/-- A session answers each request as its places do, and goes on following them. -/
theorem Follows.answer? (h : session.Follows s) (request : Request) :
    Option.Rel (fun x y ↦ x.1 = y.1 ∧ x.2.Follows y.2) (session.answer? request)
      (s.answer? request) := by
  cases request with
  | next i => exact h.next i
  | convert i => exact h.convert i
  | fork i =>
    apply Option.Rel.bind (h.getElem? i)
    rintro cursor place ⟨htokens, hle⟩
    exact .some ⟨congrArg Answer.cursor h.length_eq, h.fork htokens hle⟩
  | rest i =>
    apply Option.Rel.bind (h.getElem? i)
    rintro cursor place ⟨htokens, -⟩
    exact .some ⟨congrArg Answer.tokens htokens, h.moved_atEnd i cursor⟩

theorem follows_start (expression : String) :
    (start expression).Follows (.start (tokenize expression)) := by
  refine ⟨rfl, ?_⟩
  rintro place hplace
  rw [List.mem_singleton.mp hplace]
  exact Nat.zero_le _

/-- A request moves its own cursor, or adds one. -/
theorem exists_of_answer? {request : Request} {answer : Answer}
    (h : session.answer? request = some (answer, later)) :
    ∃ cursor, later = session.moved request.number cursor ∨
      later.cursors = session.cursors ++ [cursor] := by
  cases request with
  | next i =>
    obtain ⟨cursor, -, hcursor⟩ := Option.bind_eq_some_iff.mp h
    cases hnext : cursor.next? with
    | none =>
      simp only [hnext] at hcursor
      cases hcursor
      exact ⟨_, .inl rfl⟩
    | some moved =>
      simp only [hnext] at hcursor
      cases hcursor
      exact ⟨_, .inl rfl⟩
  | fork i =>
    obtain ⟨cursor, -, hcursor⟩ := Option.bind_eq_some_iff.mp h
    cases hcursor
    exact ⟨cursor, .inr rfl⟩
  | rest i | convert i =>
    obtain ⟨cursor, -, hcursor⟩ := Option.bind_eq_some_iff.mp h
    cases hcursor
    exact ⟨_, .inl rfl⟩

theorem getElem?_cursors_of_answer? {request : Request} {answer : Answer} {j : Nat}
    (h : session.answer? request = some (answer, later)) (hj : j < session.cursors.length)
    (hne : j ≠ request.number) : later.cursors[j]? = session.cursors[j]? := by
  obtain ⟨cursor, rfl | happend⟩ := exists_of_answer? h
  · exact List.getElem?_set_ne hne.symm
  · rw [happend, List.getElem?_append_left hj]

/-- All answers of a session are those of places in the tokens of its expression, where its cursors
stand after each request, and no request moves a cursor that it does not name. -/
theorem refines_tokenSession (expression : String) (requests : List Request) :
    (start expression).answers? requests =
        (answersAndSession? TokenSession.answer? (.start (tokenize expression)) requests).map
          Prod.fst ∧
      Option.Rel (fun x y ↦ x.1 = y.1 ∧ x.2.Follows y.2)
        (answersAndSession? answer? (start expression) requests)
        (answersAndSession? TokenSession.answer? (.start (tokenize expression)) requests) ∧
      ∀ (session later : Session) (request : Request) (answer : Answer),
        session.answer? request = some (answer, later) →
          ∀ j < session.cursors.length, j ≠ request.number →
            later.cursors[j]? = session.cursors[j]? := by
  have hrel := answersAndSession?_rel (f := answer?) (g := TokenSession.answer?)
    (fun _ _ h request ↦ h.answer? request) (follows_start expression) requests
  refine ⟨?_, hrel, ?_⟩
  · rw [answers?_eq_map]
    generalize answersAndSession? answer? (start expression) requests = x at hrel ⊢
    generalize answersAndSession? TokenSession.answer? _ requests = y at hrel ⊢
    cases hrel with
    | none => rfl
    | some hlast => exact congrArg some hlast.1
  · intro session later request answer h j hj hne
    exact getElem?_cursors_of_answer? h hj hne

/-- The conversion is refused behind the parenthesis. -/
theorem getElem?_cursors_of_refused_conversion :
    ∃ answer later,
      Session.answer? ⟨[.ofExpression "1)2", .ofExpression "1)2"]⟩ (.convert 0) =
          some (answer, later) ∧
        1 ≠ Request.number (.convert 0) ∧ later.cursors[1]? = some (.ofExpression "1)2") := by
  have hother : 1 ≠ Request.number (.convert 0) := by decide
  obtain ⟨answer, later, hanswer⟩ : ∃ answer later,
      Session.answer? ⟨[.ofExpression "1)2", .ofExpression "1)2"]⟩ (.convert 0) =
        some (answer, later) := ⟨_, _, rfl⟩
  refine ⟨answer, later, hanswer, hother, ?_⟩
  exact (refines_tokenSession "1)2" []).2.2 _ _ _ _ hanswer 1 (by decide) hother

end Session

end PocketCalculator
