import BanglaScript.Proofs.Parser.Unbounded

/-!
# Loops of the parser

The parser has four loops: over statements, over phrases behind commas, over operators,
and, inside of the last one, over the operators that bind tighter.  Each round of a loop
fails or takes a token, so a loop has no more rounds than there are tokens.  The inner loop
has one round at most: this takes the operator that has been seen, and leaves none behind
that binds as tight.
-/

namespace BanglaScript.Parser

variable {α σ : Type}

/-! ## Places in a token list -/

/-- The input in front of the token with a number. -/
def Input.at (tokens : List Token) (current : Nat) : Input :=
  ⟨tokens.drop current, (Input.ofTokens tokens).endPosition⟩

/-- From the token with a number, a success goes at least one token further and not beyond
the last one, and a failure does not go back. -/
def ProgressesAt (tokens : List Token) (current : Nat) (parser : Parser α) : Prop :=
  match parser (.at tokens current) with
  | .ok _ rest => ∃ later, current < later ∧ later ≤ tokens.length ∧ rest = .at tokens later
  | .error _ rest => ∃ later, current ≤ later ∧ later ≤ tokens.length ∧ rest = .at tokens later

section Places

variable {tokens : List Token} {current : Nat} {rest : Input} {parser : Parser α}

theorem exists_at_of_isBehind (inside : current ≤ tokens.length)
    (behind : rest.IsBehind (.at tokens current)) :
    current ≤ tokens.length - rest.rest.length ∧
      rest = .at tokens (tokens.length - rest.rest.length) := by
  have shorter := behind.length_le
  have suffix := List.suffix_iff_eq_drop.mp (behind.suffix.trans (List.drop_suffix current tokens))
  obtain ⟨_, endPosition⟩ := rest
  cases behind.endPosition
  simp only [Input.at, List.length_drop] at shorter suffix ⊢
  exact ⟨by omega, congrArg (Input.mk · _) suffix⟩

theorem progressesAt_of_length (inside : current ≤ tokens.length)
    (behind : (leftBy parser (.at tokens current)).IsBehind (.at tokens current))
    (takes : ∀ result rest, parser (.at tokens current) = .ok result rest →
      rest.rest.length < (Input.at tokens current).rest.length) :
    ProgressesAt tokens current parser := by
  unfold ProgressesAt
  cases ran : parser (.at tokens current) with
  | ok result rest =>
    rw [leftBy_of_ok ran] at behind
    have shorter := takes result rest ran
    rw [Input.at, List.length_drop] at shorter
    exact ⟨_, by omega, Nat.sub_le _ _, (exists_at_of_isBehind inside behind).2⟩
  | error =>
    rw [leftBy_of_error ran] at behind
    obtain ⟨later, place⟩ := exists_at_of_isBehind inside behind
    exact ⟨_, later, Nat.sub_le _ _, place⟩

theorem Takes.progressesAt (takes : Takes 1 parser) (inside : current ≤ tokens.length) :
    ProgressesAt tokens current parser :=
  progressesAt_of_length inside (takes.behind _) fun _ _ ran => takes.length ran

end Places

/-! ## Rounds -/

/-- A loop: as long as the next token allows it, one more round goes on from what has been
read. -/
structure Loop (σ : Type) where
  goes : Input → Bool
  round : σ → Parser σ

namespace Loop

/-- The loop has so many successful rounds, and ends like this. -/
inductive Runs (loop : Loop σ) : σ → Input → Nat → Outcome σ → Prop
  | stop {state : σ} {input : Input} (stops : loop.goes input = false) :
      Runs loop state input 0 (.ok state input)
  | fail {state : σ} {input rest : Input} {error : SyntaxError} (goes : loop.goes input = true)
      (failed : loop.round state input = .error error rest) :
      Runs loop state input 0 (.error error rest)
  | next {state later : σ} {input rest : Input} {count : Nat} {outcome : Outcome σ}
      (goes : loop.goes input = true) (went : loop.round state input = .ok later rest)
      (further : Runs loop later rest count outcome) :
      Runs loop state input (count + 1) outcome

/-- Every round fails or takes a token, and the given parser is the loop, which has no more
rounds than there are tokens. -/
structure Ends (loop : Loop σ) (parser : σ → Parser σ) : Prop where
  progresses : ∀ tokens current state, current ≤ tokens.length →
    loop.goes (.at tokens current) = true → ProgressesAt tokens current (loop.round state)
  runs : ∀ state input, ∃ count ≤ input.rest.length,
    loop.Runs state input count (parser state input)

variable {loop : Loop σ} {parser : σ → Parser σ}

theorem ends_of_eq
    (takes : ∀ state input, loop.goes input = true →
      (leftBy (loop.round state) input).IsBehind input ∧
        ∀ result rest, loop.round state input = .ok result rest →
          rest.rest.length < input.rest.length)
    (eq : ∀ state input, parser state input =
      if loop.goes input then (loop.round state >>= parser) input else .ok state input) :
    loop.Ends parser where
  progresses tokens current state inside goes :=
    progressesAt_of_length inside (takes state _ goes).1 (takes state _ goes).2
  runs state input := by
    induction length : input.rest.length using Nat.strongRecOn generalizing state input with
    | ind length ih =>
      subst length
      rw [eq]
      split
      case isFalse stops => exact ⟨0, Nat.zero_le _, .stop (Bool.eq_false_iff.mpr stops)⟩
      case isTrue goes =>
        cases ran : loop.round state input with
        | error =>
          rw [bind_of_error ran]
          exact ⟨0, Nat.zero_le _, .fail goes ran⟩
        | ok later rest =>
          have shorter := (takes state input goes).2 later rest ran
          obtain ⟨count, few, runs⟩ := ih _ shorter later rest rfl
          rw [bind_of_ok ran]
          exact ⟨count + 1, Nat.lt_of_le_of_lt few shorter, .next goes ran runs⟩

theorem ends_of_takes (takes : ∀ state, Takes 1 (loop.round state))
    (eq : ∀ state input, parser state input =
      if loop.goes input then (loop.round state >>= parser) input else .ok state input) :
    loop.Ends parser :=
  ends_of_eq (fun state input _ => ⟨(takes state).behind input,
    fun _ _ ran => (takes state).length ran⟩) eq

end Loop

/-! ## Lists of phrases -/

/-- A loop that reads phrases one after the other. -/
def listLoop (goes : Input → Bool) (phrase : Parser α) : Loop (List α) where
  goes := goes
  round done := do
    let next ← phrase
    pure (done ++ [next])

/-- The phrases that have been read, and further ones. -/
def collect (phrases : Parser (List α)) (done : List α) : Parser (List α) := do
  let others ← phrases
  pure (done ++ others)

theorem ends_listLoop {goes : Input → Bool} {phrase : Parser α} {phrases : Parser (List α)}
    (consumes : Takes 1 phrase)
    (eq : ∀ input, phrases input =
      (if goes input then do
        let first ← phrase
        let others ← phrases
        pure (first :: others)
      else pure [] : Parser (List α)) input) :
    (listLoop goes phrase).Ends (collect phrases) := by
  refine Loop.ends_of_takes (fun done => consumes.bind fun _ => .pure _) fun done input => ?_
  rw [collect, bind_congr_run (eq input) fun _ _ _ => rfl]
  cases here : goes input with
  | false => simp [listLoop, here]; rfl
  | true => simp [listLoop, here, collect]

/-- The loop over statements. -/
def untilLoop (stop : TokenKind → Bool) (phrase : Parser α) : Loop (List α) :=
  listLoop (fun input => ¬ stop input.kind) phrase

/-- The loop over phrases behind commas. -/
def commaLoop (phrase : Parser α) : Loop (List α) :=
  listLoop (fun input => input.kind = .comma) do
    accept
    phrase

section Lists

variable {phrase : Parser α} (consumes : Takes 1 phrase)

include consumes

theorem ends_untilLoop (stop : TokenKind → Bool) :
    (untilLoop stop phrase).Ends (collect (phrasesUntil stop phrase)) := by
  refine ends_listLoop consumes fun input => ?_
  refine (congrFun (phrasesUntil_eq consumes) input).trans ?_
  rw [bind_look]
  cases stop input.kind <;> rfl

theorem ends_commaLoop : (commaLoop phrase).Ends (collect (phrasesAfterCommas phrase)) := by
  refine ends_listLoop (Takes.accept.after fun _ => consumes) fun input => ?_
  refine (congrFun (phrasesAfterCommas_eq consumes) input).trans ?_
  rw [bind_look]
  by_cases comma : input.kind = .comma <;> simp [comma]

end Lists

/-! ## Operators -/

/-- The operators behind an operand that bind tighter than `level`. -/
def tightened (primary : Parser Expr) (level : Nat) (rhs : Expr) : Parser Expr := do
  tighten primary ((← rounds) + 1) level rhs

/-- The loop over operators. -/
def operatorLoop (primary : Parser Expr) (least : Nat) : Loop Expr where
  goes input := (nextOperator? input).any fun operator => least ≤ operator.precedence
  round lhs := do
    match ← look nextOperator? with
    | none => exhausted
    | some operator =>
      accept
      let operand ← primary
      let rhs ← tightened primary operator.precedence operand
      pure (.binary operator lhs rhs)

/-- The inner loop, over tighter operators. -/
def tighterLoop (primary : Parser Expr) (level : Nat) : Loop Expr where
  goes input := (nextOperator? input).any fun operator => level < operator.precedence
  round := chain primary (level + 1)

section Operators

variable {primary : Parser Expr} {least level : Nat} {lhs rhs : Expr} {input : Input}

theorem tightened_eq_chain : tightened primary level = chain primary (level + 1) := by
  funext rhs input
  exact tighten_eq_climb

/-- A loop goes on in front of an operator that its chain takes. -/
theorem any_nextOperator?_eq_false_iff :
    ((nextOperator? input).any fun operator => least ≤ operator.precedence) = false ↔
      input.Stops least := by
  simp [Input.Stops, Option.any_eq_false]

/-- The inner loop has one round at most: a chain leaves no operator behind that binds as
tight. -/
theorem rounds_tighterLoop_le_one {count : Nat} {outcome : Outcome Expr}
    (runs : (tighterLoop primary level).Runs rhs input count outcome) : count ≤ 1 := by
  cases runs with
  | stop | fail => exact Nat.zero_le 1
  | next _ went further =>
    cases further with
    | stop => exact Nat.le_refl 1
    | fail goes => cases goes.symm.trans (any_nextOperator?_eq_false_iff.mpr (stops_of_climb went))
    | next goes =>
      cases goes.symm.trans (any_nextOperator?_eq_false_iff.mpr (stops_of_climb went))

variable (consumes : Takes 1 primary)

include consumes

theorem Takes.chain (least : Nat) (lhs : Expr) : Takes 0 (chain primary least lhs) :=
  (Takes.look _).after fun bound => consumes.climb bound least lhs

/-- A chain takes the operator that has been seen. -/
theorem length_chain_lt {result : Expr} {rest : Input} (goes : ¬ input.Stops least)
    (success : chain primary least lhs input = .ok result rest) :
    rest.rest.length < input.rest.length := by
  rcases stops_or_exists least input with stops | ⟨token, tokens, operator, here, next, takes⟩
  · exact absurd stops goes
  · obtain ⟨_, _⟩ := input
    cases here
    rw [chain_of_operator consumes next takes] at success
    obtain ⟨_, between, read, continued⟩ := exists_of_bind_eq_ok success
    have shorter : between.rest.length < tokens.length := consumes.length read
    have remains := (((consumes.chain _ _).bind fun _ => consumes.chain _ _).of_ok
      continued).length_le
    exact Nat.lt_succ_of_lt (Nat.lt_of_le_of_lt remains shorter)

theorem ends_operatorLoop : (operatorLoop primary least).Ends (chain primary least) := by
  refine Loop.ends_of_takes (fun lhs => (Takes.look _).after fun found => ?_) fun lhs input => ?_
  · cases found with
    | none => exact .fail _
    | some =>
      simp only [tightened_eq_chain]
      exact Takes.accept.after fun _ => consumes.bind fun _ =>
        (consumes.chain _ _).bind fun _ => .pure _
  · rcases stops_or_exists least input with stops | ⟨token, tokens, operator, here, next, takes⟩
    · rw [chain_of_stops stops, if_neg]
      exact Bool.eq_false_iff.mp (any_nextOperator?_eq_false_iff.mpr stops)
    · obtain ⟨_, _⟩ := input
      cases here
      rw [chain_of_operator consumes next takes, if_pos (by simp [operatorLoop, next, takes])]
      simp only [operatorLoop, bind_assoc]
      rw [bind_look, next]
      simp only [bind_assoc, pure_bind, tightened_eq_chain]
      rfl

theorem ends_tighterLoop : (tighterLoop primary level).Ends (tightened primary level) := by
  refine Loop.ends_of_eq (fun rhs input goes => ⟨(consumes.chain _ rhs).behind input,
    fun _ _ ran => length_chain_lt consumes (fun stops => ?_) ran⟩) fun rhs input => ?_
  · cases goes.symm.trans (any_nextOperator?_eq_false_iff.mpr stops)
  · rw [tightened_eq_chain]
    split
    case isFalse stops =>
      exact chain_of_stops (any_nextOperator?_eq_false_iff.mp (Bool.eq_false_iff.mpr stops))
    case isTrue =>
      change _ = (chain primary (level + 1) rhs >>= _) input
      cases ran : chain primary (level + 1) rhs input with
      | ok => rw [bind_of_ok ran, chain_of_stops (stops_of_climb ran)]
      | error => rw [bind_of_error ran]

end Operators

/-- Whatever the tokens and the place among them: what reads a statement, a block, a
function, a name or an expression goes forward if it succeeds and not back if it fails.
Each round of a loop goes forward or fails, so every loop ends after no more rounds than
there are tokens, and the inner one of an expression after one at most.  Nested phrases
need no more levels than there are tokens. -/
theorem parsing_progresses :
    (∀ tokens current, current ≤ tokens.length →
      ProgressesAt tokens current statement ∧ ProgressesAt tokens current block ∧
      ProgressesAt tokens current function ∧ ProgressesAt tokens current identifier ∧
      ProgressesAt tokens current expression) ∧
    (∀ stop, (untilLoop stop statement).Ends (collect (phrasesUntil stop statement))) ∧
    (commaLoop expression).Ends (collect (phrasesAfterCommas expression)) ∧
    (commaLoop identifier).Ends (collect (phrasesAfterCommas identifier)) ∧
    (∀ least, (operatorLoop (primaryWith expression) least).Ends
      (chain (primaryWith expression) least)) ∧
    (∀ level, (tighterLoop (primaryWith expression) level).Ends
      (tightened (primaryWith expression) level)) ∧
    (∀ level rhs input count outcome,
      (tighterLoop (primaryWith expression) level).Runs rhs input count outcome → count ≤ 1) ∧
    ∀ input bound, input.rest.length < bound →
      statementAt bound input = statement input ∧ expressionAt bound input = expression input := by
  have primary := Takes.expression.primaryWith
  refine ⟨fun tokens current inside => ⟨Takes.statement.progressesAt inside,
      Takes.statement.blockWith.progressesAt inside, Takes.function.progressesAt inside,
      Takes.identifier.progressesAt inside, Takes.expression.progressesAt inside⟩,
    ends_untilLoop Takes.statement, ends_commaLoop Takes.expression,
    ends_commaLoop Takes.identifier, fun _ => ends_operatorLoop primary,
    fun _ => ends_tighterLoop primary, fun _ _ _ _ _ => rounds_tighterLoop_le_one,
    fun input bound enough => ⟨?_, ?_⟩⟩
  · exact levels_eq_of_isGuarded isGuarded_statementWith Takes.statementAt (fun _ => rfl) enough
      (Nat.lt_succ_self _)
  · exact levels_eq_of_isGuarded isGuarded_expressionWith Takes.expressionAt (fun _ => rfl) enough
      (Nat.lt_succ_self _)

end BanglaScript.Parser
