import BanglaScript.Proofs.Parser.Gives

/-!
# Parsing without bounds

Loops and nested phrases of the parser carry a bound that is counted from the
remaining tokens.  Each round takes a token, so any two bounds that are larger
than the number of tokens give the same run.  Hence lists of phrases, chains of
operators, expressions and statements satisfy equations without bounds, and in
these equations an operator takes as its right operand a chain of tighter
operators.
-/

namespace BanglaScript.Parser

variable {α β : Type} {place : Input} {first : Parser α} {next : α → Parser β}
  {nested : Parser Statement}

/-- Runs of two sequences agree if those of the first parts do, and then those
of the second parts on what is left. -/
theorem bind_congr_run {other : Parser α} {otherNext : α → Parser β} {input : Input}
    (same : first input = other place)
    (continues : ∀ result rest, first input = .ok result rest →
      next result rest = otherNext result rest) :
    (first >>= next) input = (other >>= otherNext) place := by
  cases ran : first input with
  | ok result rest =>
    rw [bind_of_ok ran, bind_of_ok (same.symm.trans ran)]
    exact continues result rest ran
  | error => rw [bind_of_error ran, bind_of_error (same.symm.trans ran)]

/-- What comes behind a parser may use that it has taken tokens. -/
theorem bind_congr_behind {least : Nat} {other : α → Parser β} {input : Input}
    (takes : Takes least first)
    (same : ∀ result rest, rest.rest.length + least ≤ input.rest.length →
      next result rest = other result rest) :
    (first >>= next) input = (first >>= other) input :=
  bind_congr_run rfl fun result rest ran => same result rest (takes.length ran)

theorem look_congr_run {view : Input → α} {other : α → Parser β} {input : Input}
    (same : next (view input) input = other (view input) input) :
    (look view >>= next) input = (look view >>= other) input :=
  same

theorem within_congr_run {other : Parser α} {input : Input} {context : String}
    (same : first input = other place) :
    within context first input = within context other place := by
  rw [within, within, same]

/-- The parsers run alike on inputs with fewer tokens. -/
def AgreeBelow (count : Nat) (first second : Parser α) : Prop :=
  ∀ input : Input, input.rest.length < count → first input = second input

theorem AgreeBelow.mono {less count : Nat} {second : Parser α}
    (same : AgreeBelow count first second)
    (le : less ≤ count) : AgreeBelow less first second :=
  fun input few => same input (Nat.lt_of_lt_of_le few le)

/-! ## Lists of phrases -/

section Lists

variable {stop : TokenKind → Bool} {phrase other : Parser α} {input : Input} {bound wider : Nat}
  (consumes : Takes 1 phrase)

include consumes

theorem repeatUntil_congr
    (same : AgreeBelow (input.rest.length + 1) phrase other) (enough : input.rest.length < bound)
    (otherEnough : input.rest.length < wider) :
    repeatUntil stop phrase bound input = repeatUntil stop other wider input := by
  induction bound generalizing wider input with
  | zero => exact absurd enough (Nat.not_lt_zero _)
  | succ bound ih =>
    obtain ⟨_, rfl⟩ := Nat.exists_eq_succ_of_ne_zero (Nat.ne_zero_of_lt otherEnough)
    refine look_congr_run ?_
    split
    · rfl
    · refine bind_congr_run (same input (Nat.lt_succ_self _)) fun first rest ran => ?_
      have shorter := consumes.length ran
      exact bind_congr_run (ih (same.mono (by omega)) (by omega) (by omega)) fun _ _ _ => rfl

theorem afterCommas_congr (same : AgreeBelow input.rest.length phrase other)
    (enough : input.rest.length < bound) (otherEnough : input.rest.length < wider) :
    afterCommas phrase bound input = afterCommas other wider input := by
  induction bound generalizing wider input with
  | zero => exact absurd enough (Nat.not_lt_zero _)
  | succ bound ih =>
    obtain ⟨_, rfl⟩ := Nat.exists_eq_succ_of_ne_zero (Nat.ne_zero_of_lt otherEnough)
    obtain ⟨tokens, _⟩ := input
    refine look_congr_run ?_
    split
    · rename_i comma
      cases tokens with
      | nil => cases comma
      | cons token tokens =>
        simp only [List.length_cons] at same enough otherEnough
        rw [bind_accept, bind_accept]
        refine bind_congr_run (same _ (Nat.lt_succ_self _)) fun first rest ran => ?_
        have shorter : rest.rest.length ≤ tokens.length := (consumes.of_ok ran).length_le
        exact bind_congr_run (ih (same.mono (by omega)) (by omega) (by omega)) fun _ _ _ => rfl
    · rfl

theorem phrasesUntil_eq :
    phrasesUntil stop phrase = (do
      if stop (← look Input.kind) then
        pure []
      else
        let first ← phrase
        let others ← phrasesUntil stop phrase
        pure (first :: others)) := by
  funext input
  change repeatUntil stop phrase (input.rest.length + 1) input = _
  refine look_congr_run ?_
  split
  · rfl
  · refine bind_congr_run rfl fun first rest ran => bind_congr_run ?_ fun _ _ _ => rfl
    exact repeatUntil_congr consumes (fun _ _ => rfl) (consumes.length ran) (Nat.lt_succ_self _)

theorem phrasesAfterCommas_eq :
    phrasesAfterCommas phrase = (do
      if (← look Input.kind) = .comma then
        accept
        let first ← phrase
        let others ← phrasesAfterCommas phrase
        pure (first :: others)
      else
        pure []) := by
  funext input
  obtain ⟨tokens, endPosition⟩ := input
  change afterCommas phrase (tokens.length + 1) ⟨tokens, endPosition⟩ = _
  refine look_congr_run ?_
  split
  · rename_i comma
    cases tokens with
    | nil => cases comma
    | cons =>
      rw [bind_accept, bind_accept]
      refine bind_congr_run rfl fun first rest ran => bind_congr_run ?_ fun _ _ _ => rfl
      exact afterCommas_congr consumes (fun _ _ => rfl)
        (Nat.lt_succ_of_le (consumes.of_ok ran).length_le) (Nat.lt_succ_self _)
  · rfl

theorem separatedByCommas_congr
    (same : AgreeBelow (input.rest.length + 1) phrase other) :
    separatedByCommas phrase input = separatedByCommas other input := by
  refine look_congr_run ?_
  split
  · rfl
  · refine bind_congr_run (same input (Nat.lt_succ_self _)) fun first rest ran => ?_
    have shorter := consumes.length ran
    refine bind_congr_run ?_ fun _ _ _ => rfl
    exact afterCommas_congr consumes (same.mono (by omega)) (Nat.lt_succ_self _)
      (Nat.lt_succ_self _)

end Lists

/-! ## Chains of operators -/

/-- No operator comes next that binds at least as tight as `least`. -/
def Input.Stops (least : Nat) (input : Input) : Prop :=
  ∀ operator, nextOperator? input = some operator → operator.precedence < least

section Chains

variable {primary other : Parser Expr} {bound least : Nat} {lhs : Expr} {token : Token}
  {rest : List Token} {endPosition : Position} {operator : BinaryOperator}

/-- The next operator is taken, or there is none to take. -/
theorem forall_or_exists_operator (takes : BinaryOperator → Prop) (input : Input) :
    (∀ operator, nextOperator? input = some operator → ¬ takes operator) ∨
      ∃ token rest operator, input.rest = token :: rest ∧ nextOperator? input = some operator ∧
        takes operator := by
  obtain ⟨tokens, endPosition⟩ := input
  cases next : nextOperator? ⟨tokens, endPosition⟩ with
  | none => exact .inl nofun
  | some operator =>
    by_cases taken : takes operator
    · cases tokens with
      | nil => cases next
      | cons token rest => exact .inr ⟨token, rest, operator, rfl, rfl, taken⟩
    · refine .inl fun other found => ?_
      cases found
      exact taken

theorem stops_or_exists (least : Nat) (input : Input) :
    input.Stops least ∨ ∃ token rest operator, input.rest = token :: rest ∧
      nextOperator? input = some operator ∧ least ≤ operator.precedence :=
  (forall_or_exists_operator _ input).imp_left fun stops operator found =>
    Nat.lt_of_not_le (stops operator found)

variable {input : Input}

section Operator

variable {takes : BinaryOperator → Prop} [DecidablePred takes]
  {further : BinaryOperator → Parser Expr}

theorem match_of_forall
    (stops : ∀ operator, nextOperator? input = some operator → ¬ takes operator) :
    (match nextOperator? input with
      | none => pure lhs
      | some operator => if takes operator then further operator else pure lhs : Parser Expr)
        input = .ok lhs input := by
  cases next : nextOperator? input with
  | none => rfl
  | some operator =>
    dsimp only
    rw [if_neg (stops operator next)]
    rfl

theorem match_of_operator (next : nextOperator? input = some operator) (taken : takes operator) :
    (match nextOperator? input with
      | none => pure lhs
      | some operator => if takes operator then further operator else pure lhs : Parser Expr)
        input = further operator input := by
  rw [next]
  exact congrFun (if_pos taken) input

end Operator

theorem climb_of_stops (stops : input.Stops least) :
    climb primary (bound + 1) least lhs input = .ok lhs input :=
  match_of_forall fun operator found => Nat.not_le_of_lt (stops operator found)

theorem climb_of_operator (next : nextOperator? ⟨token :: rest, endPosition⟩ = some operator)
    (takes : least ≤ operator.precedence) :
    climb primary (bound + 1) least lhs ⟨token :: rest, endPosition⟩ = (do
      let operand ← primary
      let rhs ← tighten primary bound operator.precedence operand
      climb primary bound least (.binary operator lhs rhs)) ⟨rest, endPosition⟩ :=
  match_of_operator next takes

/-- A chain stops before an operator that binds less tight. -/
theorem stops_of_climb {result : Expr} {rest : Input}
    (success : climb primary bound least lhs input = .ok result rest) : rest.Stops least := by
  induction bound generalizing lhs input with
  | zero => cases success
  | succ bound ih =>
    rcases stops_or_exists least input with stops | ⟨token, tokens, operator, here, next, takes⟩
    · rw [climb_of_stops stops] at success
      cases success
      exact stops
    · obtain ⟨_, _⟩ := input
      cases here
      rw [climb_of_operator next takes] at success
      obtain ⟨_, _, _, success⟩ := exists_of_bind_eq_ok success
      obtain ⟨_, _, _, success⟩ := exists_of_bind_eq_ok success
      exact ih success

/-- To extend an operand by tighter operators is to read one chain of them. -/
theorem tighten_eq_climb {level : Nat} {rhs : Expr} :
    tighten primary (bound + 2) level rhs input =
      climb primary (bound + 1) (level + 1) rhs input := by
  have stopped (bound : Nat) (rhs : Expr) {input : Input} (stops : input.Stops (level + 1)) :
      tighten primary (bound + 1) level rhs input = .ok rhs input :=
    match_of_forall fun operator found =>
      Nat.not_lt_of_le (Nat.le_of_lt_succ (stops operator found))
  rcases stops_or_exists (level + 1) input with stops | ⟨_, _, operator, _, next, takes⟩
  · rw [stopped _ _ stops, climb_of_stops stops]
  · refine (match_of_operator next (Nat.lt_of_succ_le takes)).trans ?_
    cases ran : climb primary (bound + 1) (level + 1) rhs input with
    | ok => exact (bind_of_ok ran).trans (stopped _ _ (stops_of_climb ran))
    | error => exact bind_of_error ran

/-- Bounds that are larger than the number of tokens make no difference. -/
theorem climb_congr (consumes : Takes 1 primary) {wider : Nat}
    (same : AgreeBelow input.rest.length primary other) (enough : input.rest.length < bound)
    (otherEnough : input.rest.length < wider) :
    climb primary bound least lhs input = climb other wider least lhs input := by
  induction count : input.rest.length using Nat.strongRecOn
    generalizing input bound wider least lhs with
  | ind count ih =>
    obtain ⟨bound, rfl⟩ := Nat.exists_eq_succ_of_ne_zero (Nat.ne_zero_of_lt enough)
    obtain ⟨wider, rfl⟩ := Nat.exists_eq_succ_of_ne_zero (Nat.ne_zero_of_lt otherEnough)
    rcases stops_or_exists least input with stops | ⟨token, tokens, operator, here, next, takes⟩
    · rw [climb_of_stops stops, climb_of_stops stops]
    · obtain ⟨_, _⟩ := input
      cases here
      simp only [List.length_cons] at count same enough otherEnough
      rw [climb_of_operator next takes, climb_of_operator next takes]
      refine bind_congr_run (same _ (Nat.lt_succ_self _)) fun operand rest ran => ?_
      have shorter : rest.rest.length < tokens.length := consumes.length ran
      obtain ⟨bound, rfl⟩ : ∃ smaller, bound = smaller + 2 := ⟨bound - 2, by omega⟩
      obtain ⟨wider, rfl⟩ : ∃ smaller, wider = smaller + 2 := ⟨wider - 2, by omega⟩
      refine bind_congr_run ?_ fun rhs left continued => ?_
      · rw [tighten_eq_climb, tighten_eq_climb]
        exact ih _ (by omega) (same.mono (by omega)) (by omega) (by omega) rfl
      · rw [tighten_eq_climb] at continued
        have remains : left.rest.length ≤ rest.rest.length :=
          ((consumes.climb _ _ _).of_ok continued).length_le
        exact ih _ (by omega) (same.mono (by omega)) (by omega) (by omega) rfl

theorem chain_of_stops (stops : input.Stops least) :
    chain primary least lhs input = .ok lhs input :=
  climb_of_stops stops

/-- An operator takes as its right operand a chain of tighter operators. -/
theorem chain_of_operator (consumes : Takes 1 primary)
    (next : nextOperator? ⟨token :: rest, endPosition⟩ = some operator)
    (takes : least ≤ operator.precedence) :
    chain primary least lhs ⟨token :: rest, endPosition⟩ = (do
      let operand ← primary
      let rhs ← chain primary (operator.precedence + 1) operand
      chain primary least (.binary operator lhs rhs)) ⟨rest, endPosition⟩ := by
  refine (climb_of_operator next takes).trans ?_
  refine bind_congr_run rfl fun operand left ran => ?_
  have shorter : left.rest.length < rest.length := consumes.length ran
  simp only [List.length_cons]
  obtain ⟨count, counted⟩ : ∃ count, rest.length = count + 1 := ⟨rest.length - 1, by omega⟩
  rw [counted] at shorter ⊢
  refine bind_congr_run ?_ fun rhs later continued => ?_
  · rw [tighten_eq_climb]
    exact climb_congr consumes (fun _ _ => rfl) (by omega) (Nat.lt_succ_self _)
  · rw [tighten_eq_climb] at continued
    have remains := ((consumes.climb _ _ _).of_ok continued).length_le
    exact climb_congr consumes (fun _ _ => rfl) (by omega) (Nat.lt_succ_self _)

end Chains

/-! ## Nested phrases -/

/-- Nested phrases are read only behind the first token. -/
def IsGuarded (construct : Parser α → Parser α) : Prop :=
  ∀ ⦃nested other : Parser α⦄ ⦃input : Input⦄, Takes 1 nested →
    (∀ shorter : Input, shorter.rest.length < input.rest.length →
      nested shorter = other shorter) →
    construct nested input = construct other input

section Levels

variable {construct : Parser α → Parser α} (guarded : IsGuarded construct)
  {levels : Nat → Parser α} (consumes : ∀ bound, Takes 1 (levels bound))
  (step : ∀ bound, levels (bound + 1) = construct (levels bound))

include guarded consumes step

/-- Levels above the number of tokens agree. -/
theorem levels_eq_of_isGuarded {input : Input} {bound wider : Nat}
    (enough : input.rest.length < bound) (otherEnough : input.rest.length < wider) :
    levels bound input = levels wider input := by
  induction count : input.rest.length using Nat.strongRecOn generalizing input bound wider with
  | ind count ih =>
    obtain ⟨bound, rfl⟩ := Nat.exists_eq_succ_of_ne_zero (Nat.ne_zero_of_lt enough)
    obtain ⟨_, rfl⟩ := Nat.exists_eq_succ_of_ne_zero (Nat.ne_zero_of_lt otherEnough)
    rw [step, step]
    exact guarded (consumes bound) fun shorter lt =>
      ih _ (by omega) (by omega) (by omega) rfl

/-- What is read with nested phrases up to a level that no input exceeds reads
nested phrases of its own kind. -/
theorem eq_of_isGuarded : (do levels (← rounds)) = construct (do levels (← rounds)) := by
  funext input
  change levels (input.rest.length + 1) input = _
  rw [step]
  exact guarded (consumes _) fun shorter lt =>
    levels_eq_of_isGuarded guarded consumes step lt (Nat.lt_succ_self _)

end Levels

variable {other : Parser Statement} {input : Input}

theorem callWith_congr {nested other : Parser Expr} {name : String} (consumes : Takes 1 nested)
    (same : AgreeBelow input.rest.length nested other) :
    callWith nested name input = callWith other name input := by
  refine within_congr_run (bind_congr_behind (Takes.consume _) fun _ rest shorter => ?_)
  exact bind_congr_run (separatedByCommas_congr consumes (same.mono shorter)) fun _ _ _ => rfl

theorem primaryWith_congr {nested other : Parser Expr} (consumes : Takes 1 nested)
    (same : AgreeBelow input.rest.length nested other) :
    primaryWith nested input = primaryWith other input := by
  obtain ⟨tokens, endPosition⟩ := input
  cases tokens with
  | nil => rfl
  | cons token tokens =>
    simp only [List.length_cons] at same
    cases found : token.kind with
    | openParen =>
      rw [primaryWith_of_openParen found, primaryWith_of_openParen found]
      exact within_congr_run (bind_congr_run (same _ (Nat.lt_succ_self _)) fun _ _ _ => rfl)
    | number =>
      by_cases valued : ∃ number, token.value = some (.number number)
      · obtain ⟨number, value⟩ := valued
        rw [primaryWith_of_number found value, primaryWith_of_number found value]
      · have missing number value := valued ⟨number, value⟩
        rw [primaryWith_of_no_number found missing, primaryWith_of_no_number found missing]
    | string => rw [primaryWith_of_string found, primaryWith_of_string found]
    | identifier =>
      rw [primaryWith_of_identifier found, primaryWith_of_identifier found]
      refine within_congr_run (look_congr_run ?_)
      split
      · exact callWith_congr consumes (same.mono (Nat.le_succ _))
      · rfl
    | _ =>
      have nothing : (Input.kind ⟨token :: tokens, endPosition⟩).startsPrimary = false := by
        simp [Input.kind, found, TokenKind.startsPrimary]
      rw [primaryWith_of_other nothing, primaryWith_of_other nothing]

theorem isGuarded_expressionWith : IsGuarded expressionWith := by
  intro nested other input consumes same
  refine within_congr_run (bind_congr_run (primaryWith_congr consumes same) fun lhs rest ran => ?_)
  have shorter := consumes.primaryWith.length ran
  refine within_congr_run (look_congr_run ?_)
  refine climb_congr consumes.primaryWith (fun left lt => ?_)
    (Nat.lt_succ_self _) (Nat.lt_succ_self _)
  exact primaryWith_congr consumes fun least lt => same least (by omega)

/-- An expression is a primary expression and a chain of operators. -/
theorem expression_eq : expression = expressionWith expression :=
  eq_of_isGuarded isGuarded_expressionWith Takes.expressionAt fun _ => rfl

theorem blockWith_congr (consumes : Takes 1 nested)
    (same : AgreeBelow input.rest.length nested other) :
    blockWith nested input = blockWith other input := by
  refine within_congr_run (bind_congr_behind (Takes.consume _) fun _ rest shorter => ?_)
  refine bind_congr_run ?_ fun _ _ _ => rfl
  exact repeatUntil_congr consumes (same.mono shorter) (Nat.lt_succ_self _) (Nat.lt_succ_self _)

theorem conditionalWith_congr (consumes : Takes 1 nested)
    (same : AgreeBelow (input.rest.length + 1) (blockWith nested) (blockWith other)) :
    conditionalWith nested input = conditionalWith other input := by
  refine within_congr_run (bind_congr_behind (Takes.keyword _) fun _ first firstLe => ?_)
  refine bind_congr_behind Takes.condition fun _ second secondLe => ?_
  refine bind_congr_run (same _ (by omega)) fun _ third ran => look_congr_run ?_
  have thirdLe := consumes.blockWith.length ran
  split
  · refine bind_congr_behind Takes.accept fun _ fourth fourthLe => ?_
    exact bind_congr_run (same _ (by omega)) fun _ _ _ => rfl
  · rfl

section

variable (same : AgreeBelow (input.rest.length + 1) (blockWith nested) (blockWith other))

include same

theorem functionWith_congr : functionWith nested input = functionWith other input := by
  refine within_congr_run (bind_congr_behind (Takes.keyword _) fun _ first firstLe => ?_)
  refine bind_congr_behind Takes.identifier fun _ second secondLe => ?_
  refine bind_congr_behind (Takes.consume _) fun _ third thirdLe => ?_
  refine bind_congr_behind (Takes.identifier.separatedByCommas.within _) fun _ fourth fourthLe => ?_
  refine bind_congr_behind (Takes.consume _) fun _ fifth fifthLe => ?_
  exact bind_congr_run (same _ (by omega)) fun _ _ _ => rfl

theorem loopWith_congr : loopWith nested input = loopWith other input := by
  refine bind_congr_behind Takes.accept fun _ first firstLe => ?_
  refine bind_congr_behind Takes.condition fun _ second secondLe => ?_
  exact bind_congr_run (same _ (by omega)) fun _ _ _ => rfl

end

theorem isGuarded_statementWith : IsGuarded statementWith := by
  intro nested other input consumes same
  have block : AgreeBelow (input.rest.length + 1) (blockWith nested) (blockWith other) :=
    fun left few => blockWith_congr consumes fun shorter lt => same shorter (by omega)
  refine within_congr_run (look_congr_run ?_)
  cases input.kind with
  | keyword word =>
    cases word with
    | jode => exact conditionalWith_congr consumes block
    | jotokkhon => exact loopWith_congr block
    | function => exact functionWith_congr block
    | _ => rfl
  | openBrace => exact bind_congr_run (block _ (Nat.lt_succ_self _)) fun _ _ _ => rfl
  | _ => rfl

/-- The statements inside a statement are statements. -/
theorem statement_eq : statement = statementWith statement :=
  eq_of_isGuarded isGuarded_statementWith Takes.statementAt fun _ => rfl

end BanglaScript.Parser
