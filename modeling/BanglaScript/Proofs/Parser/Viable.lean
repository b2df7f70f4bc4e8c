import BanglaScript.Proofs.Parser.Predictive

/-!
# The parser is predictive

Every parser of the grammar is predictive: it stops at the first token that
cannot continue what it has taken, whatever comes behind this token.

An expression that fails at its first token is completed by a number, and so is
a statement.
-/

namespace BanglaScript

open List

variable {nested : Parser Statement}

namespace Parser

open Lexeme

variable {α β : Type} {starts follows begins ends : TokenKind → Prop} {bound : Nat}

/-! ## Single tokens -/

/-- The fault of an unwanted token is about this token. -/
theorem blames_faultAt (wanted : Wanted) (input : Input) :
    Blames ({ cause := faultAt wanted input : SyntaxError }.located input.position) input := by
  refine ⟨rfl, ?_⟩
  change if input.kind = .endOfInput then ∃ wanted', faultAt wanted input = .unexpectedEnd wanted'
    else ∃ wanted', faultAt wanted input = .expected wanted' input.kind
  unfold faultAt
  split
  · exact ⟨_, rfl⟩
  · exact ⟨_, rfl⟩

/-- A parser that takes the next token and then runs like another one. -/
theorem Predicts.token {parser next : Parser α} {token : Token} {rest : List Token}
    {endPosition : Position} (proper : token.kind ≠ .endOfInput)
    (predicts : Predicts begins follows next ⟨rest, endPosition⟩)
    (run : ∀ rest endPosition, parser ⟨token :: rest, endPosition⟩ = next ⟨rest, endPosition⟩) :
    Predicts starts follows parser ⟨token :: rest, endPosition⟩ :=
  predicts.after (cons_ne_nil token []) (forall_mem_singleton.mpr proper)
    fun place _ => run place.rest place.endPosition

/-- The next token decides how to go on. -/
theorem Predicts.look {continuation : TokenKind → Parser α} {input : Input}
    (predicts : Predicts begins follows (continuation input.kind) input)
    (same : ∀ kind, begins kind → continuation kind = continuation input.kind)
    (weaker : ∀ kind, begins kind → starts kind) :
    Predicts starts follows (Parser.look Input.kind >>= continuation) input := by
  refine Predicts.mono (predicts.congr fun place allowed => ?_) weaker fun _ allowed => allowed
  rw [bind_look]
  rcases allowed with here | allowed
  · rw [here]
  · rw [same _ allowed]

theorem Predictive.consume (kind : TokenKind) (proper : kind ≠ .endOfInput) :
    Predictive bound (· = kind) follows (consume kind) := by
  have reads : Reads (Parser.consume kind) [⟨kind, none, []⟩] () anything := .consume _ proper
  have productive : Productive (· = kind) follows (Parser.consume kind) :=
    .of_reads (reads.mono fun _ _ => trivial) fun _ _ => rfl
  refine ⟨productive, fun input _ => ?_⟩
  by_cases found : input.kind = kind
  · obtain ⟨tokens, _⟩ := input
    cases tokens with
    | nil => exact absurd found.symm proper
    | cons token =>
      have here : token.kind = kind := found
      exact .token (here ▸ proper) (.pure ()) (consume_of_kind here proper)
  · refine .refuse productive ⟨{ cause := faultAt (.kind kind) input }, fun place same => ?_⟩
    rw [← same.faultAt_eq]
    exact ⟨consume_of_other (same.kind_eq ▸ found), blames_faultAt _ place⟩

theorem Predictive.keyword (word : Keyword) :
    Predictive bound (· = .keyword word) follows (keyword word) :=
  (consume (.keyword word) nofun).within _

theorem Predictive.identifier : Predictive bound (· = .identifier) follows identifier := by
  have productive : Productive (· = .identifier) follows Parser.identifier :=
    .of_reads ((reads_identifier "").mono fun _ _ => trivial) fun _ _ => rfl
  refine ⟨productive, fun input _ => ?_⟩
  by_cases found : input.kind = .identifier
  · obtain ⟨tokens, _⟩ := input
    cases tokens with
    | nil => cases found
    | cons token =>
      have here : token.kind = .identifier := found
      exact .token (here ▸ nofun) (.pure token.text) (identifier_of_kind here)
  · refine .refuse productive ⟨{ cause := faultAt (.kind .identifier) input
                                 contexts := ["parsing identifier"] }, fun place same => ?_⟩
    rw [← same.faultAt_eq]
    exact ⟨within_of_error (bind_of_error (expect_of_other (same.kind_eq ▸ found))),
      (blames_faultAt _ place).within _⟩

/-- A phrase and a token that ends it. -/
theorem Predictive.closed {parser : Parser α} {change : α → β}
    (predictive : Predictive bound starts follows parser) {kind : TokenKind}
    (proper : kind ≠ .endOfInput) (allowed : follows kind) :
    Predictive bound starts ends (do
      let value ← parser
      Parser.consume kind
      Pure.pure (change value)) :=
  predictive.bind (fun _ => (consume kind proper).map) fun _ here => here ▸ allowed

/-- A token is taken that has been seen. -/
theorem Predicts.accept {next : Unit → Parser α} {input : Input}
    (proper : input.kind ≠ .endOfInput) (predictive : Predictive bound begins follows (next ()))
    (few : input.rest.length < bound + 1) :
    Predicts starts follows (accept >>= next) input := by
  obtain ⟨tokens, endPosition⟩ := input
  cases tokens with
  | nil => exact absurd rfl proper
  | cons token rest =>
    exact .token proper (predictive.predicts ⟨rest, endPosition⟩ (Nat.lt_of_succ_lt_succ few))
      fun _ _ => rfl

/-- The next token decides between two parsers. -/
theorem Predictive.decide {test : TokenKind → Prop} [DecidablePred test] {chosen other : Parser α}
    (predicts : ∀ input : Input, input.rest.length < bound → test input.kind →
      Predicts starts follows chosen input)
    (predictive : Predictive bound begins follows other)
    (chooses : ∀ kind, starts kind → test kind) (leaves : ∀ kind, begins kind → ¬ test kind) :
    Predictive bound (fun kind => starts kind ∨ begins kind) follows (do
      if test (← look Input.kind) then chosen else other) where
  productive := by
    refine (predictive.productive.congr fun input start => ?_).mono (fun _ => .inr)
      fun _ allowed => allowed
    rw [bind_look, if_neg (leaves _ start)]
  predicts input few := by
    by_cases found : test input.kind
    · refine .look ?_ (fun kind start => by rw [if_pos found, if_pos (chooses kind start)])
        fun _ => .inl
      rw [if_pos found]
      exact predicts input few found
    · refine .look ?_ (fun kind start => by rw [if_neg found, if_neg (leaves kind start)])
        fun _ => .inr
      rw [if_neg found]
      exact predictive.predicts input few

/-! ## Lists of phrases -/

section Lists

variable {phrase : Parser α}

section

variable (consumes : Takes 1 phrase) (predictive : Predictive bound starts follows phrase)
  (comma : follows .comma) (closeParen : follows .closeParen)

include consumes predictive comma closeParen

theorem Predictive.phrasesAfterCommas :
    Predictive bound (fun kind => kind = .comma ∨ kind = .closeParen) (· = .closeParen)
      (phrasesAfterCommas phrase) := by
  have step := phrasesAfterCommas_eq consumes
  induction bound with
  | zero =>
    refine ⟨?_, nofun⟩
    rw [step]
    exact .of_reads (Leads.lookBehind fun kind closes => by rw [closes]; rfl) fun _ => .inr
  | succ bound ih =>
    have shorter := predictive.weaken (Nat.le_succ bound)
    rw [step]
    exact .decide (fun input few found => .accept (found ▸ nofun)
        (shorter.bind (fun _ => (ih shorter).map) (by rintro _ (rfl | rfl) <;> assumption)) few)
      (.pure []) (fun _ here => here) fun _ closes => closes ▸ nofun

/-- Phrases between commas, if none starts with a closing parenthesis and both a
comma and a closing parenthesis may follow them. -/
theorem Predictive.separatedByCommas (opens : ¬ starts .closeParen) :
    Predictive bound (fun kind => kind = .closeParen ∨ starts kind) (· = .closeParen)
      (separatedByCommas phrase) := by
  rw [Parser.separatedByCommas]
  exact .decide (fun _ _ _ => .pure []) (predictive.bind
    (fun _ => (predictive.phrasesAfterCommas consumes comma closeParen).map)
    (by rintro _ (rfl | rfl) <;> assumption))
    (fun _ here => here) fun kind start closes => opens (closes ▸ start)

end

/-- Phrases up to a token that stops them, which no phrase starts with. -/
theorem Predictive.phrasesUntil {stop : TokenKind → Bool} (consumes : Takes 1 phrase)
    (predictive : Predictive bound starts follows phrase)
    (goesOn : ∀ kind, starts kind → stop kind = false)
    (ended : ∀ kind, stop kind = true → follows kind) (again : ∀ kind, starts kind → follows kind) :
    Predictive bound (fun kind => stop kind = true ∨ starts kind) (stop · = true)
      (phrasesUntil stop phrase) := by
  have step : Parser.phrasesUntil stop phrase = _ := phrasesUntil_eq consumes
  induction bound with
  | zero =>
    refine ⟨?_, fun _ short => absurd short (Nat.not_lt_zero _)⟩
    rw [step]
    exact .of_reads (Leads.lookBehind fun kind stops => if_pos stops) fun _ => .inl
  | succ bound ih =>
    have rest := ih (predictive.weaken (Nat.le_succ bound))
    rw [step]
    refine .decide (fun _ _ _ => .pure [])
      (.step consumes predictive (fun _ => rest.map) fun kind allowed =>
        allowed.elim (ended kind) (again kind)) (fun _ stops => stops) fun kind start => ?_
    rw [goesOn kind start]
    exact Bool.false_ne_true

end Lists

/-! ## Expressions -/

/-- A token of the kind may follow what operators that bind at least as tight as
`least` can extend.  It is no assignment sign, so that a name in front of it
starts no assignment. -/
structure Closes (least : Nat) (kind : TokenKind) : Prop where
  ends : Ends least kind
  ne_assign : kind ≠ .sign .assign

namespace Closes

theorem mono {least more : Nat} {kind : TokenKind} (closes : Closes least kind)
    (le : least ≤ more) : Closes more kind :=
  ⟨closes.ends.mono le, closes.ne_assign⟩

theorem closeParen : Closes 0 .closeParen := ⟨ends_closeParen, nofun⟩

theorem semicolon : Closes 0 .semicolon := ⟨ends_semicolon, nofun⟩

theorem comma : Closes 0 .comma := ⟨.of_no_operator nofun rfl, nofun⟩

end Closes

theorem Predictive.callWith {nested : Parser Expr} (consumes : Takes 1 nested)
    (predictive : Predictive bound (· = .number) (Closes 0) nested) (name : String) :
    Predictive bound (· = .openParen) follows (callWith nested name) := by
  have arguments := predictive.separatedByCommas consumes Closes.comma Closes.closeParen nofun
  refine within ?_ _
  exact (consume .openParen nofun).andThen fun _ => arguments.closed nofun rfl

/-- What comes behind a name in a primary expression. -/
def afterName (nested : Parser Expr) (name : String) : Parser Expr := do
  if (← look Input.kind) = .openParen then callWith nested name
  else pure (.identifier name)

theorem Predictive.afterName {nested : Parser Expr} (consumes : Takes 1 nested)
    (predictive : Predictive bound (· = .number) (Closes 0) nested) (name : String) :
    Predictive bound (fun kind => kind = .openParen ∨ Closes 5 kind) (Closes 5)
      (afterName nested name) :=
  .decide (fun input few _ => (predictive.callWith consumes name).predicts input few) (.pure _)
    (fun _ here => here) fun _ closes => closes.ends.1

theorem productive_primaryWith (nested : Parser Expr) :
    Productive (· = .number) anything (primaryWith nested) := by
  have reads : Reads (primaryWith nested) [ofLiteral (.number (.ofNat 0))] _ anything :=
    .single fun token rest endPosition same =>
      primaryWith_of_number (congrArg Lexeme.kind same) (congrArg Lexeme.value same)
  exact .of_reads reads fun _ _ => rfl

/-- A number token without a value is refused. -/
theorem failsAt_number {nested : Parser Expr} {token : Token} {rest : List Token}
    {endPosition : Position} (found : token.kind = .number)
    (missing : ∀ number, token.value ≠ some (.number number)) {place : Input}
    (same : place.SameHead ⟨token :: rest, endPosition⟩) :
    FailsAt (primaryWith nested) []
      { cause := .expected (.description "number with a value") .number
        contexts := ["parsing primary expression"] } place := by
  have kind : place.kind = .number := same.kind_eq.trans found
  obtain ⟨tokens, _⟩ := place
  cases tokens with
  | nil => cases kind
  | cons =>
    rcases same with same | ⟨ended, _⟩
    · cases same
      refine ⟨primaryWith_of_no_number found missing, rfl, ?_⟩
      rw [kind]
      exact ⟨_, rfl⟩
    · cases kind.symm.trans ended

theorem blames_of_primaryFault {error : SyntaxError} {input : Input}
    (position : error.position = some input.position)
    (cause : error.cause = primaryFault input.kind) : Blames error input := by
  refine ⟨position, ?_⟩
  rw [cause, primaryFault]
  split
  · exact ⟨_, rfl⟩
  · exact ⟨_, rfl⟩

theorem Predictive.primaryWith {nested : Parser Expr} (consumes : Takes 1 nested)
    (predictive : Predictive bound (· = .number) (Closes 0) nested) :
    Predictive (bound + 1) (· = .number) (Closes 5) (primaryWith nested) := by
  have productive : Productive (· = .number) (Closes 5) (Parser.primaryWith nested) :=
    (productive_primaryWith nested).mono (fun _ here => here) fun _ _ => trivial
  refine ⟨productive, fun input few => ?_⟩
  by_cases starts : input.kind.startsPrimary = true
  · obtain ⟨tokens, endPosition⟩ := input
    cases tokens with
    | nil => cases starts
    | cons token rest =>
      have fewer : rest.length < bound := Nat.lt_of_succ_lt_succ few
      have kind : token.kind.startsPrimary = true := starts
      cases found : token.kind with
      | openParen =>
        have inner : Predictive bound (· = .number) (Closes 5) (do
            let inner ← nested
            Parser.within "as the end of the expression" (Parser.consume .closeParen)
            Pure.pure inner) :=
          predictive.bind (fun _ => ((consume .closeParen nofun).within _).map)
            fun _ here => here ▸ Closes.closeParen
        exact .token (found ▸ nofun) ((inner.predicts ⟨rest, endPosition⟩ fewer).within _)
          fun _ _ => primaryWith_of_openParen found
      | number =>
        by_cases valued : ∃ number, token.value = some (.number number)
        · obtain ⟨number, value⟩ := valued
          exact .token (found ▸ nofun) (.pure _) fun _ _ => primaryWith_of_number found value
        · exact .refuse productive ⟨_, fun _ => failsAt_number found fun number value =>
            valued ⟨number, value⟩⟩
      | string =>
        exact .token (found ▸ nofun) (.pure _) fun _ _ => primaryWith_of_string found
      | identifier =>
        exact .token (found ▸ nofun) (((predictive.afterName consumes token.text).predicts
          ⟨rest, endPosition⟩ fewer).within _) fun _ _ => primaryWith_of_identifier found
      | _ => exact absurd (found ▸ kind) nofun
  · refine .refuse productive ⟨{ cause := primaryFault input.kind
                                 contexts := ["parsing primary expression"] }, fun place same => ?_⟩
    rw [← same.kind_eq] at starts ⊢
    exact ⟨primaryWith_of_other (Bool.not_eq_true _ ▸ starts), blames_of_primaryFault rfl rfl⟩

theorem Input.Stops.congr {least : Nat} {input other : Input} (stops : input.Stops least)
    (same : other.kind = input.kind) : other.Stops least := by
  intro operator found
  rw [nextOperator?_eq, same] at found
  exact stops operator found

theorem Predictive.chain {primary : Parser Expr} (consumes : Takes 1 primary)
    (predictive : Predictive bound (· = .number) (Closes 5) primary) (least : Nat) (lhs : Expr) :
    Predictive bound (Closes least) (Closes least) (chain primary least lhs) := by
  have productive (least : Nat) (lhs : Expr) :
      Productive (Closes least) (Closes least) (Parser.chain primary least lhs) :=
    (Productive.pure lhs).congr fun _ closes => chain_of_stops closes.ends.stops
  induction bound generalizing least lhs with
  | zero => exact ⟨productive least lhs, nofun⟩
  | succ bound ih =>
    have shorter := predictive.weaken (Nat.le_succ bound)
    refine ⟨productive least lhs, fun input few => ?_⟩
    rcases stops_or_exists least input with stops | ⟨token, rest, operator, here, next, takes⟩
    · refine (Predicts.pure lhs).congr fun place allowed => chain_of_stops ?_
      exact allowed.elim stops.congr fun closes => closes.ends.stops
    · obtain ⟨_, endPosition⟩ := input
      cases here
      have denoted : token.kind.operator? = some operator := next
      have proper : token.kind ≠ .endOfInput := fun ended => by
        rw [ended] at denoted
        cases denoted
      -- The right operand binds tighter than the operator, and so does not end the chain.
      have operation := shorter.bind (fun operand =>
        (ih shorter (operator.precedence + 1) operand).bind
          (fun rhs => ih shorter least (.binary operator lhs rhs)) fun _ closes =>
            closes.mono (Nat.le_succ_of_le takes)) fun _ closes =>
        closes.mono operator.precedence_lt_five
      exact .token proper (operation.predicts ⟨rest, endPosition⟩ (Nat.lt_of_succ_lt_succ few))
        fun _ _ => chain_of_operator consumes next takes

theorem Predictive.expression (bound : Nat) :
    Predictive bound (· = .number) (Closes 0) expression := by
  induction bound with
  | zero =>
    have reads := reads_expression (.literal (.number (.ofNat 0)))
    exact ⟨.of_reads (reads.mono fun _ closes => closes.ends) fun _ _ => rfl, nofun⟩
  | succ bound ih =>
    have primary := ih.primaryWith Takes.expression
    have extended (lhs : Expr) := primary.chain Takes.expression.primaryWith 0 lhs
    rw [expression_eq, expressionWith]
    exact (primary.bind (fun lhs => (extended lhs).within _) fun _ closes =>
      closes.mono (Nat.zero_le _)).within _

/-- What comes behind a name with which an expression starts. -/
def expressionAfterName (name : String) : Parser Expr :=
  within "parsing expression" (do
    let lhs ← within "parsing primary expression" (afterName expression name)
    within "parsing binary expression" (chain primary 0 lhs))

theorem expression_of_identifier {token : Token} (found : token.kind = .identifier)
    (rest : List Token) (endPosition : Position) :
    expression ⟨token :: rest, endPosition⟩ =
      expressionAfterName token.text ⟨rest, endPosition⟩ := by
  rw [expression_eq, expressionWith]
  exact within_congr_run (bind_congr_run (primaryWith_of_identifier found) fun _ _ _ => rfl)

theorem Predictive.expressionAfterName (name : String) :
    Predictive bound (fun kind => kind = .openParen ∨ Closes 5 kind) (Closes 0)
      (expressionAfterName name) := by
  have first := (expression bound).afterName Takes.expression name
  have primary := ((expression bound).primaryWith Takes.expression).weaken (Nat.le_succ bound)
  have extended (lhs : Expr) := primary.chain Takes.expression.primaryWith 0 lhs
  refine within ?_ _
  exact (first.within _).bind (fun lhs => (extended lhs).within _) fun _ closes =>
    closes.mono (Nat.zero_le _)

/-! ## Statements -/

/-- An expression up to a semicolon. -/
theorem Predictive.terminated (bound : Nat) (change : Expr → Statement) :
    Predictive bound (· = .number) follows (do
      let value ← Parser.expression
      Parser.consume .semicolon
      Pure.pure (change value)) :=
  (expression bound).closed nofun Closes.semicolon

theorem Predictive.condition : Predictive bound (· = .openParen) follows condition := by
  refine within ?_ _
  exact (consume .openParen nofun).andThen fun _ =>
    (expression bound).closed nofun Closes.closeParen

theorem Predictive.declaration :
    Predictive bound (· = .keyword .dhore) follows declaration := by
  refine within ?_ _
  exact (keyword .dhore).andThen fun _ => identifier.andThen fun name =>
    .decide (fun input few found => .accept (found ▸ nofun)
        (terminated bound fun value => .declaration name (some value)) (Nat.lt_succ_of_lt few))
      (consume .semicolon nofun).map (fun _ here => here) fun _ here => here ▸ nofun

theorem Predictive.functionWith
    (block : Predictive bound (· = .openBrace) follows (blockWith nested)) :
    Predictive bound (· = .keyword .function) follows (functionWith nested) := by
  have name : Predictive bound (· = .identifier) anything Parser.identifier := identifier
  have parameters := name.separatedByCommas Takes.identifier trivial trivial nofun
  refine within ?_ _
  exact (keyword .function).andThen fun _ => identifier.andThen fun _ =>
    (consume .openParen nofun).andThen fun _ => (parameters.within _).bind
      (fun _ => (consume .closeParen nofun).andThen fun _ => block.map) fun _ here => here

theorem Predictive.conditionalWith
    (block : ∀ {follows}, Predictive bound (· = .openBrace) follows (blockWith nested)) :
    Predictive bound (· = .keyword .jode) (· ≠ .keyword .onnathay) (conditionalWith nested) := by
  refine within ?_ _
  exact (keyword .jode).andThen fun _ => condition.andThen fun _ => block.andThen fun _ =>
    .decide (fun input few found => .accept (found ▸ nofun) block.map (Nat.lt_succ_of_lt few))
      (.pure _) (fun _ here => here) fun _ other => other

theorem Predictive.blockWith (consumes : Takes 1 nested)
    (predictive : Predictive bound (·.startsStatement = true) (· ≠ .keyword .onnathay) nested) :
    Predictive (bound + 1) (· = .openBrace) follows (blockWith nested) := by
  have body : Predictive bound _ _ (Parser.phrasesUntil
      (fun kind => kind = .closeBrace ∨ kind = .endOfInput) nested) :=
    predictive.phrasesUntil consumes
      (fun kind starts => by cases kind <;> first | rfl | cases starts)
      (by rintro _ stops rfl; cases stops) (by rintro _ starts rfl; cases starts)
  rw [Parser.blockWith]
  refine within ?_ _
  exact .step (.consume _) (consume .openBrace (by decide))
    (fun _ => body.closed (by decide) rfl)
    fun _ here => here

section Accepted

variable {input : Input} (few : input.rest.length < bound)

include few

theorem predicts_loopWith (block : Predictive bound (· = .openBrace) follows (blockWith nested))
    (found : input.kind = .keyword .jotokkhon) : Predicts starts follows (loopWith nested) input :=
  .accept (found ▸ nofun) (Predictive.condition.andThen fun _ => block.map)
    (Nat.lt_succ_of_lt few)

theorem predicts_returning (found : input.kind = .keyword .ferot) :
    Predicts starts follows returning input :=
  .accept (found ▸ nofun)
    (.decide (fun input few _ => (Predictive.consume .semicolon nofun).map.predicts input few)
      (Predictive.terminated bound fun value => .giveBack (some value)) (fun _ here => here)
      fun _ here => here ▸ nofun) (Nat.lt_succ_of_lt few)

theorem predicts_printing (found : input.kind = .keyword .dekhao) :
    Predicts starts follows printing input :=
  .accept (found ▸ nofun)
    ((Predictive.consume .openParen nofun).andThen fun _ => (Predictive.expression bound).bind
      (fun _ => (Predictive.consume .closeParen nofun).andThen fun _ =>
        (Predictive.consume .semicolon nofun).map) fun _ here => here ▸ Closes.closeParen)
    (Nat.lt_succ_of_lt few)

end Accepted

section Named

variable {name : Token} (named : name.kind = .identifier) {rest : List Token}
  {endPosition : Position}

include named

/-- A name and the assignment sign. -/
theorem predicts_assignment {sign : Token} (assigns : sign.kind = .sign .assign) :
    Predicts starts follows (statementFrom statement .identifier)
      ⟨name :: sign :: rest, endPosition⟩ := by
  have proper : AreProper [name, sign] := by
    rintro _ (_ | ⟨_, _ | ⟨_, ⟨⟩⟩⟩)
    · exact named ▸ nofun
    · exact assigns ▸ nofun
  refine ((Predictive.terminated _ (.assignment name.text)).predicts ⟨rest, endPosition⟩
    (Nat.lt_succ_self _)).after (cons_ne_nil _ _) proper fun place _ => ?_
  have taken : identifier (place.behind [name, sign]) = .ok name.text (place.behind [sign]) :=
    identifier_of_kind named (sign :: place.rest) place.endPosition
  refine (congrFun (if_pos assigns) _).trans ((bind_of_ok taken).trans ?_)
  exact bind_accept

/-- A name without the assignment sign, which no completion adds. -/
theorem predicts_namedExpression (other : Input.kind ⟨rest, endPosition⟩ ≠ .sign .assign) :
    Predicts starts follows (statementFrom statement .identifier) ⟨name :: rest, endPosition⟩ := by
  have value : Predictive (rest.length + 1) (fun kind => kind = .openParen ∨ Closes 5 kind)
      follows (do
        let value ← expressionAfterName name.text
        consume .semicolon
        pure (Statement.expression value)) :=
    (Predictive.expressionAfterName name.text).closed nofun Closes.semicolon
  have proper : AreProper [name] := forall_mem_singleton.mpr (named ▸ nofun)
  refine (value.predicts ⟨rest, endPosition⟩ (Nat.lt_succ_self _)).after (cons_ne_nil _ _)
    proper fun place allowed => ?_
  have second : (place.behind [name]).secondKind = place.kind := by
    obtain ⟨rest, endPosition⟩ := place
    cases rest <;> rfl
  have noAssign : (place.behind [name]).secondKind ≠ .sign .assign := by
    rw [second]
    rcases allowed with same | opens | closes
    · exact same ▸ other
    · exact opens ▸ nofun
    · exact closes.ne_assign
  have first : expression (place.behind [name]) = expressionAfterName name.text place :=
    expression_of_identifier named place.rest place.endPosition
  exact (congrFun (if_neg noAssign) _).trans (bind_congr_run first fun _ _ _ => rfl)

end Named

/-- Statements with a first token of the same kind are read by the same parser. -/
theorem predicts_statementFrom {input : Input} (few : input.rest.length < bound)
    (block : ∀ {follows}, Predictive bound (· = .openBrace) follows (blockWith statement)) :
    ∃ begins : TokenKind → Prop,
      Predicts begins (· ≠ .keyword .onnathay) (statementFrom statement input.kind) input ∧
        ∀ kind, begins kind → kind.startsStatement = true ∧
          statementFrom statement kind = statementFrom statement input.kind := by
  have alone {kind : TokenKind} (starts : kind.startsStatement = true) :
      ∀ other, other = kind → other.startsStatement = true ∧
        statementFrom statement other = statementFrom statement kind := by
    rintro _ rfl
    exact ⟨starts, rfl⟩
  have other : Predicts (· = .number) (· ≠ .keyword .onnathay) expressionStatement input :=
    (Predictive.terminated bound .expression).predicts input few
  have number : ∀ kind, kind = .number → kind.startsStatement = true ∧
      statementFrom statement kind = expressionStatement := by
    rintro _ rfl
    exact ⟨rfl, rfl⟩
  cases found : input.kind with
  | keyword word =>
    cases word with
    | dhore => exact ⟨_, Predictive.declaration.predicts input few, alone rfl⟩
    | jode => exact ⟨_, (Predictive.conditionalWith block).predicts input few, alone rfl⟩
    | jotokkhon => exact ⟨_, predicts_loopWith few block found, alone rfl⟩
    | function => exact ⟨_, (Predictive.functionWith block).predicts input few, alone rfl⟩
    | ferot => exact ⟨_, predicts_returning few found, alone rfl⟩
    | dekhao => exact ⟨_, predicts_printing few found, alone rfl⟩
    | onnathay => exact ⟨_, other, number⟩
  | identifier =>
    refine ⟨_, ?_, alone rfl⟩
    match input, found with
    | ⟨[_], _⟩, named => exact predicts_namedExpression named nofun
    | ⟨name :: second :: rest, endPosition⟩, named =>
      by_cases assigns : second.kind = .sign .assign
      · exact predicts_assignment named assigns
      · exact predicts_namedExpression named assigns
  | openBrace => exact ⟨_, block.map.predicts input few, alone rfl⟩
  | _ => exact ⟨_, other, number⟩

theorem Predictive.statement (bound : Nat) :
    Predictive bound (·.startsStatement = true) (· ≠ .keyword .onnathay) statement := by
  induction bound with
  | zero =>
    exact ⟨.of_reads (reads_statement (.expression (.literal (.number (.ofNat 0)))))
      fun _ _ => rfl, nofun⟩
  | succ bound ih =>
    refine ⟨ih.productive, fun input few => ?_⟩
    obtain ⟨_, predicts, same⟩ :=
      predicts_statementFrom few (ih.blockWith Takes.statement)
    rw [statement_eq, statementWith]
    exact (predicts.look (fun kind start => (same kind start).2)
      fun kind start => (same kind start).1).within _

theorem Predictive.program (bound : Nat) :
    Predictive bound (fun kind => kind = .endOfInput ∨ kind.startsStatement = true)
      (· = .endOfInput) program := by
  have body : Predictive bound _ _ (Parser.phrasesUntil (fun kind => kind = .endOfInput)
      Parser.statement) :=
    (statement bound).phrasesUntil Takes.statement
      (fun kind starts => by cases kind <;> first | rfl | cases starts)
      (by rintro _ stops rfl; cases stops) (by rintro _ starts rfl; cases starts)
  rw [Parser.program]
  exact body.map.mono (fun _ => .imp_left of_decide_eq_true) fun _ => decide_eq_true

end Parser

/-! ## The first token that cannot continue -/

variable {tokens : List Token}

/-- Tokens of a text hold an end of the input. -/
theorem Cursor.exists_endOfInput_of_tokens {cursor : Cursor} (read : cursor.tokens = .ok tokens) :
    ∃ token ∈ tokens, token.kind = .endOfInput := by
  fun_induction Cursor.tokens cursor generalizing tokens with
  | case1 =>
    cases read
    exact ⟨_, mem_singleton_self _, rfl⟩
  | case2 | case4 => cases read
  | case3 cursor token after found _ rest listed ih =>
    cases read
    obtain ⟨last, member, ended⟩ := ih listed
    exact ⟨last, mem_cons_of_mem _ member, ended⟩

/-- The token is the first one that cannot continue the tokens before it, and the
error is about this token. -/
structure IsFirstFault (before : List Token) (found : Token) (error : SyntaxError) : Prop where
  position : error.position = some found.position
  cause : if found.kind = .endOfInput then ∃ wanted, error.cause = .unexpectedEnd wanted
    else ∃ wanted, error.cause = .expected wanted found.kind
  viable : ∃ more program, parse (before ++ more) = .ok program
  final : ∀ more program, parse (before ++ found :: more) ≠ .ok program

/-- Every list of lexemes is that of some tokens. -/
theorem Lexeme.exists_tokens (spelled : List Lexeme) :
    ∃ tokens : List Token, tokens.map Token.lexeme = spelled := by
  refine ⟨spelled.map (Cursor.ofText "").place, ?_⟩
  rw [map_map]
  refine map_id'' (fun lexeme => ?_) spelled
  simp [Token.lexeme, Cursor.place]

theorem parse_of_ok {program : Program} {left : Parser.Input}
    (run : Parser.program (.ofTokens tokens) = .ok program left) : parse tokens = .ok program := by
  rw [parse, run]

theorem parse_of_error {error : SyntaxError} {left : Parser.Input}
    (run : Parser.program (.ofTokens tokens) = .error error left) :
    parse tokens = .error error := by
  rw [parse, run]

theorem isFirstFault_of_rejects {before : List Token} {found : Token} {error : SyntaxError}
    {rest : List Token} {endPosition : Position} {starts : TokenKind → Prop}
    (rejects : Parser.Rejects starts (· = .endOfInput) Parser.program before
      ⟨found :: rest, endPosition⟩)
    (blames : Parser.Blames error ⟨found :: rest, endPosition⟩) :
    IsFirstFault before found error where
  position := blames.position
  cause := blames.cause
  viable := by
    obtain ⟨spelled, program, reads, _⟩ := rejects.completes
    obtain ⟨more, spells⟩ := Lexeme.exists_tokens spelled
    have run := @reads more ⟨[], (Parser.Input.ofTokens (before ++ more)).endPosition⟩ spells rfl
    refine ⟨more, program, parse_of_ok (Eq.trans ?_ run)⟩
    simp [Parser.Input.behind, Parser.Input.ofTokens]
  final more program success := by
    obtain ⟨_, fails⟩ := rejects.fails
    obtain ⟨run, _⟩ := fails
      ⟨found :: more, (Parser.Input.ofTokens (before ++ found :: more)).endPosition⟩ (.inl rfl)
    cases (parse_of_error run).symm.trans success

/-- **The parser reports the first token that cannot continue.**  If the tokens
of a text are no program, the parser stops at one of them.  What comes before
this token can be completed to a program, and nothing behind it makes a
program. -/
theorem exists_isFirstFault_of_parse {text : String} {tokens : List Token} {error : SyntaxError}
    (read : tokenize text = .ok tokens) (failed : parse tokens = .error error) :
    ∃ before found after, tokens = before ++ found :: after ∧
      Parser.program (.ofTokens tokens) =
        .error error ⟨found :: after, (Parser.Input.ofTokens tokens).endPosition⟩ ∧
      IsFirstFault before found error := by
  obtain ⟨before, left, split, proper, outcome⟩ :=
    (Parser.Predictive.program (tokens.length + 1)).predicts (.ofTokens tokens) (Nat.lt_succ_self _)
  rcases outcome with ⟨program, accepts⟩ | rejects
  · have run := accepts.succeeds left (.inl (.refl _))
    rw [← split] at run
    cases (parse_of_ok run).symm.trans failed
  · obtain ⟨_, fails⟩ := rejects.fails
    obtain ⟨run, blames⟩ := fails left (.refl _)
    rw [← split] at run
    cases (parse_of_error run).symm.trans failed
    obtain ⟨rest, endPosition⟩ := left
    have listed : tokens = before ++ rest := congrArg Parser.Input.rest split
    have placed : (Parser.Input.ofTokens tokens).endPosition = endPosition :=
      congrArg Parser.Input.endPosition split
    cases rest with
    | nil =>
      -- The end of the input is among the tokens, and the parser does not take it.
      obtain ⟨last, member, ended⟩ := Cursor.exists_endOfInput_of_tokens read
      rw [listed, append_nil] at member
      exact absurd ended (proper last member)
    | cons found after =>
      rw [placed]
      exact ⟨before, found, after, listed, run, isFirstFault_of_rejects rejects blames⟩

/-- The argument behind the comma is missing, whatever comes behind the
parenthesis. -/
theorem exists_isFirstFault_missingArgument :
    ∃ tokens error, tokenize "jode (a) \x7b f(a, ); \x7d" = .ok tokens ∧
      parse tokens = .error error ∧
      ∃ before found after, tokens = before ++ found :: after ∧
        Parser.program (.ofTokens tokens) =
          .error error ⟨found :: after, (Parser.Input.ofTokens tokens).endPosition⟩ ∧
        IsFirstFault before found error := by
  have failed : (tokenize "jode (a) \x7b f(a, ); \x7d").map (fun tokens => (parse tokens).isOk) =
      .ok false := by
    decide +kernel
  revert failed
  cases read : tokenize "jode (a) \x7b f(a, ); \x7d" with
  | error => rintro ⟨⟩
  | ok tokens =>
    intro failed
    have none : (parse tokens).isOk = false := Except.ok.inj failed
    cases ran : parse tokens with
    | ok => cases (congrArg Except.isOk ran).symm.trans none
    | error error => exact ⟨tokens, error, rfl, ran, exists_isFirstFault_of_parse read ran⟩

end BanglaScript
